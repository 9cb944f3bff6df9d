import IdlModel.Text.Hex
import IdlModel.Text.Printable

/-!
# Quoted text

A text between double quotes, as messages show it: quote and backslash are escaped, the common
control characters have letters, and other characters without a visible form are written by their
number, `\u{..}` in hexadecimal.
-/

namespace IdlModel.Text

/-- One character as it stands in quoted text. -/
def quoteChar (c : Char) : List Char :=
  match c with
  | '"' => ['\\', '"']
  | '\\' => ['\\', '\\']
  | '\n' => ['\\', 'n']
  | '\t' => ['\\', 't']
  | '\r' => ['\\', 'r']
  | '\x00' => ['\\', '0']
  | c => if isPrintable c then [c] else ['\\', 'u', '\x7b'] ++ hexText c.toNat ++ ['\x7d']

/-- The text between double quotes. -/
def quote (s : String) : String :=
  String.ofList ('"' :: s.toList.flatMap quoteChar ++ ['"'])

end IdlModel.Text
