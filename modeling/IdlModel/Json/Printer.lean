import IdlModel.Json.Basic
import IdlModel.Text.Hex

/-!
# Printing JSON

A value is printed on one line or, indented by two spaces for each level, over several lines. The
two layouts differ only in the white space between tokens: `Layout.lineBreak` in front of every
item and closing bracket, and a space behind the colon. In strings only the quote, the backslash
and the characters below U+0020 are escaped.
-/

namespace IdlModel.Json

/-- How the tokens of a value are spaced. -/
inductive Layout where
  /-- No white space at all. -/
  | compact
  /-- A line for each item, at this depth. -/
  | indented (depth : Nat)
  deriving DecidableEq, Repr

namespace Layout

/-- The layout of what stands inside brackets. -/
def deeper : Layout → Layout
  | .compact => .compact
  | .indented depth => .indented (depth + 1)

/-- The white space in front of an item or a closing bracket. -/
def lineBreak : Layout → List Char
  | .compact => []
  | .indented depth => '\n' :: List.replicate (2 * depth) ' '

/-- What separates a key from its value. -/
def colon : Layout → List Char
  | .compact => [':']
  | .indented _ => [':', ' ']

end Layout

/-- One character as it stands in a string. -/
def escapeChar (c : Char) : List Char :=
  match c with
  | '"' => ['\\', '"']
  | '\\' => ['\\', '\\']
  | '\x08' => ['\\', 'b']
  | '\t' => ['\\', 't']
  | '\n' => ['\\', 'n']
  | '\x0c' => ['\\', 'f']
  | '\r' => ['\\', 'r']
  | c =>
    if c.toNat < 0x20 then
      ['\\', 'u', '0', '0', Text.hexDigit (c.toNat / 16), Text.hexDigit (c.toNat % 16)]
    else [c]

/-- A string with its quotes. -/
def printString (s : String) : List Char :=
  '"' :: s.toList.flatMap escapeChar ++ ['"']

mutual

/-- The characters of a value. -/
def print (layout : Layout) : Json → List Char
  | .null => "null".toList
  | .bool b => (if b then "true" else "false").toList
  | .number n => n.text.toList
  | .string s => printString s
  | .array [] => ['[', ']']
  | .array (v :: vs) =>
    '[' :: (layout.deeper.lineBreak ++ print layout.deeper v ++
      (printItems layout.deeper vs ++ (layout.lineBreak ++ [']'])))
  | .object [] => ['\x7b', '\x7d']
  | .object ((k, v) :: ms) =>
    '\x7b' :: (layout.deeper.lineBreak ++ printString k ++ layout.deeper.colon ++
      print layout.deeper v ++ (printMembers layout.deeper ms ++ (layout.lineBreak ++ ['\x7d'])))

/-- The items of an array behind the first one, each after a comma. -/
def printItems (layout : Layout) : List Json → List Char
  | [] => []
  | v :: vs => ',' :: (layout.lineBreak ++ print layout v ++ printItems layout vs)

/-- The members of an object behind the first one, each after a comma. -/
def printMembers (layout : Layout) : List (String × Json) → List Char
  | [] => []
  | (k, v) :: ms =>
    ',' :: (layout.lineBreak ++ printString k ++ layout.colon ++ print layout v ++
      printMembers layout ms)

end

/-- A value on one line. -/
def compact (v : Json) : String :=
  String.ofList (print .compact v)

/-- A value over several lines. -/
def pretty (v : Json) : String :=
  String.ofList (print (.indented 0) v)

end IdlModel.Json
