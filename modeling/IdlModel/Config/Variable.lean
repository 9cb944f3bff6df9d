import IdlModel.Config.Error
import IdlModel.Config.Setting
import IdlModel.Text.Blank
import IdlModel.Text.Hex
import IdlModel.Text.Parser

/-!
# Environment variables as settings

A variable whose name begins with `THRIFTY_`, in any case, sets the key that the rest of its name
spells: lower case counts, and two underscores lead into a table. Its text is read as a Boolean, a
number, a quoted text, a list in square or a table in curly brackets, and is itself the value
otherwise.
-/

namespace IdlModel.Config

open Text (Parser)
open Text.Parser

/-! ## Names -/

/-- The beginning of the names that count. -/
def variablePrefix : List Char :=
  ['t', 'h', 'r', 'i', 'f', 't', 'y', '_']

/-- The text with each two underscores turned into a point. -/
def dotted : List Char → List Char
  | '_' :: '_' :: cs => '.' :: dotted cs
  | c :: cs => c :: dotted cs
  | [] => []

/-- The parts of a text between its points. -/
def splitAtPoints : List Char → List (List Char)
  | [] => [[]]
  | c :: cs => if c = '.' then [] :: splitAtPoints cs else (splitAtPoints cs).modifyHead (c :: ·)

/-- The path of keys that the name of a variable spells. White space around the whole name and
around the part behind the beginning does not count. No part of the path may be empty. -/
def variablePath? (name : String) : Option (List String) :=
  let cs := (Text.trim name.toList).map Char.toLower
  if variablePrefix.isPrefixOf cs then
    let parts := splitAtPoints (dotted (Text.trim (cs.drop variablePrefix.length)))
    if parts.any List.isEmpty then none else some (parts.map String.ofList)
  else none

/-! ## Values -/

/-- White space around values. -/
def isSpace (c : Char) : Bool :=
  c = ' ' || c = '\t' || c = '\n' || c = '\r' || c = '\x0c'

/-- A character that ends a value without quotes. -/
def isSeparator (c : Char) : Bool :=
  c = ',' || c = '\x7b' || c = '\x7d' || c = '[' || c = ']'

/-- A character of a key without quotes. -/
def isKeyChar (c : Char) : Bool :=
  c.isAlphanum || c = '_' || c = '-'

/-- How a value is read: most failures only mean that the text is no such value, but a quoted text
may be impossible to cut. -/
abbrev Reading := OptionT (Except ConfigError)

/-- A parser of values, or of parts of them. -/
abbrev ValueParser := StateT (List Char) Reading

/-- A parser of characters fails only because the text is no such value. -/
instance : MonadLift Parser ValueParser where
  monadLift p cs := OptionT.mk (pure (p cs))

/-- Take white space. -/
def spaces : Parser Unit := do
  let _ ← run isSpace

/-- The character that an escape stands for, and the text behind it, from behind the backslash. -/
def escape? : List Char → Option (Char × List Char)
  | '"' :: cs => some ('"', cs)
  | '\\' :: cs => some ('\\', cs)
  | 'b' :: cs => some ('\x08', cs)
  | 'f' :: cs => some ('\x0c', cs)
  | 'n' :: cs => some ('\n', cs)
  | 'r' :: cs => some ('\r', cs)
  | 't' :: cs => some ('\t', cs)
  | 'u' :: cs => sized 4 cs
  | 'U' :: cs => sized 8 cs
  | _ => none
where
  /-- A character by its code of so many hexadecimal digits. -/
  sized (n : Nat) (cs : List Char) : Option (Char × List Char) := do
    let code ← Text.hexNumber? (cs.take n)
    if (cs.take n).length = n ∧ (code < 0xD800 ∨ (0xDFFF < code ∧ code < 0x110000)) then
      some (Char.ofNat code, cs.drop n)
    else none

/-- A character that may stand for itself in a quoted text: a tab, or any character that is not a
control character. -/
def isQuotable (c : Char) : Bool :=
  c = '\t' || (0x20 ≤ c.toNat && c.toNat ≠ 0x7F)

/-- The text in front of the closing quote, as it is written, and the text behind that quote. The
character behind a backslash closes nothing. -/
def splitAtQuote? : List Char → Option (List Char × List Char)
  | [] => none
  | '"' :: cs => some ([], cs)
  | '\\' :: c :: cs => (splitAtQuote? cs).map fun (raw, rest) => ('\\' :: c :: raw, rest)
  | c :: cs => (splitAtQuote? cs).map fun (raw, rest) => (c :: raw, rest)

/-- The beginning of a text that takes so many bytes, if it ends with a whole character. -/
def takeBytes? : Nat → List Char → Option (List Char)
  | 0, _ => some []
  | _, [] => none
  | n, c :: cs => if c.utf8Size ≤ n then (takeBytes? (n - c.utf8Size) cs).map (c :: ·) else none

/-- The beginning of a text that takes as many bytes as the number says. -/
def cut (n : Nat) (raw : List Char) : Reading (List Char) :=
  match takeBytes? n raw with
  | some taken => pure taken
  | none => throwThe ConfigError .cutCharacter

/-- The characters that a text with escapes stands for, at most as many as there is fuel. -/
def unescape? : Nat → List Char → Option (List Char)
  | 0, _ => none
  | _, [] => some []
  | fuel + 1, c :: cs =>
    if c = '\\' then do
      let (e, cs) ← escape? cs
      (unescape? fuel cs).map (e :: ·)
    else if isQuotable c then (unescape? fuel cs).map (c :: ·)
    else none

/-- What a quoted text stands for, from the text as it is written. At the first escape the text is
cut: of what stands in front of it only as many bytes count as it has characters, so nothing is
lost there as long as these are ASCII. -/
def ofQuoted (raw : List Char) : Reading String := do
  let plain := raw.takeWhile (· ≠ '\\')
  if !plain.all isQuotable then failure
  let escaped := raw.drop plain.length
  if escaped.isEmpty then return String.ofList plain
  let kept ← cut plain.length raw
  match unescape? (escaped.length + 1) escaped with
  | some es => return String.ofList (kept ++ es)
  | none => failure

/-- Take a quoted text. -/
def quoted : ValueParser String := do
  exactly ['"']
  match splitAtQuote? (← get) with
  | some (raw, rest) => do
    set rest
    ofQuoted raw
  | none => failure

/-- Take a single character between apostrophes. -/
def character : Parser Char := do
  exactly ['\'']
  let c ← count 1 fun _ => true
  exactly ['\'']
  return c.headD ' '

/-- Digits with a point before, between or behind them, and perhaps a sign and an exponent. -/
def isFloat (cs : List Char) : Bool :=
  let unsigned (cs : List Char) : List Char :=
    match cs with
    | '+' :: cs | '-' :: cs => cs
    | cs => cs
  let isDigits (cs : List Char) : Bool := cs.all Char.isDigit
  let cs := unsigned cs
  let whole := cs.takeWhile Char.isDigit
  match cs.dropWhile Char.isDigit with
  | '.' :: cs =>
    let fraction := cs.takeWhile Char.isDigit
    !(whole.isEmpty && fraction.isEmpty) &&
      match cs.dropWhile Char.isDigit with
      | [] => true
      | c :: cs => (c = 'e' || c = 'E') && !(unsigned cs).isEmpty && isDigits (unsigned cs)
  | _ => false

/-- The value of digits that are not missing. -/
def natural? (cs : List Char) : Option Nat :=
  if cs.isEmpty ∨ !cs.all Char.isDigit then none
  else some (cs.foldl (fun n d => 10 * n + (d.toNat - 48)) 0)

/-- A whole number that fits 64 bits, with or without sign. -/
def integer? (cs : List Char) : Option Int :=
  match cs with
  | '-' :: cs => do
    let n ← natural? cs
    if n ≤ Nat.pow 2 63 then some (-(n : Int)) else none
  | cs => do
    let n ← natural? (match cs with
      | '+' :: cs => cs
      | cs => cs)
    if n < Nat.pow 2 64 then some n else none

/-- The value of a text without quotes or brackets. -/
def bare (cs : List Char) : Setting :=
  let cs := Text.trim cs
  if cs.contains '.' ∧ isFloat cs then .float (String.ofList cs)
  else match integer? cs with
    | some n => .integer n
    | none => .text (String.ofList cs)

/-- Take what `item` takes, separated by commas, up to a closing character. There may be a comma
directly in front of that, and no more items than fuel. White space is left to the items, so one
in front of the closing character is the beginning of an item. -/
def separatedUpTo {α : Type} (item : ValueParser α) (close : Char) : Nat → ValueParser (List α)
  | 0 => failure
  | fuel + 1 => do
    if (← peek) = some close then
      exactly [close]
      pure []
    else
      let a ← item
      if (← peek) = some ',' then
        exactly [',']
        let as ← separatedUpTo item close fuel
        pure (a :: as)
      else
        exactly [close]
        pure [a]

/-- Take what `item` takes between two characters. -/
def separated {α : Type} (item : ValueParser α) (start close : Char) : ValueParser (List α) := do
  exactly [start]
  separatedUpTo item close ((← get).length + 1)

/-- Take a key, an equals sign and a value. -/
def keyed (value : ValueParser Setting) : ValueParser (String × Setting) := do
  spaces
  let k ← if (← peek) = some '"' then quoted else String.ofList <$> run1 isKeyChar
  spaces
  exactly ['=']
  let v ← value
  pure (k, v)

/-- Take a value, and the white space around it, in which brackets nest at most as deep as there
is fuel. -/
def value : Nat → ValueParser Setting
  | 0 => failure
  | fuel + 1 => do
    spaces
    let v ← id (do
      if ← startsWith ['t', 'r', 'u', 'e'] then
        exactly ['t', 'r', 'u', 'e']
        pure (.bool true)
      else if ← startsWith ['f', 'a', 'l', 's', 'e'] then
        exactly ['f', 'a', 'l', 's', 'e']
        pure (.bool false)
      else
        match ← peek with
        | some '\x7b' =>
          let es ← separated (keyed (value fuel)) '\x7b' '\x7d'
          pure (.table (es.foldl (fun es (k, v) => Setting.update k (fun _ => v) es) []))
        | some '[' => Setting.list <$> separated (value fuel) '[' ']'
        | some '"' => Setting.text <$> quoted
        | some '\'' => Setting.character <$> character
        | _ => bare <$> run (!isSeparator ·))
    spaces
    pure v

/-- The value of a variable. A text that is no value as a whole is a text. -/
def variableValue (text : String) : Except ConfigError Setting := do
  let cs := text.toList
  match ← value (cs.length + 1) cs with
  | some (v, []) => return v
  | _ => return .text text

end IdlModel.Config
