import IdlModel.Text.Hex
import IdlModel.Text.Parser

/-!
# TOML: white space, keys and strings

The parts of TOML texts that are made of single characters. Parsers fail without a message: a
configuration file is either TOML or not.
-/

namespace IdlModel.Toml

open Text (Parser)
open Text.Parser

/-! ## White space and comments -/

/-- A space or a tab. -/
def isBlank (c : Char) : Bool :=
  c = ' ' || c = '\t'

/-- A character that may stand in a comment: a tab, or any character that is not a control
character. -/
def isCommentChar (c : Char) : Bool :=
  c = '\t' || (0x20 ≤ c.toNat && c.toNat ≠ 0x7F)

/-- Take spaces and tabs. -/
def blanks : Parser Unit := do
  let _ ← run isBlank

/-- Take a newline, of one or two characters. -/
def newline : Parser Unit :=
  orElse (exactly ['\n']) (exactly ['\r', '\n'])

/-- Take a comment, if there is one. -/
def comment : Parser Unit := do
  if (← peek) = some '#' then
    let _ ← run isCommentChar

/-- Take what may stand behind an entry, up to the end of the line. -/
def endOfLine : Parser Unit := do
  blanks
  comment
  if (← peek).isSome then newline

/-- Take blanks, comments and newlines, at most as many lines as there is fuel. -/
def gapUpTo : Nat → Parser Unit
  | 0 => pure ()
  | fuel + 1 => do
    blanks
    comment
    if (← attempt newline).isSome then gapUpTo fuel

/-- Take blanks, comments and newlines. -/
def gap : Parser Unit := do
  gapUpTo ((← get).length + 1)

/-! ## Strings -/

/-- A character that may stand for itself in a string. -/
def isStringChar (c : Char) : Bool :=
  isCommentChar c

/-- The character with a code given in hexadecimal digits. -/
def codePoint? (digits : List Char) : Option Char := do
  let n ← Text.hexNumber? digits
  if n < 0xD800 ∨ (0xDFFF < n ∧ n < 0x110000) then some (Char.ofNat n) else none

/-- The character that an escape stands for, and the text behind it, from behind the backslash. -/
def escape : List Char → Option (Char × List Char)
  | 'b' :: cs => some ('\x08', cs)
  | 't' :: cs => some ('\t', cs)
  | 'n' :: cs => some ('\n', cs)
  | 'f' :: cs => some ('\x0c', cs)
  | 'r' :: cs => some ('\r', cs)
  | '"' :: cs => some ('"', cs)
  | '\\' :: cs => some ('\\', cs)
  | 'u' :: cs => sized 4 cs
  | 'U' :: cs => sized 8 cs
  | _ => none
where
  /-- A character by its code of so many digits. -/
  sized (n : Nat) (cs : List Char) : Option (Char × List Char) :=
    if (cs.take n).length = n then (codePoint? (cs.take n)).map (·, cs.drop n) else none

/-- The text without the blanks and newlines it begins with. A carriage return belongs to a newline
only in front of a line feed. -/
def dropGap : List Char → List Char
  | '\r' :: '\n' :: cs => dropGap cs
  | c :: cs => if isBlank c || c = '\n' then dropGap cs else c :: cs
  | [] => []

/-- The text behind a backslash at the end of a line, and behind the white space that follows. -/
def continuation? (cs : List Char) : Option (List Char) :=
  match cs.dropWhile isBlank with
  | '\n' :: rest => some (dropGap rest)
  | '\r' :: '\n' :: rest => some (dropGap rest)
  | _ => none

/-- The characters of a string on one line, from behind the opening quote, at most as many as
there is fuel. -/
def basicUpTo : Nat → List Char → Option (List Char × List Char)
  | 0, _ => none
  | _, [] => none
  | fuel + 1, c :: cs =>
    if c = '"' then some ([], cs)
    else if c = '\\' then do
      let (e, cs) ← escape cs
      let (es, rest) ← basicUpTo fuel cs
      some (e :: es, rest)
    else if isStringChar c then do
      let (es, rest) ← basicUpTo fuel cs
      some (c :: es, rest)
    else none

/-- The characters of a string over several lines, from behind the opening quotes, at most as many
as there is fuel. Such a string may end with up to two quotes of its own. -/
def longBasicUpTo : Nat → List Char → Option (List Char × List Char)
  | 0, _ => none
  | _, [] => none
  | _, '"' :: '"' :: '"' :: '"' :: '"' :: cs => some (['"', '"'], cs)
  | _, '"' :: '"' :: '"' :: '"' :: cs => some (['"'], cs)
  | _, '"' :: '"' :: '"' :: cs => some ([], cs)
  | fuel + 1, c :: cs =>
    if c = '\\' then
      match continuation? cs with
      | some cs => longBasicUpTo fuel cs
      | none => do
        let (e, cs) ← escape cs
        let (es, rest) ← longBasicUpTo fuel cs
        some (e :: es, rest)
    else if c = '\r' ∧ cs.head? = some '\n' then longBasicUpTo fuel cs
    else if c = '\n' ∨ isStringChar c then do
      let (es, rest) ← longBasicUpTo fuel cs
      some (c :: es, rest)
    else none

/-- The characters of a string over several lines without escapes, from behind the opening
quotes. -/
def longLiteral : List Char → Option (List Char × List Char)
  | '\'' :: '\'' :: '\'' :: '\'' :: '\'' :: cs => some (['\'', '\''], cs)
  | '\'' :: '\'' :: '\'' :: '\'' :: cs => some (['\''], cs)
  | '\'' :: '\'' :: '\'' :: cs => some ([], cs)
  | c :: cs =>
    if c = '\r' ∧ cs.head? = some '\n' then longLiteral cs
    else if c = '\n' ∨ isStringChar c then do
      let (es, rest) ← longLiteral cs
      some (c :: es, rest)
    else none
  | [] => none

/-- Take a string on one line with escapes. -/
def basicString : Parser String := do
  exactly ['"']
  let es ← fun cs => basicUpTo (cs.length + 1) cs
  return String.ofList es

/-- Take a string on one line without escapes. -/
def literalString : Parser String := do
  exactly ['\'']
  let cs ← run fun c => c ≠ '\'' && isStringChar c
  exactly ['\'']
  return String.ofList cs

/-- Take a string of any of the four kinds. A newline directly behind three quotes is not part of
the string. -/
def string : Parser String := do
  if ← startsWith ['"', '"', '"'] then
    exactly ['"', '"', '"']
    let _ ← attempt newline
    let es ← fun cs => longBasicUpTo (cs.length + 1) cs
    return String.ofList es
  else if ← startsWith ['\'', '\'', '\''] then
    exactly ['\'', '\'', '\'']
    let _ ← attempt newline
    let es ← longLiteral
    return String.ofList es
  else orElse basicString literalString

/-! ## Keys -/

/-- A character of a key without quotes. -/
def isKeyChar (c : Char) : Bool :=
  c.isAlphanum || c = '_' || c = '-'

/-- Take one key. -/
def simpleKey : Parser String := do
  match ← peek with
  | some '"' => basicString
  | some '\'' => literalString
  | _ => return String.ofList (← run1 isKeyChar)

/-- Take the keys behind a first one, each after a point, at most as many as there is fuel. -/
def moreKeys : Nat → Parser (List String)
  | 0 => pure []
  | fuel + 1 => do
    blanks
    if (← peek) = some '.' then
      exactly ['.']
      blanks
      let k ← simpleKey
      let ks ← moreKeys fuel
      pure (k :: ks)
    else pure []

/-- The number of levels that arrays, tables and keys may nest. -/
def maxDepth : Nat := 80

/-- Take a path of keys, and the blanks around it. -/
def keyPath : Parser (List String) := do
  blanks
  let k ← simpleKey
  let ks ← moreKeys (← get).length
  if (k :: ks).length < maxDepth then pure (k :: ks) else failure

end IdlModel.Toml
