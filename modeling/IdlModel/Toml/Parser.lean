import IdlModel.Toml.Scalar
import IdlModel.Toml.Table

/-!
# TOML texts

Values in brackets, entries, headers, and whole texts. `Toml.parse?` reads a text into a table of
settings; a text that is not TOML has none.
-/

namespace IdlModel.Toml

open Text (Parser)
open Text.Parser

/-! ## Values -/

/-- Take items up to a closing bracket, which may follow a comma, at most as many as there is
fuel. -/
def itemsUpTo (item : Parser Setting) : Nat → Parser (List Setting)
  | 0 => failure
  | fuel + 1 => do
    gap
    if (← peek) = some ']' then
      exactly [']']
      pure []
    else
      let v ← item
      gap
      if (← peek) = some ',' then
        exactly [',']
        let vs ← itemsUpTo item fuel
        pure (v :: vs)
      else
        exactly [']']
        pure [v]

/-- Take an array. -/
def array (item : Parser Setting) : Parser Setting := do
  exactly ['[']
  let vs ← itemsUpTo item ((← get).length + 1)
  pure (.list vs)

/-- Take a key path, an equals sign and a value. -/
def entry (value : Parser Setting) : Parser (List String × Setting) := do
  let path ← keyPath
  exactly ['=']
  blanks
  let v ← value
  pure (path, v)

/-- Take the entries of a table in curly brackets up to the closing one, at most as many as there
is fuel. -/
def inlineEntriesUpTo (value : Parser Setting) : Nat → Entries → Parser Entries
  | 0, _ => failure
  | fuel + 1, es => do
    let (path, v) ← entry value
    blanks
    match es.insertDotted .explicit v path with
    | none => failure
    | some es =>
      if (← peek) = some ',' then
        exactly [',']
        inlineEntriesUpTo value fuel es
      else
        exactly ['\x7d']
        pure es

/-- Take a table in curly brackets, which stands on one line. -/
def inlineTable (value : Parser Setting) : Parser Setting := do
  exactly ['\x7b']
  blanks
  if (← peek) = some '\x7d' then
    exactly ['\x7d']
    pure (.table [])
  else
    let es ← inlineEntriesUpTo value ((← get).length + 1) []
    pure (.table (settings es))

/-- Take a value, given the parser of what stands inside its brackets. -/
def valueWith (inner : Parser Setting) : Parser Setting := do
  match ← peek with
  | some '[' => array inner
  | some '\x7b' => inlineTable inner
  | some '"' | some '\'' => Setting.text <$> string
  | _ => scalar

/-- Take a value in which brackets nest only so deep. -/
def value : Nat → Parser Setting
  | 0 => do
    match ← peek with
    | some '[' | some '\x7b' => failure
    | _ => valueWith failure
  | levels + 1 => valueWith (value levels)

/-! ## Lines -/

/-- What has been read of a text: its entries, and the path of the table that is open. -/
structure Progress where
  entries : Entries := []
  header : List String := []

/-- Take a header, from behind its first bracket. -/
def header (p : Progress) : Parser Progress := do
  let array ← startsWith ['[']
  if array then exactly ['[']
  let path ← keyPath
  exactly (if array then [']', ']'] else [']'])
  endOfLine
  match p.entries.openPath array path with
  | some entries => pure { entries, header := path }
  | none => failure

/-- Take a line. -/
def line (p : Progress) : Parser Progress := do
  blanks
  match ← peek with
  | none | some '#' | some '\n' | some '\r' => do
    endOfLine
    pure p
  | some '[' => do
    exactly ['[']
    header p
  | _ => do
    let (path, v) ← entry (value (maxDepth - 1))
    endOfLine
    match p.entries.insertAt p.header path v with
    | some entries => pure { p with entries }
    | none => failure

/-- Take all lines, at most as many as there is fuel. -/
def linesUpTo : Nat → Progress → Parser Progress
  | 0, p => pure p
  | fuel + 1, p => do
    if (← get).isEmpty then pure p
    else
      let p ← line p
      linesUpTo fuel p

/-- The table that a text holds, if it is TOML. A byte order mark in front does not count. -/
def parse? (text : String) : Option (List (String × Setting)) := do
  let cs := match text.toList with
    | '\uFEFF' :: cs => cs
    | cs => cs
  let (p, rest) ← linesUpTo (cs.length + 1) {} cs
  if rest.isEmpty then some (settings p.entries) else none

end IdlModel.Toml
