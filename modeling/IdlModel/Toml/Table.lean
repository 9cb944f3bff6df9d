import IdlModel.Config.Setting

/-!
# TOML: tables under construction

While a TOML text is read, a table has to remember how it came about: a table that a header or a
dotted key merely passes through may be opened later, one that has been opened may not, and a
table made by dotted keys belongs to those alone. `Entry` keeps this apart, and `Entry.setting`
forgets it again.
-/

namespace IdlModel.Toml

/-- How a table came about. -/
inductive Origin where
  /-- By a header of its own, or as the whole text. -/
  | explicit
  /-- By the header of a table inside it. -/
  | passedThrough
  /-- By a dotted key. -/
  | dotted
  deriving DecidableEq, Repr

/-- What a key stands for while the text is read. -/
inductive Entry where
  | value (value : Setting)
  | table (origin : Origin) (entries : List (String × Entry))
  /-- An array of tables, the last one first. -/
  | tables (latest : List (String × Entry)) (earlier : List Setting)

/-- The entries of a table, in the order of their first mention. -/
abbrev Entries := List (String × Entry)

mutual

/-- The value that has been put together. -/
def Entry.setting : Entry → Setting
  | .value v => v
  | .table _ es => .table (settings es)
  | .tables latest earlier => .list (earlier.reverse ++ [.table (settings latest)])

/-- The values that have been put together. -/
def settings : List (String × Entry) → List (String × Setting)
  | [] => []
  | (k, e) :: es => (k, e.setting) :: settings es

end

namespace Entries

/-- The entry of a key. -/
def lookup? (key : String) (es : Entries) : Option Entry :=
  es.lookup key

/-- The entries with the one of a key set; a new key comes last. -/
def set (key : String) (e : Entry) : Entries → Entries
  | [] => [(key, e)]
  | (k, old) :: es => if k = key then (k, e) :: es else (k, old) :: set key e es

/-- The entries after a change inside the table that a path of a header leads to. An array of
tables leads to its last table. -/
def within (change : Entries → Option Entries) : List String → Entries → Option Entries
  | [], es => change es
  | k :: path, es =>
    match lookup? k es with
    | none => do
      let inner ← within change path []
      some (set k (.table .passedThrough inner) es)
    | some (.table origin inner) => do
      let inner ← within change path inner
      some (set k (.table origin inner) es)
    | some (.tables latest earlier) => do
      let latest ← within change path latest
      some (set k (.tables latest earlier) es)
    | some (.value _) => none

/-- The entries with a value at a dotted key. `origin` is how the table that they make up came
about: a value belongs to a table of dotted keys exactly if its key is dotted. -/
def insertDotted (origin : Origin) (v : Setting) : List String → Entries → Option Entries
  | [], _ => none
  | [k], es =>
    if (lookup? k es).isSome ∨ origin = .passedThrough then none else some (set k (.value v) es)
  | k :: path, es =>
    match lookup? k es with
    | none => do
      let inner ← insertDotted .dotted v path []
      some (set k (.table .dotted inner) es)
    | some (.table .explicit _) => none
    | some (.table origin inner) => do
      let inner ← insertDotted origin v path inner
      some (set k (.table origin inner) es)
    | some (.tables latest earlier) => do
      let latest ← insertDotted .passedThrough v path latest
      some (set k (.tables latest earlier) es)
    | some (.value _) => none

/-- Open the table of a key, which may have been passed through before. -/
def openTable (key : String) (es : Entries) : Option Entries :=
  match lookup? key es with
  | none => some (set key (.table .explicit []) es)
  | some (.table .passedThrough inner) => some (set key (.table .explicit inner) es)
  | some _ => none

/-- Open one more table in the array of a key. -/
def openItem (key : String) (es : Entries) : Option Entries :=
  match lookup? key es with
  | none => some (set key (.tables [] []) es)
  | some (.tables latest earlier) =>
    some (set key (.tables [] (.table (settings latest) :: earlier)) es)
  | some _ => none

/-- Open the table, or one more table of the array, that a header names. -/
def openPath (array : Bool) (path : List String) (es : Entries) : Option Entries :=
  match path.getLast? with
  | none => none
  | some key => within (if array then openItem key else openTable key) path.dropLast es

/-- Put a value at a dotted key of the table that a header has opened. -/
def insertAt (header key : List String) (v : Setting) (es : Entries) : Option Entries :=
  within (insertDotted .explicit v key) header es

end Entries

end IdlModel.Toml
