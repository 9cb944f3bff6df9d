import IdlModel.Config.Basic
import IdlModel.Proofs.Config.Tidy

/-!
# What the libraries document

Of the libraries that the configuration is loaded with, only a few things are known
(`Config.Library.Documented`): tables have no key twice, one is put over another key by key, a file
is taken as it is written unless it has reserved keys, and of the values that are asked for nothing
but a Boolean or one of the words will do.
-/

namespace IdlModel

namespace Setting

/-- Is the value a table? -/
def isTable : Setting → Bool
  | .table _ => true
  | _ => false

mutual

/-- Has no table in a value a reserved key? -/
def isUnreserved : Setting → Bool
  | .list items => itemsUnreserved items
  | .table entries =>
    (lookup? valueKey entries).isNone && (lookup? sourceKey entries).isNone &&
      entriesUnreserved entries
  | _ => true

/-- Has no table in one of the items a reserved key? -/
def itemsUnreserved : List Setting → Bool
  | [] => true
  | v :: items => isUnreserved v && itemsUnreserved items

/-- Has no table in one of the values a reserved key? -/
def entriesUnreserved : List (String × Setting) → Bool
  | [] => true
  | (_, v) :: entries => isUnreserved v && entriesUnreserved entries

end

end Setting

namespace Config

open Setting (TidyTable lookup?)

/-- What the libraries document. -/
structure Library.Documented (library : Library) : Prop where
  /-- The directory for configurations does not depend on variables that set a key. -/
  directory?_insert {name text : String} {path : List String} (before after : List (String × String))
    (accountHome : Option String) : library.keyPath? name = some path →
    library.directory? (before ++ (name, text) :: after) accountHome =
      library.directory? (before ++ after) accountHome
  /-- A file is found at its path, if it is known where that starts. -/
  search_of_isFile {disk : Disk} {path : String} : disk.workingDirectory.isSome →
    (disk.lookup path).isFile → library.search disk path = disk.lookup path
  /-- No table in TOML has a key twice. -/
  tidy_of_toml? {text : String} {table : List (String × Setting)} :
    library.toml? text = some table → TidyTable table
  /-- What a file sets is taken as it is if there is no reserved key in it. -/
  take?_of_unreserved {table : List (String × Setting)} :
    Setting.entriesUnreserved table → library.take? table = some table
  /-- No table in a variable has a key twice. -/
  tidy_of_value {text : String} {v : Setting} : library.value text = .ok v → v.Tidy
  /-- Of joined tables none has a key twice. -/
  tidy_join {below layer : List (String × Setting)} :
    TidyTable below → TidyTable layer → TidyTable (library.join below layer)
  /-- What the upper table does not have comes from the lower one. -/
  lookup?_join_of_none {key : String} {below layer : List (String × Setting)} :
    TidyTable layer → lookup? key layer = none →
    lookup? key (library.join below layer) = lookup? key below
  /-- Two tables of one key are joined. -/
  lookup?_join_of_tables {key : String} {below layer under entries : List (String × Setting)} :
    TidyTable layer → lookup? key layer = some (.table entries) →
    lookup? key below = some (.table under) →
    lookup? key (library.join below layer) = some (.table (library.join under entries))
  /-- Any other value takes the place of the one below it. -/
  lookup?_join_of_some {key : String} {below layer : List (String × Setting)} {v : Setting} :
    TidyTable layer → lookup? key layer = some v →
    (v.isTable → ∀ b, lookup? key below = some b → b.isTable = false) →
    lookup? key (library.join below layer) = some v
  /-- A Boolean is asked for, and nothing else will do. -/
  bool_eq_ok_iff {path : List String} {v : Setting} {b : Bool} :
    library.bool path v = .ok b ↔ v = .bool b
  /-- One of the words is asked for, and nothing else will do. -/
  word_eq_ok_iff {words path : List String} {v : Setting} {word : String} :
    library.word words path v = .ok word ↔ v = .text word ∧ word ∈ words

end Config

end IdlModel
