import IdlModel.Config.Variable
import IdlModel.Host.Files
import IdlModel.Toml.Parser

/-!
# Libraries of the configuration

Where the configuration of a user is, how a file is searched for, what TOML is, what a variable sets
and how a table covers another is left to libraries. `Library` is the part of them that the
configuration is loaded with, and `Library.standard` is what they do.
-/

namespace IdlModel.Config

/-- What the configuration is loaded with. -/
structure Library where
  /-- The directory of a user for configurations, from the environment and the directory that the
  list of accounts has for the user. -/
  directory? : List (String × String) → Option String → Option String
  /-- What is found where a file is searched for by its path. -/
  search : Disk → String → FileEntry
  /-- The table that a text in TOML stands for. -/
  toml? : String → Option (List (String × Setting))
  /-- What is taken from a file that holds a table. -/
  take? : List (String × Setting) → Option (List (String × Setting))
  /-- The path of the key that a variable sets, from its name. -/
  keyPath? : String → Option (List String)
  /-- The value of a variable, from its text. -/
  value : String → Except ConfigError Setting
  /-- A table with another one over it. -/
  join : List (String × Setting) → List (String × Setting) → List (String × Setting)
  /-- A Boolean, from a value and the path of its key. -/
  bool : List String → Setting → Except ConfigError Bool
  /-- One of several words, from a value and the path of its key. -/
  word : List String → List String → Setting → Except ConfigError String

/-- Layers of tables, the lowest first, as one table. -/
def Library.stack (library : Library) (layers : List (List (String × Setting))) :
    List (String × Setting) :=
  layers.foldl library.join []

/-! ## Files -/

/-- The directory that the environment names for configurations, if it does so from the root, or
else one in the directory of the user. -/
def directory? (environment : List (String × String)) (accountHome : Option String) :
    Option String :=
  let named := (environment.lookup "XDG_CONFIG_HOME").filter Path.isAbsolute
  let home := (environment.lookup "HOME").filter (· ≠ "") <|> accountHome.filter (· ≠ "")
  named <|> home.map (Path.join · ".config")

/-- Where a file is searched for: at its path, and if that does not start at the root, in each
directory above the working directory as well, the nearest first. -/
def searchPaths (workingDirectory : Option (List String)) (path : String) : List String :=
  if Path.isAbsolute path then [path]
  else match workingDirectory with
    | none => []
    | some names =>
      path :: (List.range names.length).reverse.map fun n =>
        Path.join (Path.ofNames (names.take n)) path

/-- The first file that is found where a file is searched for. -/
def search (disk : Disk) (path : String) : FileEntry :=
  (((searchPaths disk.workingDirectory path).map disk.lookup).find? FileEntry.isFile).getD .missing

/-! ## Values -/

/-- A Boolean. -/
def toBool (path : List String) : Setting → Except ConfigError Bool
  | .bool b => .ok b
  | _ => .error (.invalidType path)

/-- The key of a table that comes first in the order of keys. -/
def leastKey? : List (String × Setting) → Option String
  | [] => none
  | (k, _) :: entries => match leastKey? entries with
    | none => some k
    | some least => some (if k < least then k else least)

/-- One of several words. A table would have to name it by its first key, but no word has anything
that a table could say. -/
def toWord (words path : List String) : Setting → Except ConfigError String
  | .text word => if word ∈ words then .ok word else .error (.unknownVariant path)
  | .table entries => match leastKey? entries with
    | none => .error (.invalidType path)
    | some key =>
      if key ∈ words then .error (.invalidType (path ++ [key]))
      else .error (.unknownVariant (path ++ [key]))
  | _ => .error (.invalidType path)

/-! ## Together -/

/-- What the libraries do. -/
def Library.standard : Library where
  directory? := Config.directory?
  search := Config.search
  toml? := Toml.parse?
  take? := Setting.unwrapEntries?
  keyPath? := variablePath?
  value := variableValue
  join below layer := Setting.entriesAbove layer below
  bool := toBool
  word := toWord

end IdlModel.Config
