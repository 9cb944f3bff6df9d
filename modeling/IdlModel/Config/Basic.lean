import IdlModel.Config.Library
import IdlModel.Document.Format

/-!
# Configuration

The program has two settings: whether fields that nothing takes are refused, and the format of its
output. They come from layers, each of which covers the ones below it: the built-in values, the
file of the user, the file of the project, a file that is asked for, and the environment. What
kinds of values they are is checked only on the result. Every source is read as a whole, so a key of
another name matters if its value cannot be read, or if it is one of those that are reserved in
files (`Setting.valueKey`, `Setting.sourceKey`).
-/

namespace IdlModel

/-- The configuration of the program. -/
structure Config where
  strictFields : Bool := false
  format : Format := .json
  deriving DecidableEq, Repr, Inhabited

namespace Config

/-! ## Sources -/

/-- The file of a project. -/
def projectFile : String := ".thrifty/config.toml"

/-- The file of a user, in the directory for configurations. -/
def userFile? (library : Library) (host : Host) : Option String :=
  (library.directory? host.environment host.accountHome).map fun directory =>
    Path.join (Path.join directory "thrifty") "config.toml"

/-- The settings that a configuration stands for. -/
def toTable (c : Config) : List (String × Setting) :=
  [("loader", .table [("strict_fields", .bool c.strictFields)]),
    ("output", .table [("format", .text c.format.name)])]

/-- What a file sets. Only a file can be wrong; what is none sets nothing. -/
def fileTable (library : Library) : FileEntry → Except ConfigError (List (String × Setting))
  | .file text => match library.toml? text with
    | some table => .ok table
    | none => .error .notToml
  | .unreadable => .error .notToml
  | .missing | .directory => .ok []

/-- What the file of a path sets. It is searched for only if the path leads anywhere. -/
def pathTable (library : Library) (disk : Disk) :
    Option String → Except ConfigError (List (String × Setting))
  | some path =>
    if disk.lookup path = .missing then .ok [] else fileTable library (library.search disk path)
  | none => .ok []

/-- A value inside the tables that a path leads through. -/
def nested : List String → Setting → List (String × Setting)
  | [], _ => []
  | [k], v => [(k, v)]
  | k :: path, v => [(k, .table (nested path v))]

/-- What the variables of an environment set, the later ones over the earlier ones. -/
def environmentTable (library : Library) (environment : List (String × String)) :
    Except ConfigError (List (String × Setting)) := do
  let read := environment.filterMap fun (name, text) => (library.keyPath? name).map (·, text)
  let layers ← read.mapM fun (path, text) => return nested path (← library.value text)
  return library.stack layers

/-- What the sources set, each by itself. -/
structure Sources where
  user : List (String × Setting)
  project : List (String × Setting)
  asked : List (String × Setting)
  environment : List (String × Setting)

/-- The layers from the lowest to the highest. -/
def Sources.layers (s : Sources) : List (List (String × Setting)) :=
  [toTable {}, s.user, s.project, s.asked, s.environment]

/-- The sources on a machine. What is wrong in the environment comes before what is wrong in a
file. -/
def sources (host : Host) (explicit : Option String) (library : Library) :
    Except ConfigError Sources := do
  let environment ← environmentTable library host.environment
  let user ← pathTable library host.toDisk (userFile? library host)
  let project ← pathTable library host.toDisk (some projectFile)
  let asked ← pathTable library host.toDisk explicit
  return { user, project, asked, environment }

/-- The sources with what is taken from the files in place of what is written there. -/
def Sources.taken? (library : Library) (s : Sources) : Option Sources := do
  let user ← library.take? s.user
  let project ← library.take? s.project
  let asked ← library.take? s.asked
  return { s with user, project, asked }

/-! ## Values -/

/-- A format, by its name. -/
def toFormat (library : Library) (path : List String) (v : Setting) : Except ConfigError Format := do
  let word ← library.word (Format.all.map Format.name) path v
  match Format.ofName? word with
  | some f => return f
  | none => throw (.unknownVariant path)

/-- The only value of a section: that of a key in a table, or the first item of a list. -/
def sectionValue {α : Type} (name key : String) (default : α)
    (read : List String → Setting → Except ConfigError α) :
    Option Setting → Except ConfigError α
  | none => .ok default
  | some (.table entries) => match Setting.lookup? key entries with
    | some v => read [name, key] v
    | none => .ok default
  | some (.list []) => .ok default
  | some (.list (v :: _)) => read [name, "0"] v
  | some _ => .error (.invalidType [name])

/-- The configuration that a table describes. -/
def ofTable (library : Library) (table : List (String × Setting)) : Except ConfigError Config := do
  let strictFields ← sectionValue "loader" "strict_fields" false library.bool
    (Setting.lookup? "loader" table)
  let format ← sectionValue "output" "format" .json (toFormat library)
    (Setting.lookup? "output" table)
  return { strictFields, format }

/-- The configuration of sources. -/
def ofSources (library : Library) (s : Sources) : Except ConfigError Config :=
  match s.taken? library with
  | some taken => ofTable library (library.stack taken.layers)
  | none => .error .notToml

/-- The configuration on a machine. A file that is asked for has to exist. -/
def load (host : Host) (explicit : Option String) (library : Library := .standard) :
    Except ConfigError Config := do
  if let some path := explicit then
    if host.lookup path = .missing then throw (.missingFile path)
  ofSources library (← sources host explicit library)

end Config

end IdlModel
