/-!
# The machine

What the program sees of the machine that it runs on: what paths lead to, and the environment. A path
that begins with a slash starts at the root, and any other one in the directory that the program
runs in.
-/

namespace IdlModel

/-- What a path leads to. -/
inductive FileEntry where
  | missing
  | directory
  | file (text : String)
  /-- A file that may not be read, or is no text. -/
  | unreadable
  deriving DecidableEq, Repr, Inhabited

/-- Does the path lead to a file, whether that can be read or not? -/
def FileEntry.isFile : FileEntry → Bool
  | .file _ | .unreadable => true
  | .missing | .directory => false

namespace Path

/-- Does a path start at the root? -/
def isAbsolute (path : String) : Bool :=
  path.toList.head? = some '/'

/-- The path of a name in a directory. A name that starts at the root stays as it is. -/
def join (directory name : String) : String :=
  if isAbsolute name ∨ directory = "" then name
  else if directory.toList.getLast? = some '/' then directory ++ name
  else directory ++ "/" ++ name

/-- The path that names lead along from the root. -/
def ofNames (names : List String) : String :=
  "/" ++ "/".intercalate names

end Path

/-- The files of a machine, seen from the directory that the program runs in. -/
structure Disk where
  /-- What a path leads to. -/
  lookup : String → FileEntry
  /-- The names that lead from the root to that directory; none if they cannot be told. -/
  workingDirectory : Option (List String) := some []

/-- What the program sees of the machine that it runs on. -/
structure Host extends Disk where
  /-- The environment variables and their texts. -/
  environment : List (String × String)
  /-- The directory of the user in the list of accounts. -/
  accountHome : Option String := none

end IdlModel
