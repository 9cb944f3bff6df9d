import IdlModel.Host.Files
import IdlModel.Load.Builder
import IdlModel.Node.Decode

/-!
# Documents from files

A syntax tree is read from the JSON text of a file, and a document made from it that is named after
the path.
-/

namespace IdlModel

/-- Why there is no syntax tree in a file. -/
inductive TreeError where
  /-- The path does not lead to a file that can be read. -/
  | unreadable (entry : FileEntry)
  /-- The text of the file is not the JSON form of a tree. -/
  | notTree (cause : Json.ReadError)

/-- The text of an error. -/
def TreeError.message : TreeError → String
  | .unreadable .directory => "IO error: Is a directory"
  | .unreadable .missing => "IO error: No such file or directory"
  | .unreadable _ => "IO error: The file is not readable as text"
  | .notTree cause => "Invalid syntax tree JSON: " ++ cause.message

/-- The syntax tree in a file. -/
def Node.ofFile : FileEntry → Except TreeError Node
  | .file text => match Node.ofJsonText text with
    | .ok root => .ok root
    | .error e => .error (.notTree e)
  | entry => .error (.unreadable entry)

/-- Why there is no document for a file. -/
inductive FileError where
  | tree (cause : TreeError)
  | load (cause : LoadError)

/-- The document of the syntax tree at a path, named after the path. -/
def Document.ofPath (settings : LoadSettings) (lookup : String → FileEntry) (path : String) :
    Except FileError Document :=
  match Node.ofFile (lookup path) with
  | .error e => .error (.tree e)
  | .ok root => match Document.ofTree settings path root with
    | .error e => .error (.load e)
    | .ok d => .ok d

end IdlModel
