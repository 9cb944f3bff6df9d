import IdlModel.Command.Args
import IdlModel.Config.Basic
import IdlModel.Document.Schema
import IdlModel.Load.File

/-!
# Running a command

What the program prints and how it exits, as a function of its arguments and of what it sees of the
machine. A command that is refused prints nothing to standard output.
-/

namespace IdlModel.Command

/-- What a run of the program comes to. -/
structure Outcome where
  code : Nat
  stdout : String := ""
  stderr : String := ""
  deriving DecidableEq, Repr

/-- Why a command has failed. -/
inductive Failure where
  /-- There is no configuration. -/
  | config (cause : ConfigError)
  /-- There is no syntax tree at the path. -/
  | tree (path : String) (cause : TreeError)
  /-- The syntax tree at the path has no document. -/
  | load (path : String) (cause : LoadError)

/-- The text of a failure: what was attempted, and the cause. -/
def Failure.message : Failure → String
  | .config cause => "failed to load thrifty configuration: " ++ cause.message
  | .tree path cause => "failed to read syntax tree " ++ path ++ ": " ++ cause.message
  | .load path cause => "failed to build model from " ++ path ++ ": " ++ cause.message

/-- The exit code of a failure: a text of the environment that cannot be cut has one of its own. -/
def Failure.code : Failure → Nat
  | .config .cutCharacter => 101
  | _ => 1

/-- The document that `load` prints. Its name is the path unless another one is given. -/
def loadDocument (host : Host) (config : Config) (tree : String) (name : Option String)
    (strict : Bool) : Except Failure Document :=
  match Node.ofFile (host.lookup tree) with
  | .error e => .error (.tree tree e)
  | .ok root =>
    let settings : LoadSettings := { strictFields := strict || config.strictFields }
    match Document.ofTree settings (name.getD tree) root with
    | .error e => .error (.load tree e)
    | .ok d => .ok d

/-- What a request prints. -/
def Request.output (host : Host) (r : Request) : Except Failure String := do
  let config ← match Config.load host r.config with
    | .error e => .error (.config e)
    | .ok config => .ok config
  match r.action with
  | .schema => return Document.schema.pretty ++ "\n"
  | .load tree name strict =>
    let d ← loadDocument host config tree name strict
    return Text.trimmedEnd (d.render (r.format.getD config.format)) ++ "\n"

/-- The version of the program. -/
def version : String := "thrifty 0.1.0"

/-- How the program is called. -/
def usage : String :=
  "Usage: thrifty [OPTIONS] <COMMAND>\n\n" ++
  "Commands:\n" ++
  "  load <TREE> [--name <NAME>] [--strict]  Build the document model from a syntax tree\n" ++
  "  schema                                  Print the JSON Schema of the document model\n\n" ++
  "Options:\n" ++
  "  -f, --format <FORMAT>  json, raw or summary\n" ++
  "  -c, --config <CONFIG>  Extra config file\n" ++
  "  -q, --quiet            Errors only\n" ++
  "  -v, --verbose          Debug logging\n" ++
  "  -h, --help             Print help\n" ++
  "  -V, --version          Print version\n"

/-- What the program does with the arguments behind its name. -/
def run (host : Host) (args : List String) : Outcome :=
  match Request.ofArgs args with
  | .error .version => { code := 0, stdout := version ++ "\n" }
  | .error .help => { code := 0, stdout := usage }
  | .error .usage => { code := 2, stderr := usage }
  | .ok r => match r.output host with
    | .ok text => { code := 0, stdout := text }
    | .error e => { code := e.code, stderr := "thrifty error: " ++ e.message ++ "\n" }

end IdlModel.Command
