import IdlModel.Document.Format

/-!
# The command line

```text
thrifty [OPTIONS] load [OPTIONS] [--name NAME] [--strict] TREE
thrifty [OPTIONS] schema [OPTIONS]

  -f, --format json|raw|summary   -c, --config FILE   -q, --quiet   -v, --verbose
```

Arguments are taken from left to right. An option takes its value from behind an equals sign, from
the rest of a bundle of letters, or from the next argument, which must not look like an option
then. Behind a lone `--` there are no options. Each option may be given once in front of the command
and once behind it, where it counts more.
-/

namespace IdlModel.Command

/-- What one of the two places for options says. -/
structure Options where
  format : Option Format := none
  config : Option String := none
  quiet : Bool := false
  verbose : Bool := false
  name : Option String := none
  strict : Bool := false
  tree : Option String := none
  deriving DecidableEq, Repr

/-- The commands. -/
inductive Verb where
  | load
  | schema
  deriving DecidableEq, Repr

/-- What is to be done. -/
inductive Action where
  /-- Build the document of the syntax tree in a file. -/
  | load (tree : String) (name : Option String) (strict : Bool)
  /-- Print the schema of documents. -/
  | schema
  deriving DecidableEq, Repr

/-- What a command line asks for. -/
structure Request where
  action : Action
  format : Option Format := none
  config : Option String := none
  quiet : Bool := false
  verbose : Bool := false
  deriving DecidableEq, Repr

/-- Why a command line asks for nothing that is to be done. -/
inductive Stop where
  /-- It is not well formed. -/
  | usage
  /-- It asks for the version. -/
  | version
  /-- It asks for help. -/
  | help
  deriving DecidableEq, Repr

/-- An option, by what it sets. -/
inductive Switch where
  | format
  | config
  | name
  | quiet
  | verbose
  | strict
  | version
  | help
  deriving DecidableEq, Repr

namespace Switch

/-- The options in front of a command, or behind it, by their long names. -/
def ofLong? (verb : Option Verb) : String → Option Switch
  | "format" => some .format
  | "config" => some .config
  | "quiet" => some .quiet
  | "verbose" => some .verbose
  | "help" => some .help
  | "version" => if verb = none then some .version else none
  | "name" => if verb = some .load then some .name else none
  | "strict" => if verb = some .load then some .strict else none
  | _ => none

/-- The options in front of a command, or behind it, by their letters. -/
def ofLetter? (verb : Option Verb) : Char → Option Switch
  | 'f' => some .format
  | 'c' => some .config
  | 'q' => some .quiet
  | 'v' => some .verbose
  | 'h' => some .help
  | 'V' => if verb = none then some .version else none
  | _ => none

/-- Does the option take a value? -/
def takesValue : Switch → Bool
  | .format | .config | .name => true
  | _ => false

end Switch

namespace Options

/-- Set a value that must not have been set before. -/
def once {α : Type} : Option α → α → Except Stop (Option α)
  | none, a => .ok (some a)
  | some _, _ => .error .usage

/-- Raise a flag that must not have been raised before. -/
def raise : Bool → Except Stop Bool
  | false => .ok true
  | true => .error .usage

/-- A path, which must not be empty. -/
def path (text : String) : Except Stop String :=
  if text = "" then .error .usage else .ok text

/-- Set an option that takes a value. -/
def setValue (o : Options) (s : Switch) (text : String) : Except Stop Options := do
  match s with
  | .format => match Format.ofName? text with
    | some f => return { o with format := ← once o.format f }
    | none => .error .usage
  | .config => return { o with config := ← once o.config (← path text) }
  | .name => return { o with name := ← once o.name text }
  | _ => .error .usage

/-- Set an option that takes none. -/
def setFlag (o : Options) (s : Switch) : Except Stop Options := do
  match s with
  | .quiet => return { o with quiet := ← raise o.quiet }
  | .verbose => return { o with verbose := ← raise o.verbose }
  | .strict => return { o with strict := ← raise o.strict }
  | .version => .error .version
  | .help => .error .help
  | _ => .error .usage

/-- Set what an argument that is no option stands for. Only `load` has one. -/
def setTree (o : Options) (verb : Option Verb) (text : String) : Except Stop Options := do
  if verb = some .load then return { o with tree := ← once o.tree (← path text) }
  else .error .usage

end Options

/-- Does an argument look like an option? A lone dash does not. -/
def looksLikeOption (arg : String) : Bool :=
  match arg.toList with
  | '-' :: _ :: _ => true
  | _ => false

/-- The name and the value of a long option, without its dashes. -/
def splitLong (cs : List Char) : String × Option String :=
  match cs.dropWhile (· ≠ '=') with
  | '=' :: value => (String.ofList (cs.takeWhile (· ≠ '=')), some (String.ofList value))
  | _ => (String.ofList cs, none)

/-- A bundle of letters sets flags. What is left is an option that takes a value, with the value if
it stands in the bundle. -/
def setBundle (verb : Option Verb) (o : Options) :
    List Char → Except Stop (Options × Option (Switch × Option String))
  | [] => .ok (o, none)
  | c :: cs =>
    match Switch.ofLetter? verb c with
    | none => .error .usage
    | some s =>
      if s.takesValue then
        match cs with
        | [] => .ok (o, some (s, none))
        | '=' :: value => .ok (o, some (s, some (String.ofList value)))
        | value => .ok (o, some (s, some (String.ofList value)))
      else do
        let o ← o.setFlag s
        setBundle verb o cs

/-- One argument that looks like an option. What is left is an option that takes its value from the
next argument. -/
def setArgument (verb : Option Verb) (o : Options) (arg : String) :
    Except Stop (Options × Option Switch) := do
  match arg.toList with
  | '-' :: '-' :: cs =>
    let (name, value?) := splitLong cs
    match Switch.ofLong? verb name with
    | none => .error .usage
    | some s =>
      match s.takesValue, value? with
      | true, some value => return (← o.setValue s value, none)
      | true, none => return (o, some s)
      | false, none => return (← o.setFlag s, none)
      | false, some _ => .error .usage
  | cs =>
    let (o, open?) ← setBundle verb o (cs.drop 1)
    match open? with
    | none => return (o, none)
    | some (s, some value) => return (← o.setValue s value, none)
    | some (s, none) => return (o, some s)

/-- What may stand behind the command `help`: nothing, or one command. -/
def helpTopics : List (List String) :=
  [[], ["load"], ["schema"], ["help"]]

/-- What the arguments up to the next one that is a command set, and the arguments behind that. -/
def scan (verb : Option Verb) : Options → List String →
    Except Stop (Options × Option (Verb × List String))
  | o, [] => .ok (o, none)
  | o, arg :: args =>
    if arg = "--" then do
      let o ← args.foldlM (·.setTree verb ·) o
      return (o, none)
    else if looksLikeOption arg then
      match setArgument verb o arg, args with
      | .error stop, _ => .error stop
      | .ok (o, none), args => scan verb o args
      | .ok (_, some _), [] => .error .usage
      | .ok (o, some s), value :: args =>
        if looksLikeOption value then .error .usage
        else
          match o.setValue s value with
          | .error stop => .error stop
          | .ok o => scan verb o args
    else
      match verb, arg with
      | none, "load" => .ok (o, some (.load, args))
      | none, "schema" => .ok (o, some (.schema, args))
      | none, "help" => .error (if helpTopics.contains args then .help else .usage)
      | verb, arg =>
        match o.setTree verb arg with
        | .error stop => .error stop
        | .ok o => scan verb o args

/-- What the arguments behind the name of the program ask for. -/
def Request.ofArgs (args : List String) : Except Stop Request := do
  match ← scan none {} args with
  | (_, none) => .error .usage
  | (before, some (verb, args)) =>
    let (behind, _) ← scan (some verb) {} args
    let action ← match verb, behind.tree with
      | .load, some tree => .ok (Action.load tree behind.name behind.strict)
      | .load, none => .error .usage
      | .schema, _ => .ok Action.schema
    return {
      action
      format := behind.format <|> before.format
      config := behind.config <|> before.config
      quiet := behind.quiet || before.quiet
      verbose := behind.verbose || before.verbose }

end IdlModel.Command
