import IdlModel.Command.Run

/-!
# The program

Gathers what a run depends on (the files that it may read, the environment, and who and where the
user is), runs the command, and prints what it comes to.
-/

namespace IdlModel.Command

/-- The paths that a run may read: those of the configuration with the places where they are
searched for, and those among the arguments. -/
def pathsOf (args : List String) (host : Host) : List String :=
  let configs (explicit : Option String) : List String :=
    let paths := (Config.userFile? .standard host).toList ++ [Config.projectFile] ++ explicit.toList
    paths ++ paths.flatMap (Config.searchPaths host.workingDirectory)
  match Request.ofArgs args with
  | .error _ => []
  | .ok r => match r.action with
    | .load tree _ _ => configs r.config ++ [tree]
    | .schema => configs r.config

/-- What a path leads to. A directory cannot be read as a file (error 21), and a path through a
file leads nowhere (error 20). -/
def entryOf (path : String) : IO FileEntry := do
  try
    return .file (← IO.FS.readFile path)
  catch
    | .noFileOrDirectory .. => return .missing
    | .inappropriateType _ code _ => return if code = 21 then .directory else .missing
    | _ => return .unreadable

/-- The environment variables, as the system lists them. -/
def environment : IO (List (String × String)) := do
  try
    let text ← IO.FS.readFile "/proc/self/environ"
    return (text.splitOn "\x00").filterMap fun entry =>
      match entry.splitOn "=" with
      | name :: value => some (name, "=".intercalate value)
      | [] => none
  catch _ => return []

/-- The number of the user in the status of a process. -/
def userOf? (status : String) : Option String :=
  (status.splitOn "\n").findSome? fun line => match line.splitOn "\t" with
    | "Uid:" :: user :: _ => some user
    | _ => none

/-- The directory of a user in the list of accounts. -/
def homeOf? (accounts user : String) : Option String :=
  (accounts.splitOn "\n").findSome? fun line => match line.splitOn ":" with
    | [_, _, number, _, _, home, _] => if number = user then some home else none
    | _ => none

/-- The directory of the user in the list of accounts. -/
def accountHome : IO (Option String) := do
  try
    let status ← IO.FS.readFile "/proc/self/status"
    let accounts ← IO.FS.readFile "/etc/passwd"
    return userOf? status >>= homeOf? accounts
  catch _ => return none

/-- The names that lead from the root to the directory that the program runs in. -/
def workingDirectory : IO (Option (List String)) := do
  try
    let path ← IO.currentDir
    return some ((path.toString.splitOn "/").filter (· ≠ ""))
  catch _ => return none

/-- The machine that the program runs on, as far as a run of it may see. -/
def hostOf (args : List String) : IO Host := do
  let host : Host :=
    { lookup := fun _ => .missing
      workingDirectory := ← workingDirectory
      environment := ← environment
      accountHome := ← accountHome }
  let entries ← (pathsOf args host).mapM fun path => return (path, ← entryOf path)
  return { host with lookup := fun path => (entries.lookup path).getD .missing }

end IdlModel.Command

/-- Run the command that the arguments ask for. -/
def main (args : List String) : IO UInt32 := do
  let outcome := IdlModel.Command.run (← IdlModel.Command.hostOf args) args
  IO.print outcome.stdout
  IO.eprint outcome.stderr
  return outcome.code.toUInt32
