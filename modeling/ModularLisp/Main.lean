import ModularLisp.CommandLine.Basic
import ModularLisp.CommandLine.Needed

/-!
# ModularLisp.Main

**The program.** This layer fetches what a run may need from the outside world, calls
`CommandLine.execute` or takes the lines of a session one by one, and writes what came
of it. It decides nothing else.

Before a program is run, the files it may import are fetched into a file system value,
together with the directories and symbolic links on the way to them.
-/

namespace ModularLisp.Main

open Files (FileSystem Path)

/-! ### Fetching files -/

/-- The canonical path of a place, if there is anything. -/
def realPlace? (path : String) : IO (Option Path) := do
  try
    let real ← IO.FS.realPath path
    return some ((Files.names (toString real)).filter (· ≠ ""))
  catch _ => return none

/-- Fetches the directory or the file at a canonical path. -/
def fetchPlace (fs : FileSystem) (p : Path) : IO FileSystem := do
  match ← realPlace? (Path.text p ++ "/.") with
  | some _ => return fs.place p .directory
  | none =>
    try
      let content ← IO.FS.readBinFile (Path.text p)
      return fs.place p (.file content)
    catch _ => return fs

/-- Fetches what a written path leads through, from `dir` on. -/
def fetchWay (fs : FileSystem) (dir : Path) : List String → IO FileSystem
  | [] => return fs
  | c :: rest => do
    if c = "" ∨ c = "." then fetchWay fs dir rest
    else if c = ".." then fetchWay fs dir.parent rest
    else
      match ← realPlace? (Path.text (dir ++ [c])) with
      | none => return fs
      | some real =>
        let fs ← fetchPlace fs real
        let fs := if real = dir ++ [c] then fs
          else fs.place (dir ++ [c]) (.link (Path.text real))
        fetchWay fs real rest

/-- Fetches what a written path leads through. -/
def fetch (fs : FileSystem) (path : String) : IO FileSystem :=
  fetchWay fs (fs.pathStart path) (Files.names path)

/-- Fetches the files that `pending` names, and those that they name in turn. -/
partial def fetchAll (fs : FileSystem) (seen pending : List String) : IO FileSystem := do
  match pending with
  | [] => return fs
  | path :: rest =>
    if seen.contains path then fetchAll fs seen rest
    else
      let fs ← fetch fs path
      let more := match fs.readText path with
        | .ok text => importedPaths text
        | .error _ => []
      fetchAll fs (path :: seen) (more ++ rest)

/-- The working directory, and the files that the given paths lead to. -/
def snapshot (paths : List String) : IO FileSystem := do
  let cwd := (← realPlace? ".").getD []
  fetchAll (.ofWorkingDirectory cwd) [] paths

/-! ### Running -/

/-- More than any stack holds. -/
def fuel : Nat := 1000000000

/-- The variables that the command line looks at. -/
def watchedVariables : List String := ["HOME", "TERM", "XDG_DATA_HOME", "XDG_CONFIG_HOME"]

/-- The values of those variables that are set. -/
def environment : IO (List (String × String)) :=
  watchedVariables.filterMapM fun name => do
    return (← IO.getEnv name).map fun value => (name, value)

/-- The paths in the `import` forms of a line as it was entered. -/
def lineImports (line : String) : List String :=
  match Session.erase? line.toList with
  | some erased => importedPaths (Session.trimmed (String.ofList erased))
  | none => []

/-- Takes lines until the session ends, each with the files as they are then. -/
partial def session (prompting : Bool) (needed : List String) (s : Session.State) :
    IO (Session.State × Session.Phase) := do
  let stdin ← IO.getStdin
  let stdout ← IO.getStdout
  if prompting then
    stdout.putStr s.prompt
    stdout.flush
  match Session.lines (← stdin.getLine) with
  | [] =>
    stdout.putStr Session.farewell
    return (s, .ended)
  | line :: _ =>
    let needed := lineImports line ++ needed
    match s.take (← snapshot needed) fuel line with
    | none => return (s, .broken)
    | some reply =>
      stdout.putStr reply.output
      stdout.flush
      (← IO.getStderr).putStr reply.errors
      if reply.phase = .running then session prompting needed reply.state
      else return (reply.state, reply.phase)

/-- Keeps the history of a session in its file. -/
def keepHistory (path : String) (h : Session.History) : IO Unit := do
  try
    IO.FS.createDirAll (Path.text (Files.names path).dropLast)
    IO.FS.writeFile path h.fileText
  catch _ => return

/-- Holds a session on the standard streams and gives its status. -/
def interact (keep : Bool) : IO UInt32 := do
  let environment ← environment
  let path := if keep then CommandLine.historyPath environment else none
  let files ← match path with
    | some path => fetch (.ofWorkingDirectory ((← realPlace? ".").getD [])) path
    | none => snapshot []
  let start := Session.State.start (CommandLine.loadHistory files path)
  let (s, phase) ← session (CommandLine.promptsPlainly environment) [] start
  if phase = .broken then return CommandLine.brokenStatus.toUInt32
  match path with
  | some path => if s.history.changed then keepHistory path s.history
  | none => pure ()
  return 0

/-- How the program is used. -/
def usage : String :=
  "Usage: flisp [--log-filter FILTER] run (-e SOURCE | FILE)\n" ++
  "       flisp [--log-filter FILTER] repl [--no-history]\n" ++
  "       flisp (--version | --help)\n"

end ModularLisp.Main

open ModularLisp in
/-- The entry point. -/
def main (arguments : List String) : IO UInt32 := do
  let needed := match CommandLine.Request.ofArguments? arguments with
    | some (.run (.text source)) => importedPaths source
    | some (.run (.file path)) => [path]
    | _ => []
  match CommandLine.Request.ofArguments? arguments with
  | some (.interact keep) => Main.interact keep
  | some .help => do
    (← IO.getStdout).putStr Main.usage
    return 0
  | none => do
    (← IO.getStderr).putStr Main.usage
    return 2
  | some _ => do
    let files ← Main.snapshot needed
    match CommandLine.execute ⟨arguments, "", ← Main.environment, files⟩ Main.fuel with
    | none => return 1
    | some outcome =>
      (← IO.getStdout).putStr outcome.output
      (← IO.getStderr).putStr outcome.errors
      return outcome.status.toUInt32
