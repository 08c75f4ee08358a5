import ModularLisp.CommandLine.Arguments
import ModularLisp.Files.Edit
import ModularLisp.Session.Basic

/-!
# ModularLisp.CommandLine.Basic

**The command line**: running a text or a file, or holding a session. Everything that
the outside world contributes is in an `Invocation`, and everything that comes of it
in an `Outcome`, so this is a function like any other.

A run shows the value of the last form and has status zero, or reports why it failed
and has status one. A line that makes no sense has status two, and a session that breaks
off has status 101 and leaves the history as it was. The texts that describe the usage
are left to the outer layer.
-/

namespace ModularLisp.CommandLine

open Files (FileSystem)
open Session (History)

/-- What the outside world contributes. -/
structure Invocation where
  arguments : List String
  input : String
  environment : List (String × String)
  files : FileSystem

/-- What comes of it. -/
structure Outcome where
  status : Nat
  output : String
  errors : String
  files : FileSystem

/-! ### Runs -/

/-- Shows the result of a run; `attempt` says what was attempted. -/
def conclude (files : FileSystem) (attempt : String)
    (result : Except ProgramError (Option Expr)) : Outcome :=
  match result with
  | .ok value => ⟨0, shown value, "", files⟩
  | .error e => ⟨1, "", report attempt e.chain, files⟩

/-- Runs a text in a scope of its own, or a file. -/
def runSource (files : FileSystem) (fuel : Nat) (source : Source) : Option Outcome :=
  let ev := Eval.eval files fuel
  match source with
  | .text text =>
      let m := { Machine.start with store := Machine.start.store.addPrelude }
      (Eval.evaluateSource ev text Machine.start.store.nextId m).map fun r =>
        conclude files "Failed to evaluate expression" r.1
  | .file path =>
      (Eval.runFile files ev path Machine.start).map fun r =>
        conclude files ("Failed to run '" ++ path ++ "'") r.1

/-! ### Sessions -/

/-- Terminals that can not edit a line, so that the prompt is plain text on them. -/
def plainTerminals : List String := ["dumb", "cons25", "emacs"]

/-- Are prompts shown although the input is not typed at a terminal? -/
def promptsPlainly (environment : List (String × String)) : Bool :=
  match environment.lookup "TERM" with
  | none => false
  | some name => plainTerminals.contains (String.ofList (name.toList.map Char.toLower))

/-- The directory that the variable `name` names, or else `fallback` in the home. -/
def userDirectory (environment : List (String × String)) (name fallback : String) :
    Option String :=
  match (environment.lookup name).filter Files.isAbsolute with
  | some dir => some dir
  | none =>
      match (environment.lookup "HOME").filter (· ≠ "") with
      | some home => some (home ++ "/" ++ fallback)
      | none => none

/-- Where the history is kept. -/
def historyPath (environment : List (String × String)) : Option String :=
  ((userDirectory environment "XDG_DATA_HOME" ".local/share").or
    (userDirectory environment "XDG_CONFIG_HOME" ".config")).map
      (· ++ "/flisp/history.txt")

/-- The history that is kept at a path. -/
def loadHistory (files : FileSystem) (path : Option String) : History :=
  match path.map files.readBytes with
  | some (.ok content) => History.ofFile content
  | _ => History.empty

/-- Keeps a history, if a line has been entered. -/
def saveHistory (files : FileSystem) (path : Option String) (h : History) : FileSystem :=
  match path with
  | some path => if h.changed then files.write path h.fileText.toUTF8 else files
  | none => files

/-- The status of a session that breaks off. -/
def brokenStatus : Nat := 101

/-- Holds a session over the whole input. -/
def interact (inv : Invocation) (fuel : Nat) (keepHistory : Bool) : Option Outcome :=
  let path := if keepHistory then historyPath inv.environment else none
  let start := Session.State.start (loadHistory inv.files path)
  (start.takeAll inv.files fuel (promptsPlainly inv.environment)
      (Session.lines inv.input)).map fun reply =>
    match reply.phase with
    | .broken => ⟨brokenStatus, reply.output, reply.errors, inv.files⟩
    | _ => ⟨0, reply.output, reply.errors, saveHistory inv.files path reply.state.history⟩

/-! ### The whole -/

/-- The line that answers the question for the version. -/
def versionLine : String := "flisp 0.1.0\n"

/-- What comes of an invocation, with evaluations at most `fuel` deep. -/
def execute (inv : Invocation) (fuel : Nat) : Option Outcome :=
  match Request.ofArguments? inv.arguments with
  | none => some ⟨2, "", "", inv.files⟩
  | some .help => some ⟨0, "", "", inv.files⟩
  | some .version => some ⟨0, versionLine, "", inv.files⟩
  | some (.run source) => runSource inv.files fuel source
  | some (.interact keepHistory) => interact inv fuel keepHistory

end ModularLisp.CommandLine
