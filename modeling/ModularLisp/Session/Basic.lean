import ModularLisp.CommandLine.Report
import ModularLisp.Eval.Basic
import ModularLisp.Session.Erasing
import ModularLisp.Session.History
import ModularLisp.Text.Blank
import ModularLisp.Text.Lines

/-!
# ModularLisp.Session.Basic

**Sessions**: a sequence of lines, each a program by itself, all run in one scope. The
value of a line is shown before the next line is read, and so is its failure, which
does not end the session. What ends it is the line `.exit` or the end of the input; a
line whose backspaces can not be carried out breaks it off.

The line is what its backspaces leave of it (`Session.Erasing`). It is entered into the
history as it is, but run without the blanks at its ends, so the columns in its error
count from the first character that is not blank.
-/

namespace ModularLisp

open Files (FileSystem)

namespace Session

/-- The state between two lines. -/
structure State where
  machine : Machine
  /-- The scope in which lines are run. -/
  scope : ScopeId
  history : History
  /-- The number of the next line. -/
  line : Nat

/-- How a session stands after a line. -/
inductive Phase
  /-- There may be further lines. -/
  | running
  /-- The session has ended as it should. -/
  | ended
  /-- The session has broken off. -/
  | broken
  deriving DecidableEq, Repr

/-- What a line, or several, led to: the texts shown, and the state after them. -/
structure Reply where
  output : String
  errors : String
  state : State
  phase : Phase

/-- The session that starts with the given history. -/
def State.start (history : History) : State :=
  { machine := { Machine.start with store := Machine.start.store.addPrelude }
    scope := Machine.start.store.nextId
    history := history
    line := 1 }

/-- What asks for the next line, where lines are asked for. -/
def State.prompt (s : State) : String :=
  "flisp (" ++ toString s.line ++ ")> "

/-- What is shown when a session ends. -/
def farewell : String := "Exiting.\n"

/-! ### One line -/

/-- A line without the blanks at its ends. -/
def trimmed (line : String) : String :=
  String.ofList (Text.trim line.toList)

/-- Runs a program in the scope of the session and shows what came of it. -/
def State.run (files : FileSystem) (fuel : Nat) (s : State) (source : String) :
    Option Reply :=
  match Eval.evaluateSource (Eval.eval files fuel) source s.scope s.machine with
  | none => none
  | some (.ok value, m) =>
      some ⟨CommandLine.shown value, "", { s with machine := m }, .running⟩
  | some (.error e, m) =>
      some ⟨"", CommandLine.failureLine e.chain, { s with machine := m }, .running⟩

/-- Takes the next line, in which no backspace is left. -/
def State.takeErased (files : FileSystem) (fuel : Nat) (s : State) (line : String) :
    Option Reply :=
  -- A blank line counts, though it is neither entered nor run.
  let s := { s with line := s.line + 1 }
  let source := trimmed line
  if source = "" then some ⟨"", "", s, .running⟩
  else
    -- The line that ends the session is entered as well.
    let s := { s with history := s.history.add line }
    if source = ".exit" then some ⟨farewell, "", s, .ended⟩
    else s.run files fuel source

/-- Takes the next line as it was entered. -/
def State.take (files : FileSystem) (fuel : Nat) (s : State) (line : String) :
    Option Reply :=
  match erase? line.toList with
  | none => some ⟨"", "", s, .broken⟩
  | some erased => s.takeErased files fuel (String.ofList erased)

/-! ### All lines -/

/-- The lines of an input. -/
def lines (input : String) : List String :=
  (Text.lines '\r' '\n' input.toList).map String.ofList

/-- Takes lines until the session ends. The prompts are part of what is shown if
`prompting` is set. -/
def State.takeAll (files : FileSystem) (fuel : Nat) (prompting : Bool) (s : State) :
    List String → Option Reply
  | [] => some ⟨(if prompting then s.prompt else "") ++ farewell, "", s, .ended⟩
  | line :: rest =>
      match s.take files fuel line with
      | none => none
      | some reply =>
          let output := (if prompting then s.prompt else "") ++ reply.output
          if reply.phase ≠ .running then some { reply with output := output }
          else
            match reply.state.takeAll files fuel prompting rest with
            | none => none
            | some later =>
                some { later with
                  output := output ++ later.output
                  errors := reply.errors ++ later.errors }

end Session

end ModularLisp
