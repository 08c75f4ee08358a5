import ModularLisp.Eval.Application

/-!
# ModularLisp.Eval.Program

**Running programs.** A program is a sequence of forms that are evaluated in order in
one scope, up to the first that fails. A file is run as a program of its own, in a root
scope of its own; importing it means running it and taking the bindings it exports.

While a file is read and run, its canonical path is on the list of files being loaded,
and a file that is on the list is not loaded again: that would never end. The path
is taken off when the run is over, however it ended (`loading`).
-/

namespace ModularLisp.Eval

open Files (FileSystem)

variable (files : FileSystem) (ev : Evaluator)

/-! ### Forms -/

/-- Evaluates forms in order and gives the value of the last one, if there is one. -/
def runForms (scope : ScopeId) : List Expr → Run EvalError (Option Expr)
  | [] => pure none
  | [e] => do
      let value ← ev e scope
      pure (some value)
  | e :: es => do
      let _ ← ev e scope
      runForms scope es

/-- Runs forms as a program of its own and gives its root scope. -/
def runProgram (forms : List Expr) : Run EvalError ScopeId := do
  let scope ← Run.addPrelude
  let _ ← runForms ev scope forms
  pure scope

/-- Reads a text as a program and runs it in an existing scope. Nothing is evaluated if
the text is no program. -/
def evaluateSource (source : String) (scope : ScopeId) : Run ProgramError (Option Expr) := do
  let forms ← Run.mapError .parse (.ofExcept (parse source))
  Run.mapError .eval (runForms ev scope forms)

/-! ### Files -/

/-- Does `body` with `path` on the list of files being loaded. -/
def loading {α : Type} (path : Files.Path) (body : Run ProgramError α) : Run ProgramError α :=
  fun m =>
    if path ∈ m.loading then some (.error (.cycle (Files.Path.text path)), m)
    else
      match body { m with loading := m.loading ++ [path] } with
      | none => none
      -- Loads within `body` have taken off their own paths, so `path` is the last again.
      | some (r, m') => some (r, { m' with loading := m'.loading.dropLast })

/-- Reads the file that a written path leads to as a program, and does `body` with its
forms, all of it while that file counts as being loaded. -/
def withProgram {α : Type} (path : String) (body : List Expr → Run EvalError α) :
    Run ProgramError α := do
  let canonical ← Run.mapError .io (.ofExcept (files.canonical? path))
  -- A cycle is noticed before the file is read once more.
  loading canonical do
    let source ← Run.mapError .io (.ofExcept (files.readText path))
    let forms ← Run.mapError .parse (.ofExcept (parse source))
    Run.mapError .eval (body forms)

/-- Runs a file as a program of its own and gives its root scope. -/
def loadProgram (path : String) : Run ProgramError ScopeId :=
  withProgram files path (runProgram ev)

/-- Runs a file as the main program and gives the value of its last form. -/
def runFile (path : String) : Run ProgramError (Option Expr) :=
  withProgram files path fun forms => do
    let scope ← Run.addPrelude
    runForms ev scope forms

/-- Runs a file and gives the bindings it exports, as they are after its last form. -/
def importExports (path : String) : Run ProgramError (List (String × Expr)) := do
  let scope ← loadProgram files ev path
  Run.mapError (fun name => .eval (.unboundSymbol name)) (Run.exportedBindings scope)

end ModularLisp.Eval
