import ModularLisp.Error
import ModularLisp.Machine

/-!
# ModularLisp.Eval.Application

**Applying closures.** The rules of evaluation are written over an evaluator for the
expressions inside the one at hand; `Eval.Basic` ties the knot. Nothing here depends
on how those are evaluated.

An application evaluates its head first and has to find a closure before it looks at
the arguments. The arguments are evaluated from left to right in the scope of the
application, and only then counted. The body is evaluated in one new scope, which
holds the arguments and lies inside the scope that the closure captured: the scope of
the application is not around it.
-/

namespace ModularLisp

/-- A way to evaluate an expression in a scope. -/
abbrev Evaluator : Type :=
  Expr → ScopeId → Run EvalError Expr

namespace Eval

variable (ev : Evaluator)

/-- The value of a symbol. -/
def symbolValue (name : String) (scope : ScopeId) : Run EvalError Expr := do
  match ← Run.lookup scope name with
  | some value => pure value
  | none => .fail (.unboundSymbol name)

/-- Evaluates expressions from left to right, up to the first that fails. -/
def evalAll (scope : ScopeId) : List Expr → Run EvalError (List Expr)
  | [] => pure []
  | e :: es => do
      let value ← ev e scope
      let values ← evalAll scope es
      pure (value :: values)

/-- The scope of a call: the parameters bound to the arguments, inside the captured
scope. Of a parameter that is repeated the last argument stays. -/
def callScope (params : List String) (captured : ScopeId) (arguments : List Expr) : Scope :=
  (Scope.empty (some captured)).defineAll (params.zip arguments)

/-- Evaluates the body of a closure in the scope of a call. The arguments are values
and are bound as they are. -/
def apply (params : List String) (body : Expr) (captured : ScopeId)
    (arguments : List Expr) : Run EvalError Expr :=
  if arguments.length = params.length then do
    let scope ← Run.addScope (callScope params captured arguments)
    ev body scope
  else .fail (.arityMismatch params.length arguments.length)

/-- Evaluates a list that is headed by no keyword. -/
def application (head : Expr) (arguments : List Expr) (scope : ScopeId) :
    Run EvalError Expr := do
  match ← ev head scope with
  | .closure params body captured =>
      let values ← evalAll ev scope arguments
      apply ev params body captured values
  | value => .fail (.notCallable head.text value.description)

end Eval

end ModularLisp
