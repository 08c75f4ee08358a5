import ModularLisp.Eval.SpecialForm

/-!
# ModularLisp.Eval.Basic

**Evaluation.** A symbol stands for its value in the scope at hand; numbers, strings,
closures and the empty list stand for themselves; a list headed by a keyword is a
special form, and every other list is an application.

Programs may run for ever, so evaluation is given *fuel*: how deep evaluations may lie
inside one another. Running out of it is not an error but `none`. `step` states the
rules once, over any evaluator for the expressions inside; `eval` applies it as often
as there is fuel.
-/

namespace ModularLisp.Eval

open Files (FileSystem)

variable (files : FileSystem)

/-- The keyword at the head of a list, if there is one. -/
def keyword? : Expr → Option Keyword
  | .symbol name => Keyword.ofName? name
  | _ => none

/-- The rules of evaluation, over an evaluator for the expressions inside. -/
def step (ev : Evaluator) : Evaluator := fun e scope =>
  match e with
  | .symbol name => symbolValue name scope
  | .list [] => pure .empty
  | .list (head :: arguments) =>
      match keyword? head with
      | some k => evalKeyword files ev k arguments scope
      | none => application ev head arguments scope
  | self => pure self

/-- Evaluates an expression in a scope, with evaluations at most `fuel` deep. -/
def eval : Nat → Evaluator
  | 0 => fun _ _ => .stuck
  | fuel + 1 => step files (eval fuel)

theorem eval_succ (fuel : Nat) : eval files (fuel + 1) = step files (eval files fuel) := rfl

end ModularLisp.Eval
