import ModularLisp.Files.Path
import ModularLisp.Store.Basic

/-!
# ModularLisp.Machine

**The state of a run** and the computations on it. The state is the store of scopes and
the canonical paths of the files that are being loaded. Files themselves are no part
of it, because no program can change them.

A computation takes a state and either does not end, or ends with a value or an error
and in *both* cases with a state: what was defined before a failure stays defined.
Not ending is `none`; it is how a computation says that it was given too little fuel
(`Eval.Basic`) and is never the same as an error.
-/

namespace ModularLisp

/-- The state of a run. -/
structure Machine where
  store : Store
  /-- The canonical paths of the files being loaded, outermost first. -/
  loading : List Files.Path

/-- The state in which nothing has been made or loaded. -/
def Machine.start : Machine := ⟨.empty, []⟩

/-- A computation on the state, with values in `α` and errors in `ε`. -/
def Run (ε α : Type) : Type :=
  Machine → Option (Except ε α × Machine)

namespace Run

variable {ε δ α β : Type}

/-! ### Basic computations -/

/-- Ends at once with a value. -/
@[inline] def ok (a : α) : Run ε α := fun m => some (.ok a, m)

/-- Ends at once with an error. -/
@[inline] def fail (e : ε) : Run ε α := fun m => some (.error e, m)

/-- Does not end. -/
@[inline] def stuck : Run ε α := fun _ => none

/-- Runs `x` and, if it gave a value, goes on with that. -/
@[inline] def andThen (x : Run ε α) (f : α → Run ε β) : Run ε β := fun m =>
  match x m with
  | none => none
  | some (.error e, m') => some (.error e, m')
  | some (.ok a, m') => f a m'

instance : Monad (Run ε) where
  pure := ok
  bind := andThen

/-- Runs `x` and rewords its error. -/
@[inline] def mapError (f : ε → δ) (x : Run ε α) : Run δ α := fun m =>
  match x m with
  | none => none
  | some (.error e, m') => some (.error (f e), m')
  | some (.ok a, m') => some (.ok a, m')

/-- A result that does not depend on the state. -/
@[inline] def ofExcept (r : Except ε α) : Run ε α := fun m => some (r, m)

theorem bind_apply (x : Run ε α) (f : α → Run ε β) (m : Machine) :
    (x >>= f) m = match x m with
      | none => none
      | some (.error e, m') => some (.error e, m')
      | some (.ok a, m') => f a m' := rfl

instance : LawfulMonad (Run ε) := LawfulMonad.mk' _
  (fun x => by
    funext m
    change andThen x ok m = x m
    unfold andThen ok
    rcases x m with _ | ⟨_ | _, _⟩ <;> rfl)
  (fun _ _ => rfl)
  (fun x f g => by
    funext m
    change andThen (andThen x f) g m = andThen x (fun a => andThen (f a) g) m
    unfold andThen
    rcases x m with _ | ⟨_ | _, _⟩ <;> rfl)

/-! ### The store -/

/-- The value of a name as seen from a scope, if it has one. -/
@[inline] def lookup (scope : ScopeId) (name : String) : Run ε (Option Expr) := fun m =>
  some (.ok (m.store.lookup scope name), m)

/-- Adds a scope and gives its identity. -/
@[inline] def addScope (s : Scope) : Run ε ScopeId := fun m =>
  some (.ok m.store.nextId, { m with store := m.store.add s })

/-- Adds a root scope with the bindings a program starts with. -/
@[inline] def addPrelude : Run ε ScopeId := fun m =>
  some (.ok m.store.nextId, { m with store := m.store.addPrelude })

/-- Binds a name in a scope. -/
@[inline] def define (scope : ScopeId) (name : String) (value : Expr) : Run ε Unit := fun m =>
  some (.ok (), { m with store := m.store.define scope name value })

/-- Binds each name to the value beside it in a scope, in order. -/
def defineAll (scope : ScopeId) : List (String × Expr) → Run ε Unit
  | [] => ok ()
  | (name, value) :: rest => andThen (define scope name value) fun _ => defineAll scope rest

/-- Marks a name as exported from a scope. -/
@[inline] def markExported (scope : ScopeId) (name : String) : Run ε Unit := fun m =>
  some (.ok (), { m with store := m.store.markExported scope name })

/-- The exported bindings of a scope, or the first exported name that has no value. -/
@[inline] def exportedBindings (scope : ScopeId) : Run String (List (String × Expr)) := fun m =>
  some (m.store.exportedBindings scope, m)

end Run

end ModularLisp
