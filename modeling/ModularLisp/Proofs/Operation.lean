import ModularLisp.Proofs.Effect

/-!
# ModularLisp.Proofs.Operation

**Operations and courses of them.** Between two moments of a program's life anything may
happen that the interpreter offers: scopes are made, names are bound in them and
exported from them, expressions and texts are evaluated, closures applied and files
loaded. An `Operation` is one such thing, and a `Course` is a sequence of them that have
all ended, in whatever way.

Some operations work in a scope that is there already (`Operation.scope?`); the others
make the scopes they work in.
-/

namespace ModularLisp

open Files (FileSystem)

namespace Run

variable {ε α : Type}

/-- The state that a run leaves, whatever its result is. -/
def after (x : Run ε α) (m : Machine) : Option Machine :=
  (x m).map Prod.snd

theorem after_eq_some_iff {x : Run ε α} {m m' : Machine} :
    x.after m = some m' ↔ ∃ r, x m = some (r, m') := by
  simp [after]

end Run

/-- What holds whenever a run ends holds of the state that it leaves. -/
theorem Eval.Has.of_after {K : ScopeId → Machine → List Moment → Machine → Prop} {s : ScopeId}
    {ε α : Type} {x : Run ε α} {t : Machine → List Moment} (hx : Eval.Has K s x t)
    {m m' : Machine} (h : x.after m = some m') : K s m (t m) m' := by
  obtain ⟨r, hr⟩ := Run.after_eq_some_iff.mp h
  exact hx m r m' hr

/-- What may be done with a state. -/
inductive Operation
  /-- Add a root scope without bindings. -/
  | newRoot
  /-- Add a root scope with the bindings a program starts with. -/
  | newProgram
  /-- Add a scope inside another. -/
  | enclose (outer : ScopeId)
  | define (scope : ScopeId) (name : String) (value : Expr)
  | markExported (scope : ScopeId) (name : String)
  | eval (e : Expr) (scope : ScopeId)
  | apply (params : List String) (body : Expr) (captured : ScopeId) (arguments : List Expr)
  | runForms (forms : List Expr) (scope : ScopeId)
  | evaluateSource (source : String) (scope : ScopeId)
  | loadProgram (path : String)
  | runFile (path : String)
  | importExports (path : String)

namespace Operation

variable (files : FileSystem) (ev : Evaluator)

/-- The state that an operation leaves, if it ends. -/
def after (o : Operation) (m : Machine) : Option Machine :=
  match o with
  | newRoot => some { m with store := m.store.addEmpty none }
  | newProgram => some { m with store := m.store.addPrelude }
  | enclose outer => some { m with store := m.store.addEmpty (some outer) }
  | define scope name value => some { m with store := m.store.define scope name value }
  | markExported scope name => some { m with store := m.store.markExported scope name }
  | eval e scope => (ev e scope).after m
  | apply params body captured arguments => (Eval.apply ev params body captured arguments).after m
  | runForms forms scope => (Eval.runForms ev scope forms).after m
  | evaluateSource source scope => (Eval.evaluateSource ev source scope).after m
  | loadProgram path => (Eval.loadProgram files ev path).after m
  | runFile path => (Eval.runFile files ev path).after m
  | importExports path => (Eval.importExports files ev path).after m

/-- Two evaluators make no difference to an operation: over both it does not end, or ends with
the same result and in the same state. -/
def SameOver (ev' : Evaluator) (o : Operation) (m : Machine) : Prop :=
  match o with
  | eval e scope => ev e scope m = ev' e scope m
  | apply params body captured arguments =>
      Eval.apply ev params body captured arguments m =
        Eval.apply ev' params body captured arguments m
  | runForms forms scope => Eval.runForms ev scope forms m = Eval.runForms ev' scope forms m
  | evaluateSource source scope =>
      Eval.evaluateSource ev source scope m = Eval.evaluateSource ev' source scope m
  | loadProgram path => Eval.loadProgram files ev path m = Eval.loadProgram files ev' path m
  | runFile path => Eval.runFile files ev path m = Eval.runFile files ev' path m
  | importExports path => Eval.importExports files ev path m = Eval.importExports files ev' path m
  | newRoot | newProgram | enclose _ | define .. | markExported .. => True

/-- The moments of an operation, over those of evaluation. -/
def moments (tr : Tracer) (o : Operation) (m : Machine) : List Moment :=
  match o with
  | eval e scope => tr [] e scope m
  | apply params body captured arguments => Eval.applyMoments tr [] params body captured arguments m
  | runForms forms scope => Eval.sequenceMoments ev tr [] scope forms m
  | evaluateSource source scope => Eval.sourceMoments ev tr [] source scope m
  | loadProgram path | runFile path | importExports path =>
      Eval.programMoments files ev tr [] path m
  | newRoot | newProgram | enclose _ | define .. | markExported .. => []

/-- The operation `o`, started in `m`, ends and leaves the state `m'`. -/
def Leads (o : Operation) (m m' : Machine) : Prop :=
  ∃ fuel, o.after files (Eval.eval files fuel) m = some m'

/-- The scope that an operation works in, if that is one that is there already. -/
def scope? : Operation → Option ScopeId
  | define scope _ _ | markExported scope _ | eval _ scope | runForms _ scope
  | evaluateSource _ scope => some scope
  | newRoot | newProgram | enclose _ | apply .. | loadProgram _ | runFile _
  | importExports _ => none

/-- Does an operation evaluate something, rather than change a scope directly? -/
def Runs : Operation → Prop
  | newRoot | newProgram | enclose _ | define .. | markExported .. => False
  | eval .. | apply .. | runForms .. | evaluateSource .. | loadProgram _ | runFile _
  | importExports _ => True

variable {files}

/-- A relation that is closed under everything evaluation does holds of every operation
that evaluates something, for the scope it works in or, if it works in none that was
there, for every scope. -/
theorem effect {K : ScopeId → Machine → List Moment → Machine → Prop} (hK : Eval.Effect K)
    {o : Operation} (hruns : o.Runs) {s : ScopeId} (hs : ∀ i, o.scope? = some i → s = i)
    {fuel : Nat} {m m' : Machine} (h : o.after files (Eval.eval files fuel) m = some m') :
    K s m (o.moments files (Eval.eval files fuel) (Eval.evalMoments files fuel) m) m' := by
  have hev := fun loads e s => Eval.eval_effect hK files fuel loads e s
  cases o with
  | newRoot | newProgram | enclose | define | markExported => exact absurd hruns id
  | eval e scope =>
      obtain rfl := hs scope rfl
      exact (hev [] e s).of_after h
  | apply params body captured arguments =>
      exact (hK.apply hev [] params body captured arguments).of_after h
  | runForms forms scope =>
      obtain rfl := hs scope rfl
      exact (hK.runForms hev [] forms).of_after h
  | evaluateSource source scope =>
      obtain rfl := hs scope rfl
      exact (hK.evaluateSource hev [] source).of_after h
  | loadProgram path => exact (hK.loadProgram hev [] path).of_after h
  | runFile path => exact (hK.runFile hev [] path).of_after h
  | importExports path => exact (hK.importExports hev [] path).of_after h

/-- Nothing is missing from the moments of an operation either. -/
theorem sameOver (o : Operation) {evs : Nat → Evaluator} {fuel : Nat} {m : Machine}
    (hevs : Eval.FollowsRules files
      (o.moments files (Eval.eval files fuel) (Eval.evalMoments files fuel) m) evs) :
    o.SameOver files (Eval.eval files fuel) (evs fuel) m := by
  have hev := hevs.eval_congr fuel
  cases o with
  | newRoot | newProgram | enclose | define | markExported => trivial
  | eval e scope => exact hev [] e scope m (List.Subset.refl _)
  | apply params body captured arguments =>
      exact Eval.apply_congr hev params body captured arguments (List.Subset.refl _)
  | runForms forms scope => exact Eval.runForms_congr hev scope forms (List.Subset.refl _)
  | evaluateSource source scope =>
      exact Eval.evaluateSource_congr hev source scope (List.Subset.refl _)
  | loadProgram path => exact Eval.withProgram_congr hev _ path (List.Subset.refl _)
  | runFile path =>
      simp only [SameOver, Eval.runFile_eq]
      exact Eval.withProgram_congr hev _ path (List.Subset.refl _)
  | importExports path => exact Eval.importExports_congr hev path (List.Subset.refl _)

end Operation

/-- The operations `os`, one after the other, lead from `m` to `m'`. -/
inductive Course (files : FileSystem) : List Operation → Machine → Machine → Prop
  | nil (m : Machine) : Course files [] m m
  | cons {o : Operation} {os : List Operation} {m m₁ m' : Machine} :
      o.Leads files m m₁ → Course files os m₁ m' → Course files (o :: os) m m'

end ModularLisp
