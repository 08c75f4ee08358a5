import ModularLisp.Proofs.Ends

/-!
# ModularLisp.Proofs.Moments

**The moments of a run.** Some laws are not about how a run ends but about what happens
on the way: which files are being loaded whenever something is evaluated, or which
names are exported and in what order. This module lists, in order, the evaluations that
a run asks for and the files that it reads, each with the state at that moment.

The lists are computed along the rules of evaluation, over an evaluator `ev` for the
outcomes of the evaluations inside and a `Tracer` for their moments. With some amount
of fuel (`evalMoments`) they are a beginning of the run, and all of it if the run ends
with that much; so what holds of the moments for every amount of fuel holds at every
moment of every run, also of one that never ends.

Nothing is missing from them: evaluators that follow the rules at the moments of a run, and
anywhere else do what they like, come to the same as the run (`FollowsRules.eval_congr`).
-/

namespace ModularLisp

/-- What a run is about to do. -/
inductive Activity
  /-- Evaluate an expression in a scope. -/
  | evaluating (e : Expr) (scope : ScopeId)
  /-- Read the file of a written path, whose canonical path has just been put on the
  list of files being loaded. -/
  | reading (path : String)

/-- One moment of a run. -/
structure Moment where
  activity : Activity
  /-- The canonical paths of the files whose loads have begun in the course of the run
  and are not over, outermost first. -/
  files : List Files.Path
  machine : Machine

/-- A way to list the moments of an evaluation, in the course of which files are already
being loaded. -/
abbrev Tracer : Type :=
  List Files.Path → Expr → ScopeId → Machine → List Moment

namespace Run

variable {ε α : Type}

/-- The moments of what follows a run, if the run gives a value. -/
def thenMoments (x : Run ε α) (next : α → Machine → List Moment) (m : Machine) :
    List Moment :=
  match x m with
  | some (.ok a, m') => next a m'
  | _ => []

theorem thenMoments_ok {x : Run ε α} {m m' : Machine} {a : α} (h : x m = some (.ok a, m'))
    (next : α → Machine → List Moment) : x.thenMoments next m = next a m' := by
  rw [thenMoments, h]

theorem thenMoments_error {x : Run ε α} {m m' : Machine} {e : ε}
    (h : x m = some (.error e, m')) (next : α → Machine → List Moment) :
    x.thenMoments next m = [] := by
  rw [thenMoments, h]

theorem mem_thenMoments {x : Run ε α} {next : α → Machine → List Moment} {m : Machine}
    {mo : Moment} :
    mo ∈ x.thenMoments next m ↔ ∃ a m', x m = some (.ok a, m') ∧ mo ∈ next a m' := by
  unfold thenMoments
  rcases x m with _ | ⟨e | a, m'⟩
  · simp
  · simp
  · refine ⟨fun hmo => ⟨a, m', rfl, hmo⟩, ?_⟩
    intro h
    obtain ⟨a', m'', h, hmo⟩ := h
    obtain ⟨h₁, rfl⟩ := Run.outcome_inj h
    exact Except.ok.inj h₁ ▸ hmo

/-- What follows a run matters only where the run gives a value. -/
theorem thenMoments_congr {x : Run ε α} {next next' : α → Machine → List Moment} {m : Machine}
    (h : ∀ a m', x m = some (.ok a, m') → next a m' = next' a m') :
    x.thenMoments next m = x.thenMoments next' m := by
  unfold thenMoments
  split
  · next hx => exact h _ _ hx
  · rfl

@[simp] theorem thenMoments_nil (x : Run ε α) (m : Machine) :
    x.thenMoments (fun _ _ => []) m = [] := by
  unfold thenMoments
  split <;> rfl

end Run

namespace Eval

open Files (FileSystem)

variable (files : FileSystem) (ev : Evaluator) (tr : Tracer) (loads : List Files.Path)

/-! ### The moments of each operation -/

/-- Expressions that are evaluated from left to right, up to the first that fails. -/
def sequenceMoments (scope : ScopeId) : List Expr → Machine → List Moment
  | [], _ => []
  | e :: es, m =>
      tr loads e scope m ++ (ev e scope).thenMoments (fun _ => sequenceMoments scope es) m

/-- The body of a closure, if there are as many arguments as parameters. -/
def applyMoments (params : List String) (body : Expr) (captured : ScopeId)
    (arguments : List Expr) (m : Machine) : List Moment :=
  if arguments.length = params.length then
    tr loads body m.store.nextId
      { m with store := m.store.add (callScope params captured arguments) }
  else []

/-- The head of an application, the arguments and the body. -/
def applicationMoments (head : Expr) (arguments : List Expr) (scope : ScopeId)
    (m : Machine) : List Moment :=
  tr loads head scope m ++
    (ev head scope).thenMoments (fun value =>
      match value with
      | .closure params body captured => fun m₁ =>
          sequenceMoments ev tr loads scope arguments m₁ ++
            (evalAll ev scope arguments).thenMoments (applyMoments tr loads params body captured)
              m₁
      | _ => fun _ => []) m

/-- Predicates up to the first that is true, and the result beside it. -/
def clauseMoments (scope : ScopeId) : List Expr → Machine → List Moment
  | [], _ => []
  | clause :: rest, m =>
      match clausePair? clause with
      | some (predicate, result) =>
          tr loads predicate scope m ++
            (ev predicate scope).thenMoments (fun value =>
              if value.isTrue then tr loads result scope else clauseMoments scope rest) m
      | none => []

/-- The reading of a file and, if it is a program, its forms in a root scope of its own. -/
def programMoments (path : String) (m : Machine) : List Moment :=
  match files.canonical? path with
  | .error _ => []
  | .ok c =>
      if c ∈ m.loading then []
      else
        ⟨.reading path, loads ++ [c], whileLoading c m⟩ ::
          match fileForms files path with
          | .error _ => []
          | .ok forms =>
              sequenceMoments ev tr (loads ++ [c]) m.store.nextId forms (fileStart c m)

/-- The forms of a text, if it is a program. -/
def sourceMoments (source : String) (scope : ScopeId) (m : Machine) : List Moment :=
  match parse source with
  | .error _ => []
  | .ok forms => sequenceMoments ev tr loads scope forms m

/-- The form of a keyword. Only three of them evaluate anything. -/
def keywordMoments (k : Keyword) (arguments : List Expr) (scope : ScopeId) (m : Machine) :
    List Moment :=
  match k, arguments with
  | .define, [.symbol _, e] => tr loads e scope m
  | .case, clauses => clauseMoments ev tr loads scope clauses m
  | .importing, [.string path] => programMoments files ev tr loads path m
  | _, _ => []

/-- What an evaluation asks for. -/
def stepMoments (e : Expr) (scope : ScopeId) (m : Machine) : List Moment :=
  match e with
  | .list (head :: arguments) =>
      match keyword? head with
      | some k => keywordMoments files ev tr loads k arguments scope m
      | none => applicationMoments ev tr loads head arguments scope m
  | _ => []

theorem stepMoments_form {head : Expr} {k : Keyword} (h : keyword? head = some k)
    (arguments : List Expr) (scope : ScopeId) (m : Machine) :
    stepMoments files ev tr loads (.list (head :: arguments)) scope m =
      keywordMoments files ev tr loads k arguments scope m := by
  simp only [stepMoments, h]

theorem stepMoments_application {head : Expr} (h : keyword? head = none)
    (arguments : List Expr) (scope : ScopeId) (m : Machine) :
    stepMoments files ev tr loads (.list (head :: arguments)) scope m =
      applicationMoments ev tr loads head arguments scope m := by
  simp only [stepMoments, h]

/-- The moments of an evaluation, with evaluations at most `fuel` deep: its beginning,
and those of the evaluations it asks for. -/
def evalMoments : Nat → Tracer
  | 0, _, _, _, _ => []
  | fuel + 1, loads, e, scope, m =>
      ⟨.evaluating e scope, loads, m⟩ ::
        stepMoments files (eval files fuel) (evalMoments fuel) loads e scope m

/-! ### Nothing is missing -/

/-- Two evaluators that do the same at every evaluation whose moments are all on the list
`t`. -/
def AgreeOn (tr : Tracer) (t : List Moment) (ev ev' : Evaluator) : Prop :=
  ∀ loads e scope m, tr loads e scope m ⊆ t → ev e scope m = ev' e scope m

/-- A sequence of two runs comes to the same if the first one does, and the second one does
after it; here `t₀` are the moments of the first one. -/
theorem bind_congr_of_subset {ε α β : Type} {x x' : Run ε α} {f f' : α → Run ε β}
    {u : α → Machine → List Moment} {t₀ t : List Moment} {m : Machine}
    (h : t₀ ++ x.thenMoments u m ⊆ t) (hx : t₀ ⊆ t → x m = x' m)
    (hf : ∀ a m₁, u a m₁ ⊆ t → f a m₁ = f' a m₁) : (x >>= f) m = (x' >>= f') m := by
  obtain ⟨h₀, h₁⟩ := List.append_subset.mp h
  rw [Run.bind_apply, Run.bind_apply, ← hx h₀]
  rcases hxm : x m with _ | ⟨e | a, m₁⟩
  · rfl
  · rfl
  · rw [Run.thenMoments_ok hxm] at h₁
    exact hf a m₁ h₁

section

variable {files ev tr loads} {ev' : Evaluator} {t : List Moment} (hev : AgreeOn tr t ev ev')
include hev

theorem evalAll_congr (scope : ScopeId) (es : List Expr) {m : Machine}
    (h : sequenceMoments ev tr loads scope es m ⊆ t) :
    evalAll ev scope es m = evalAll ev' scope es m := by
  induction es generalizing m with
  | nil => rfl
  | cons e es ih =>
      refine bind_congr_of_subset h (hev loads e scope m) fun value m₁ h₁ => ?_
      simp only [Run.bind_apply, ih h₁]

theorem runForms_congr (scope : ScopeId) (forms : List Expr) {m : Machine}
    (h : sequenceMoments ev tr loads scope forms m ⊆ t) :
    runForms ev scope forms m = runForms ev' scope forms m := by
  induction forms generalizing m with
  | nil => rfl
  | cons e es ih =>
      have hfirst := hev loads e scope m
      cases es with
      | nil => exact bind_congr_of_subset h hfirst fun _ _ _ => rfl
      | cons e' es => exact bind_congr_of_subset h hfirst fun _ _ h₁ => ih h₁

theorem apply_congr (params : List String) (body : Expr) (captured : ScopeId)
    (arguments : List Expr) {m : Machine}
    (h : applyMoments tr loads params body captured arguments m ⊆ t) :
    apply ev params body captured arguments m = apply ev' params body captured arguments m := by
  unfold apply
  unfold applyMoments at h
  by_cases hlen : arguments.length = params.length
  · rw [if_pos hlen] at h ⊢
    rw [if_pos hlen]
    exact hev loads body _ _ h
  · rw [if_neg hlen, if_neg hlen]

theorem application_congr (head : Expr) (arguments : List Expr) (scope : ScopeId) {m : Machine}
    (h : applicationMoments ev tr loads head arguments scope m ⊆ t) :
    application ev head arguments scope m = application ev' head arguments scope m := by
  refine bind_congr_of_subset h (hev loads head scope m) fun value m₁ h₁ => ?_
  cases value with
  | closure params body captured =>
      exact bind_congr_of_subset h₁ (evalAll_congr hev scope arguments) fun values _ h₂ =>
        apply_congr hev params body captured values h₂
  | symbol | number | string | list => rfl

theorem evalClauses_congr (whole : String) (scope : ScopeId) (index : Nat)
    (clauses : List Expr) {m : Machine}
    (h : clauseMoments ev tr loads scope clauses m ⊆ t) :
    evalClauses ev whole scope index clauses m = evalClauses ev' whole scope index clauses m := by
  induction clauses generalizing index m with
  | nil => rfl
  | cons clause rest ih =>
      simp only [evalClauses_cons]
      unfold clauseMoments at h
      cases hp : clausePair? clause with
      | none => rfl
      | some pair =>
          simp only [hp] at h
          refine bind_congr_of_subset h (hev loads pair.1 scope m) fun value m₁ h₁ => ?_
          by_cases hv : value.isTrue
          · rw [if_pos hv] at h₁
            rw [if_pos hv, if_pos hv]
            exact hev loads pair.2 scope m₁ h₁
          · rw [if_neg hv] at h₁
            rw [if_neg hv, if_neg hv]
            exact ih (index + 1) h₁

theorem withProgram_congr {α : Type} (g : ScopeId → Option Expr → α) (path : String)
    {m : Machine} (h : programMoments files ev tr loads path m ⊆ t) :
    withProgram files path (runAs ev g) m = withProgram files path (runAs ev' g) m := by
  rw [withProgram_runAs_apply, withProgram_runAs_apply]
  unfold programMoments at h
  cases hc : files.canonical? path with
  | error e => rfl
  | ok c =>
      simp only [hc] at h ⊢
      by_cases hmem : c ∈ m.loading
      · rw [if_pos hmem, if_pos hmem]
      rw [if_neg hmem] at h
      rw [if_neg hmem, if_neg hmem]
      cases hf : fileForms files path with
      | error e => rfl
      | ok forms =>
          simp only [hf] at h ⊢
          rw [runForms_congr hev _ forms (List.cons_subset.mp h).2]

theorem importExports_congr (path : String) {m : Machine}
    (h : programMoments files ev tr loads path m ⊆ t) :
    importExports files ev path m = importExports files ev' path m := by
  simp only [importExports, loadProgram_eq, Run.bind_apply, withProgram_congr hev _ path h]

theorem evaluateSource_congr (source : String) (scope : ScopeId) {m : Machine}
    (h : sourceMoments ev tr loads source scope m ⊆ t) :
    evaluateSource ev source scope m = evaluateSource ev' source scope m := by
  rw [evaluateSource_apply, evaluateSource_apply]
  unfold sourceMoments at h
  cases hp : parse source with
  | error e => rfl
  | ok forms =>
      simp only [hp] at h
      simp only [Run.mapError, runForms_congr hev scope forms h]

/-- What an evaluation comes to depends on the evaluations inside only as far as their
moments are on its list. -/
theorem step_congr (e : Expr) (scope : ScopeId) {m : Machine}
    (h : stepMoments files ev tr loads e scope m ⊆ t) :
    step files ev e scope m = step files ev' e scope m := by
  unfold step
  unfold stepMoments at h
  cases e with
  | symbol | number | string | closure => rfl
  | list items =>
      cases items with
      | nil => rfl
      | cons head arguments =>
          simp only at h ⊢
          cases hk : keyword? head with
          | none =>
              simp only [hk] at h ⊢
              exact application_congr hev head arguments scope h
          | some k =>
              simp only [hk] at h ⊢
              cases k with
              | function | literal | exporting => rfl
              | case => exact evalClauses_congr hev _ scope 0 arguments h
              | define =>
                  simp only [evalKeyword, evalDef]
                  split
                  · next e => simp only [Run.bind_apply, hev loads e scope m h]
                  · rfl
                  · rfl
              | importing =>
                  simp only [evalKeyword, evalImport]
                  split
                  · simp only [Run.bind_apply, Run.mapError, importExports_congr hev _ h]
                  · rfl

end

/-- Evaluators, one for each amount of fuel, that follow the rules of evaluation at the
moments of the list `t`. They may do anything elsewhere. -/
structure FollowsRules (files : FileSystem) (t : List Moment) (evs : Nat → Evaluator) : Prop where
  zero : evs 0 = eval files 0
  succ : ∀ fuel e scope loads m, ⟨.evaluating e scope, loads, m⟩ ∈ t →
    evs (fuel + 1) e scope m = step files (evs fuel) e scope m

/-- **Nothing is missing.** Evaluators that follow the rules at the moments of an evaluation
come to the same as evaluation, and if that does not end, they do not either: there are no
other moments at which the run would notice what they do. -/
theorem FollowsRules.eval_congr {files : FileSystem} {t : List Moment} {evs : Nat → Evaluator}
    (hevs : FollowsRules files t evs) (fuel : Nat) :
    AgreeOn (evalMoments files fuel) t (eval files fuel) (evs fuel) := by
  induction fuel with
  | zero => exact fun loads e scope m _ => by rw [hevs.zero]
  | succ fuel ih =>
      intro loads e scope m h
      obtain ⟨hmo, hinside⟩ := List.cons_subset.mp h
      rw [eval_succ, hevs.succ fuel e scope loads m hmo]
      exact step_congr ih e scope hinside

end Eval

end ModularLisp
