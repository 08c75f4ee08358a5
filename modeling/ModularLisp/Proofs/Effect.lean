import ModularLisp.Proofs.Moments

/-!
# ModularLisp.Proofs.Effect

**What evaluation can do to the state.** In spite of all its forms there is little: it
binds names in, and exports them from, the scope at hand; it evaluates something in a
scope that it has just made; and it does that while a file is on the list of files being
loaded. `Effect` says so for a relation `K` between the scope at hand, the state before,
the moments on the way and the state after, and `eval_effect` concludes that `K` holds
of every evaluation that ends, whether with a value or with an error.

So a law about the effect of evaluation is an instance of `Effect`, in which each clause
is about one change of the state; no such law goes through the rules of evaluation again.
-/

namespace ModularLisp.Eval

open Files (FileSystem)

/-- A relation that is closed under everything evaluation does to the state. `K s m t m'`
is read: while something was evaluated in the scope `s`, the state went from `m` to `m'`,
and `t` are the moments on the way. -/
structure Effect (K : ScopeId → Machine → List Moment → Machine → Prop) : Prop where
  refl : ∀ s m, K s m [] m
  trans : ∀ {s m₁ t₁ m₂ t₂ m₃}, K s m₁ t₁ m₂ → K s m₂ t₂ m₃ → K s m₁ (t₁ ++ t₂) m₃
  /-- The beginning of an evaluation, unless it is an export. -/
  begins : ∀ e s loads m, (∀ name, e ≠ exportForm name) → K s m [⟨.evaluating e s, loads, m⟩] m
  define : ∀ s m name value, K s m [] { m with store := m.store.define s name value }
  /-- An export is a moment and a change. -/
  exports : ∀ s loads m name,
    K s m [⟨.evaluating (exportForm name) s, loads, m⟩]
      { m with store := m.store.markExported s name }
  /-- What is done in the scope of a call is done, as seen from any scope. -/
  call : ∀ {m params captured arguments t m'} (s : ScopeId),
    K m.store.nextId { m with store := m.store.add (callScope params captured arguments) } t m' →
      K s m t m'
  /-- A file that is put on the list but is no program. -/
  unread : ∀ {m c} s loads path, c ∉ m.loading →
    K s m [⟨.reading path, loads, whileLoading c m⟩] m
  /-- What is done in the root scope of a file is done, as seen from any scope. -/
  load : ∀ {m c t m'} s loads path, c ∉ m.loading →
    K m.store.nextId (fileStart c m) t m' →
      K s m (⟨.reading path, loads, whileLoading c m⟩ :: t) (afterLoading m')

variable {K : ScopeId → Machine → List Moment → Machine → Prop} {ε α β : Type}

/-! ### Runs and their moments -/

/-- Whenever `x` ends, the state has changed as `K` says, on the way of the moments `t`. -/
def Has (K : ScopeId → Machine → List Moment → Machine → Prop) (s : ScopeId) (x : Run ε α)
    (t : Machine → List Moment) : Prop :=
  ∀ m r m', x m = some (r, m') → K s m (t m) m'

namespace Effect

variable (hK : Effect K) {s : ScopeId}

section
include hK

theorem ofExcept (r : Except ε α) : Has K s (Run.ofExcept r) fun _ => [] := by
  intro m r' m' h
  obtain ⟨-, rfl⟩ := Run.outcome_inj h
  exact hK.refl s m

theorem pure (a : α) : Has K s (Pure.pure a : Run ε α) fun _ => [] :=
  hK.ofExcept (.ok a)

theorem fail (e : ε) : Has K s (Run.fail e : Run ε α) fun _ => [] :=
  hK.ofExcept (.error e)

theorem bind {x : Run ε α} {f : α → Run ε β} {t : Machine → List Moment}
    {u : α → Machine → List Moment} (hx : Has K s x t) (hf : ∀ a, Has K s (f a) (u a)) :
    Has K s (x >>= f) fun m => t m ++ x.thenMoments u m := by
  intro m r m' h
  show K s m (t m ++ x.thenMoments u m) m'
  rcases Run.bind_eq_some_iff.mp h with ⟨e, hx', rfl⟩ | ⟨a, m₁, hx', hf'⟩
  · rw [Run.thenMoments_error hx', List.append_nil]
    exact hx _ _ _ hx'
  · rw [Run.thenMoments_ok hx']
    exact hK.trans (hx _ _ _ hx') (hf a _ _ _ hf')

/-- What follows a run without a moment of its own adds none. -/
theorem bind_silent {x : Run ε α} {f : α → Run ε β} {t : Machine → List Moment}
    (hx : Has K s x t) (hf : ∀ a, Has K s (f a) fun _ => []) : Has K s (x >>= f) t := by
  simpa using hK.bind hx hf

end

theorem mapError {δ : Type} {f : ε → δ} {x : Run ε α} {t : Machine → List Moment}
    (hx : Has K s x t) : Has K s (Run.mapError f x) t := by
  intro m r m' h
  obtain ⟨r₀, hx', rfl⟩ := Run.mapError_eq_some_iff.mp h
  exact hx _ _ _ hx'

section
include hK

theorem defineAll (bindings : List (String × Expr)) :
    Has K s (Run.defineAll s bindings : Run ε Unit) fun _ => [] := by
  induction bindings with
  | nil => exact hK.pure ()
  | cons b rest ih =>
      obtain ⟨name, value⟩ := b
      refine hK.bind_silent (f := fun _ => Run.defineAll s rest) ?_ fun _ => ih
      intro m r m' h
      obtain ⟨-, rfl⟩ := Run.outcome_inj h
      exact hK.define s m name value

end

/-! ### The rules of evaluation -/

section

variable {files : FileSystem} {ev : Evaluator} {tr : Tracer}
  (hev : ∀ loads e s, Has K s (ev e s) (tr loads e s)) (loads : List Files.Path)
include hK hev

theorem evalAll (es : List Expr) :
    Has K s (evalAll ev s es) (sequenceMoments ev tr loads s es) := by
  induction es with
  | nil => exact hK.pure []
  | cons e es ih =>
      exact hK.bind (hev loads e s) fun _ => hK.bind_silent ih fun _ => hK.pure _

theorem runForms (forms : List Expr) :
    Has K s (runForms ev s forms) (sequenceMoments ev tr loads s forms) := by
  induction forms with
  | nil => exact hK.pure none
  | cons e es ih =>
      cases es with
      | nil => exact hK.bind (hev loads e s) fun value => hK.pure (some value)
      | cons e' es => exact hK.bind (hev loads e s) fun _ => ih

theorem apply (params : List String) (body : Expr) (captured : ScopeId)
    (arguments : List Expr) : Has K s (apply ev params body captured arguments)
      (applyMoments tr loads params body captured arguments) := by
  unfold Eval.apply applyMoments
  split
  · intro m r m' h
    exact hK.call s (hev loads body _ _ _ _ h)
  · exact hK.fail _

theorem application (head : Expr) (arguments : List Expr) :
    Has K s (application ev head arguments s)
      (applicationMoments ev tr loads head arguments s) := by
  refine hK.bind (hev loads head s) fun value => ?_
  cases value with
  | closure params body captured =>
      exact hK.bind (hK.evalAll hev loads arguments) fun values =>
        hK.apply hev loads params body captured values
  | symbol | number | string | list => exact hK.fail _

theorem evalClauses (whole : String) (index : Nat) (clauses : List Expr) :
    Has K s (evalClauses ev whole s index clauses) (clauseMoments ev tr loads s clauses) := by
  induction clauses generalizing index with
  | nil => exact hK.fail _
  | cons clause rest ih =>
      show Has K s _ fun m => clauseMoments ev tr loads s (clause :: rest) m
      simp only [evalClauses_cons, clauseMoments]
      cases clausePair? clause with
      | none => exact hK.fail _
      | some pair =>
          refine hK.bind (hev loads pair.1 s) fun value => ?_
          by_cases hv : value.isTrue
          · simp only [if_pos hv]
            exact hev loads pair.2 s
          · simp only [if_neg hv]
            exact ih (index + 1)

theorem withProgram (g : ScopeId → Option Expr → α) (path : String) :
    Has K s (withProgram files path (runAs ev g)) (programMoments files ev tr loads path) := by
  intro m r m' h
  unfold programMoments
  cases (withProgram_eq_some_iff files).mp h with
  | lost hc =>
      simp only [hc]
      exact hK.refl s m
  | cycle hc hmem =>
      simp only [hc, if_pos hmem]
      exact hK.refl s m
  | unread hc hmem hforms =>
      simp only [hc, if_neg hmem, hforms]
      exact hK.unread s _ path hmem
  | run hc hmem hforms hrun =>
      simp only [hc, if_neg hmem, hforms]
      exact hK.load s _ path hmem (hK.runForms hev _ _ _ _ _ hrun)

theorem loadProgram (path : String) :
    Has K s (loadProgram files ev path) (programMoments files ev tr loads path) :=
  hK.withProgram hev loads _ path

theorem runFile (path : String) :
    Has K s (runFile files ev path) (programMoments files ev tr loads path) := by
  rw [runFile_eq]
  exact hK.withProgram hev loads _ path

theorem importExports (path : String) :
    Has K s (importExports files ev path) (programMoments files ev tr loads path) := by
  refine hK.bind_silent (hK.loadProgram hev loads path) fun scope => mapError ?_
  intro m r m' h
  obtain ⟨-, rfl⟩ := Run.outcome_inj h
  exact hK.refl s m

theorem evaluateSource (source : String) :
    Has K s (evaluateSource ev source s) (sourceMoments ev tr loads source s) := by
  intro m r m' h
  rw [evaluateSource_apply] at h
  unfold sourceMoments
  cases hp : parse source with
  | error e =>
      simp only [hp] at h
      exact hK.ofExcept _ _ _ _ h
  | ok forms =>
      simp only [hp] at h
      exact mapError (hK.runForms hev loads forms) _ _ _ h

theorem evalDef (arguments : List Expr) : Has K s (evalDef ev arguments s)
    (keywordMoments files ev tr loads .define arguments s) := by
  rcases arguments with _ | ⟨a, _ | ⟨e, _ | ⟨_, _⟩⟩⟩
  · exact hK.fail _
  · cases a <;> exact hK.fail _
  · cases a with
    | symbol name =>
        refine hK.bind_silent (hev loads e s) fun value => hK.bind_silent ?_ fun _ => hK.pure _
        exact hK.defineAll [(name, value)]
    | number | string | list | closure => exact hK.fail _
  · cases a <;> exact hK.fail _

theorem evalImport (arguments : List Expr) : Has K s (evalImport files ev arguments s)
    (keywordMoments files ev tr loads .importing arguments s) := by
  rcases arguments with _ | ⟨a, _ | ⟨_, _⟩⟩
  · exact hK.fail _
  · cases a with
    | string path =>
        refine hK.bind_silent (mapError (hK.importExports hev loads path)) fun bindings => ?_
        exact hK.bind_silent (hK.defineAll bindings) fun _ => hK.pure _
    | symbol | number | list | closure => exact hK.fail _
  · cases a <;> exact hK.fail _

/-- An export is left out: for `Effect` it is one with the beginning of its evaluation. -/
theorem evalKeyword (k : Keyword) (arguments : List Expr)
    (hexport : ∀ name, k = .exporting → arguments ≠ [.symbol name]) :
    Has K s (evalKeyword files ev k arguments s)
      (keywordMoments files ev tr loads k arguments s) := by
  cases k with
  | define => exact hK.evalDef hev loads arguments
  | case => exact hK.evalClauses hev loads _ 0 arguments
  | importing => exact hK.evalImport hev loads arguments
  | function =>
      show Has K s (evalFn arguments s) fun _ => []
      unfold Eval.evalFn
      split
      · split
        · exact hK.pure _
        · exact hK.fail _
      · exact hK.fail _
      · exact hK.fail _
  | literal =>
      show Has K s (evalLiteral arguments) fun _ => []
      unfold evalLiteral
      split
      · exact hK.pure _
      · exact hK.fail _
  | exporting =>
      show Has K s (evalExport arguments s) fun _ => []
      unfold evalExport
      split
      · next name => exact absurd rfl (hexport name rfl)
      · exact hK.fail _
      · exact hK.fail _

theorem step (e : Expr) (hexport : ∀ name, e ≠ exportForm name) :
    Has K s (step files ev e s) (stepMoments files ev tr loads e s) := by
  cases e with
  | symbol name =>
      intro m r m' h
      rcases Run.bind_eq_some_iff.mp h with ⟨_, hl, rfl⟩ | ⟨value?, m₁, hl, hv⟩
      · cases hl
      · obtain ⟨-, rfl⟩ := Run.outcome_inj hl
        cases value? with
        | some value => exact hK.pure value _ _ _ hv
        | none => exact hK.fail _ _ _ _ hv
  | number | string | closure => exact hK.pure _
  | list items =>
      cases items with
      | nil => exact hK.pure _
      | cons head arguments =>
          intro m r m' h
          cases hk : keyword? head with
          | none =>
              rw [step_application files ev hk] at h
              rw [stepMoments_application files ev tr loads hk]
              exact hK.application hev loads head arguments _ _ _ h
          | some k =>
              rw [step_form files ev hk] at h
              rw [stepMoments_form files ev tr loads hk]
              refine hK.evalKeyword hev loads k arguments ?_ _ _ _ h
              intro name hk' hname
              subst hk' hname
              cases head with
              | symbol word =>
                  exact hexport name (by rw [exportForm, Keyword.name_of_ofName? hk])
              | number | string | list | closure => cases hk

end

end Effect

/-- **The effect of evaluation.** A relation that is closed under everything evaluation
does to the state holds of every evaluation that ends. -/
theorem eval_effect (hK : Effect K) (files : FileSystem) (fuel : Nat)
    (loads : List Files.Path) (e : Expr) (s : ScopeId) :
    Has K s (eval files fuel e s) (evalMoments files fuel loads e s) := by
  induction fuel generalizing loads e s with
  | zero => exact fun m r m' h => by cases h
  | succ fuel ih =>
      intro m r m' h
      by_cases hexport : ∃ name, e = exportForm name
      · obtain ⟨name, rfl⟩ := hexport
        obtain ⟨-, rfl⟩ := Run.outcome_inj h
        exact hK.exports s loads m name
      · rw [not_exists] at hexport
        exact hK.trans (hK.begins e s loads m hexport) (hK.step ih loads e hexport _ _ _ h)

end ModularLisp.Eval
