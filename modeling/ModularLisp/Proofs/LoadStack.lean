import ModularLisp.Proofs.CanonicalPaths
import ModularLisp.Proofs.Operation

/-!
# ModularLisp.Proofs.LoadStack

**The list of files being loaded** is a stack: a load puts its canonical path at the end
and takes it off when it is over, however it ended. Since that happens in one place
(`withProgram`), it is one change for `Effect`, and every run leaves the list as it
found it.

On the way the list is what it was at the beginning of the run, followed by the files
that are in progress (`InProgress`). This is shown of the moments of the run, and there are
no others: not for evaluation (`Operation.sameOver`), and not for what a load does with its
file (`Eval.loading_congr`). No path is put on the list twice, because a load of a file that
is on it fails; and it fails in this way for no other reason. So a chain of imports is never
longer than there are places in the file system, and one that comes back to its beginning is
reported through as many imports as it has files.
-/

namespace ModularLisp

open Files (FileSystem)

namespace Eval

variable {files : FileSystem}

/-! ### What a run leaves -/

/-- Every evaluation leaves the list of files being loaded as it was. -/
theorem effect_loading : Effect fun _ m _ m' => m'.loading = m.loading where
  refl _ _ := rfl
  trans h₁ h₂ := h₂.trans h₁
  begins _ _ _ _ _ := rfl
  define _ _ _ _ := rfl
  exports _ _ _ _ := rfl
  call _ h := h
  unread _ _ _ _ := rfl
  load _ _ _ _ h := by rw [loading_afterLoading, h, loading_fileStart, List.dropLast_concat]

end Eval

namespace Operation

variable {files : FileSystem}

/-- Whatever is done, the list of files being loaded is afterwards what it was before. -/
theorem loading_of_leads {o : Operation} {m m' : Machine} (h : o.Leads files m m') :
    m'.loading = m.loading := by
  obtain ⟨fuel, h⟩ := h
  have hrun : o.Runs → m'.loading = m.loading := fun hruns =>
    effect Eval.effect_loading (s := o.scope?.getD ⟨0⟩) hruns (fun i hi => by rw [hi]; rfl) h
  cases o with
  | newRoot | newProgram | enclose | define | markExported =>
      obtain rfl := Option.some.inj h
      rfl
  | eval | apply | runForms | evaluateSource | loadProgram | runFile | importExports =>
      exact hrun trivial

end Operation

/-! ### On the way -/

/-- The list of files being loaded, when it was `base` at the beginning of a run and the
files `loads` have been opened since and are not done. -/
structure InProgress (files : FileSystem) (base loads loading : List Files.Path) : Prop where
  stack : loading = base ++ loads
  nodup : loading.Nodup
  canonical : ∀ c ∈ loads, c ∈ files.canonicalPaths

namespace InProgress

variable {files : FileSystem} {base loads loading : List Files.Path}

theorem start (h : base.Nodup) : InProgress files base [] base :=
  ⟨(List.append_nil base).symm, h, fun _ hc => absurd hc List.not_mem_nil⟩

/-- One more file is opened, which is not on the list. -/
theorem push (h : InProgress files base loads loading) {path : String} {c : Files.Path}
    (hc : files.canonical? path = .ok c) (hnew : c ∉ loading) :
    InProgress files base (loads ++ [c]) (loading ++ [c]) := by
  refine ⟨by rw [h.stack, List.append_assoc], ?_, ?_⟩
  · rw [List.nodup_append]
    refine ⟨h.nodup, List.nodup_singleton c, ?_⟩
    intro a ha b hb hab
    rw [hab, List.mem_singleton.mp hb] at ha
    exact hnew ha
  · intro d hd
    rcases List.mem_append.mp hd with hd | hd
    · exact h.canonical d hd
    · exact ⟨path, List.mem_singleton.mp hd ▸ hc⟩

/-- There are no more files in progress than places in the file system. -/
theorem length_le (h : InProgress files base loads loading) :
    loads.length ≤ files.canonicalPaths.ncard := by
  have hnodup : loads.Nodup := (List.nodup_append.mp (h.stack ▸ h.nodup)).2.1
  calc loads.length = loads.toFinset.card := (List.toFinset_card_of_nodup hnodup).symm
    _ = (loads.toFinset : Set Files.Path).ncard := (Set.ncard_coe_finset _).symm
    _ ≤ files.canonicalPaths.ncard :=
        Set.ncard_le_ncard (fun c hc => h.canonical c (by simpa using hc))
          files.finite_canonicalPaths

end InProgress

namespace Eval

section

variable {files : FileSystem} {ev : Evaluator} {tr : Tracer} {base : List Files.Path}
  (hev : ∀ loads e s, Has (fun _ m _ m' => m'.loading = m.loading) s (ev e s) (tr loads e s))
  (htr : ∀ loads e s m, InProgress files base loads m.loading →
    ∀ mo ∈ tr loads e s m, InProgress files base mo.files mo.machine.loading)
  {loads : List Files.Path}
include hev htr

theorem sequenceMoments_inProgress (scope : ScopeId) (es : List Expr) {m : Machine}
    (h : InProgress files base loads m.loading) :
    ∀ mo ∈ sequenceMoments ev tr loads scope es m,
      InProgress files base mo.files mo.machine.loading := by
  induction es generalizing m with
  | nil => exact fun _ hmo => absurd hmo List.not_mem_nil
  | cons e es ih =>
      intro mo hmo
      rcases List.mem_append.mp hmo with hmo | hmo
      · exact htr loads e scope m h mo hmo
      · obtain ⟨value, m₁, hm₁, hmo⟩ := Run.mem_thenMoments.mp hmo
        exact ih ((hev loads e scope _ _ _ hm₁).symm ▸ h) mo hmo

omit hev in
theorem applyMoments_inProgress (params : List String) (body : Expr) (captured : ScopeId)
    (arguments : List Expr) {m : Machine} (h : InProgress files base loads m.loading) :
    ∀ mo ∈ applyMoments tr loads params body captured arguments m,
      InProgress files base mo.files mo.machine.loading := by
  unfold applyMoments
  split
  · exact htr loads body _ _ h
  · exact fun _ hmo => absurd hmo List.not_mem_nil

theorem applicationMoments_inProgress (head : Expr) (arguments : List Expr) (scope : ScopeId)
    {m : Machine} (h : InProgress files base loads m.loading) :
    ∀ mo ∈ applicationMoments ev tr loads head arguments scope m,
      InProgress files base mo.files mo.machine.loading := by
  intro mo hmo
  rcases List.mem_append.mp hmo with hmo | hmo
  · exact htr loads head scope m h mo hmo
  obtain ⟨value, m₁, hm₁, hmo⟩ := Run.mem_thenMoments.mp hmo
  have h₁ : InProgress files base loads m₁.loading := (hev loads head scope _ _ _ hm₁).symm ▸ h
  cases value with
  | closure params body captured =>
      rcases List.mem_append.mp hmo with hmo | hmo
      · exact sequenceMoments_inProgress hev htr scope arguments h₁ mo hmo
      · obtain ⟨values, m₂, hm₂, hmo⟩ := Run.mem_thenMoments.mp hmo
        have h₂ : m₂.loading = m₁.loading := effect_loading.evalAll hev loads arguments _ _ _ hm₂
        exact applyMoments_inProgress htr params body captured values (h₂.symm ▸ h₁) mo hmo
  | symbol | number | string | list => exact absurd hmo List.not_mem_nil

theorem clauseMoments_inProgress (scope : ScopeId) (clauses : List Expr) {m : Machine}
    (h : InProgress files base loads m.loading) :
    ∀ mo ∈ clauseMoments ev tr loads scope clauses m,
      InProgress files base mo.files mo.machine.loading := by
  induction clauses generalizing m with
  | nil => exact fun _ hmo => absurd hmo List.not_mem_nil
  | cons clause rest ih =>
      intro mo hmo
      unfold clauseMoments at hmo
      cases hp : clausePair? clause with
      | none => simp [hp] at hmo
      | some pair =>
          simp only [hp] at hmo
          rcases List.mem_append.mp hmo with hmo | hmo
          · exact htr loads pair.1 scope m h mo hmo
          obtain ⟨value, m₁, hm₁, hmo⟩ := Run.mem_thenMoments.mp hmo
          have h₁ : InProgress files base loads m₁.loading :=
            (hev loads pair.1 scope _ _ _ hm₁).symm ▸ h
          by_cases hv : value.isTrue
          · rw [if_pos hv] at hmo
            exact htr loads pair.2 scope m₁ h₁ mo hmo
          · rw [if_neg hv] at hmo
            exact ih h₁ mo hmo

theorem programMoments_inProgress (path : String) {m : Machine}
    (h : InProgress files base loads m.loading) :
    ∀ mo ∈ programMoments files ev tr loads path m,
      InProgress files base mo.files mo.machine.loading := by
  intro mo hmo
  unfold programMoments at hmo
  cases hc : files.canonical? path with
  | error e => simp [hc] at hmo
  | ok c =>
      simp only [hc] at hmo
      by_cases hmem : c ∈ m.loading
      · simp [if_pos hmem] at hmo
      rw [if_neg hmem] at hmo
      have h₁ := h.push hc hmem
      rcases List.mem_cons.mp hmo with rfl | hmo
      · exact h₁
      cases hf : fileForms files path with
      | error e => simp [hf] at hmo
      | ok forms =>
          simp only [hf] at hmo
          exact sequenceMoments_inProgress hev htr m.store.nextId forms h₁ mo hmo

theorem stepMoments_inProgress (e : Expr) (scope : ScopeId) {m : Machine}
    (h : InProgress files base loads m.loading) :
    ∀ mo ∈ stepMoments files ev tr loads e scope m,
      InProgress files base mo.files mo.machine.loading := by
  intro mo hmo
  unfold stepMoments at hmo
  split at hmo
  · split at hmo
    · unfold keywordMoments at hmo
      split at hmo
      · exact htr loads _ scope m h mo hmo
      · exact clauseMoments_inProgress hev htr scope _ h mo hmo
      · exact programMoments_inProgress hev htr _ h mo hmo
      · exact absurd hmo List.not_mem_nil
    · exact applicationMoments_inProgress hev htr _ _ scope h mo hmo
  · exact absurd hmo List.not_mem_nil

end

/-- At every moment of an evaluation the list is what it was, followed by the files that
are in progress. -/
theorem evalMoments_inProgress (files : FileSystem) (base : List Files.Path) (fuel : Nat)
    (loads : List Files.Path) (e : Expr) (scope : ScopeId) {m : Machine}
    (h : InProgress files base loads m.loading) :
    ∀ mo ∈ evalMoments files fuel loads e scope m,
      InProgress files base mo.files mo.machine.loading := by
  induction fuel generalizing loads e scope m with
  | zero => exact fun _ hmo => absurd hmo List.not_mem_nil
  | succ fuel ih =>
      intro mo hmo
      rcases List.mem_cons.mp hmo with rfl | hmo
      · exact h
      · exact stepMoments_inProgress (eval_effect effect_loading files fuel)
          (fun loads e s m h => ih loads e s h) e scope h mo hmo

/-- What is done while a file is being loaded is done in one state: the one at hand, with the
path of the file put at the end of the list. -/
theorem loading_congr {α : Type} {c : Files.Path} {body body' : Run ProgramError α}
    {m : Machine} (h : body (whileLoading c m) = body' (whileLoading c m)) :
    loading c body m = loading c body' m := by
  unfold whileLoading at h
  simp only [loading, h]

end Eval

/-- At every moment of an operation the list is what it was at its beginning, followed by
the files that are in progress. -/
theorem Operation.moments_inProgress (files : FileSystem) (o : Operation) (fuel : Nat)
    {m : Machine} (h : m.loading.Nodup) :
    ∀ mo ∈ o.moments files (Eval.eval files fuel) (Eval.evalMoments files fuel) m,
      InProgress files m.loading mo.files mo.machine.loading := by
  have hev := Eval.eval_effect Eval.effect_loading files fuel
  have htr : ∀ loads e s (m₁ : Machine), InProgress files m.loading loads m₁.loading →
      ∀ mo ∈ Eval.evalMoments files fuel loads e s m₁,
        InProgress files m.loading mo.files mo.machine.loading :=
    fun loads e s _ h₁ => Eval.evalMoments_inProgress files m.loading fuel loads e s h₁
  have hstart : InProgress files m.loading [] m.loading := .start h
  cases o with
  | newRoot | newProgram | enclose | define | markExported =>
      exact fun _ hmo => absurd hmo List.not_mem_nil
  | eval e scope => exact htr [] e scope m hstart
  | apply params body captured arguments =>
      exact Eval.applyMoments_inProgress htr params body captured arguments hstart
  | runForms forms scope => exact Eval.sequenceMoments_inProgress hev htr scope forms hstart
  | evaluateSource source scope =>
      intro mo hmo
      simp only [moments, Eval.sourceMoments] at hmo
      cases hp : parse source with
      | error e => simp [hp] at hmo
      | ok forms =>
          simp only [hp] at hmo
          exact Eval.sequenceMoments_inProgress hev htr scope forms hstart mo hmo
  | loadProgram path | runFile path | importExports path =>
      exact Eval.programMoments_inProgress hev htr path hstart

/-! ### Cycles -/

namespace Eval

variable {files : FileSystem} {α : Type} {path : String} {c : Files.Path}

/-- A load of a file that is being loaded fails with the canonical path of the file. The
evaluator does not matter, because nothing is evaluated. -/
theorem withProgram_of_mem (hc : files.canonical? path = .ok c) (ev : Evaluator)
    (g : ScopeId → Option Expr → α) {m : Machine} (hmem : c ∈ m.loading) :
    withProgram files path (runAs ev g) m = some (.error (.cycle c.text), m) :=
  (withProgram_eq_some_iff files).mpr (.cycle hc hmem)

/-- A load fails in this way for no other reason. -/
theorem mem_of_withProgram (hc : files.canonical? path = .ok c) {ev : Evaluator}
    {g : ScopeId → Option Expr → α} {m m' : Machine} {text : String}
    (h : withProgram files path (runAs ev g) m = some (.error (.cycle text), m')) :
    c ∈ m.loading := by
  generalize hr : Except.error (ProgramError.cycle text) = r at h
  cases (withProgram_eq_some_iff files).mp h with
  | lost => cases hr
  | cycle hc' hmem =>
      obtain rfl := Except.ok.inj (hc.symm.trans hc')
      exact hmem
  | unread _ _ hforms =>
      obtain rfl := Except.error.inj hr
      exact absurd hforms (fileForms_ne_cycle files path text)
  | @run _ _ r _ _ _ _ _ => cases r <;> cases hr

/-- The load `x` is refused as a cycle in the states in which the file at `c` is being
loaded, and in no others; and then it does nothing else. -/
structure RefusesCycle (files : FileSystem) (c : Files.Path)
    (x : Evaluator → Run ProgramError α) : Prop where
  iff : ∀ m, (∃ m', Ends files x m (.error (.cycle c.text)) m') ↔ c ∈ m.loading
  idle : ∀ m ev, c ∈ m.loading → x ev m = some (.error (.cycle c.text), m)

theorem refusesCycle_withProgram (hc : files.canonical? path = .ok c)
    (g : ScopeId → Option Expr → α) :
    RefusesCycle files c fun ev => withProgram files path (runAs ev g) := by
  refine ⟨fun m => ⟨?_, fun hmem => ?_⟩, fun m ev hmem => withProgram_of_mem hc ev g hmem⟩
  · intro h
    obtain ⟨m', fuel, h⟩ := h
    exact mem_of_withProgram hc h
  · exact ⟨m, 0, withProgram_of_mem hc _ g hmem⟩

theorem refusesCycle_runFile (hc : files.canonical? path = .ok c) :
    RefusesCycle files c fun ev => runFile files ev path := by
  simp only [runFile_eq]
  exact refusesCycle_withProgram hc _

theorem refusesCycle_importExports (hc : files.canonical? path = .ok c) :
    RefusesCycle files c fun ev => importExports files ev path := by
  have hload : RefusesCycle files c fun ev => loadProgram files ev path :=
    refusesCycle_withProgram hc fun scope _ => scope
  have hidle : ∀ m ev, c ∈ m.loading →
      importExports files ev path m = some (.error (.cycle c.text), m) := fun m ev hmem =>
    Run.bind_eq_some_iff.mpr (Or.inl ⟨_, hload.idle m ev hmem, rfl⟩)
  refine ⟨fun m => ⟨?_, fun hmem => ⟨m, 0, hidle m _ hmem⟩⟩, hidle⟩
  intro hends
  obtain ⟨m', fuel, h⟩ := hends
  -- An exported name without a value is an error of evaluation, so the load has failed.
  rcases Run.bind_eq_some_iff.mp h with ⟨e, hl, he⟩ | ⟨root, m₁, -, hb⟩
  · rw [← Except.error.inj he] at hl
    exact (hload.iff m).mp ⟨m', fuel, hl⟩
  · obtain ⟨r, -, hr⟩ := Run.mapError_eq_some_iff.mp hb
    cases r <;> cases hr

/-- A file that is being loaded is not even read. -/
theorem programMoments_of_mem (hc : files.canonical? path = .ok c) (ev : Evaluator) (tr : Tracer)
    (loads : List Files.Path) {m : Machine} (hmem : c ∈ m.loading) :
    programMoments files ev tr loads path m = [] := by
  unfold programMoments
  simp only [hc, if_pos hmem]

end Eval

end ModularLisp
