import ModularLisp.Proofs.LoadStack

/-!
# ModularLisp.Proofs.ImportCycle

**Imports in a circle.** When files import one another in a circle, the run that comes
round to the file it started with is refused there, and every import on the way fails
because of that: the error tells the whole circle (`ImportCycle.ends`).

Together with what the list of files being loaded is at every moment and at the end of
a run, this is all there is to say about that list; the module ends with it.
-/

namespace ModularLisp.Eval

open Files (FileSystem)

variable {files : FileSystem}

/-- The error of a file that could not import the first of `paths`, because that file
could not import the second, and so on; the last one failed with `cause`. -/
def importChain (cause : ProgramError) : List String → ProgramError
  | [] => cause
  | path :: paths => .eval (.importFailed path (importChain cause paths))

/-- There are `n` files that import one another in a circle. The one counted `i` is at
`place i` and is found there under `spelling i`, which may be any way to write it; and it
imports the next one after forms that are evaluated without an error. -/
structure ImportCycle (files : FileSystem) (n : Nat) (spelling : Nat → String)
    (place : Nat → Files.Path) : Prop where
  pos : 0 < n
  distinct : ∀ i < n, ∀ j < n, place i = place j → i = j
  leads : ∀ i < n, files.canonical? (spelling i) = .ok (place i)
  returns : files.canonical? (spelling n) = .ok (place 0)
  imports : ∀ i < n, ∃ before after,
    fileForms files (spelling i) = .ok (before ++ importForm (spelling (i + 1)) :: after) ∧
      ∀ m : Machine, m.loading = (List.range i).map place → ∃ value m',
        Ends files (fun ev => runForms ev m.store.nextId before) (fileStart (place i) m)
          (.ok value) m'

/-- An import that fails ends the program it stands in, after the forms before it. -/
theorem Ends.runForms_import {before : List Expr} {path : String} {cause : ProgramError}
    {scope : ScopeId} {m m₁ m' : Machine} {value : Option Expr}
    (hbefore : Ends files (fun ev => runForms ev scope before) m (.ok value) m₁)
    (himport : Ends files (fun ev => importExports files ev path) m₁ (.error cause) m')
    (after : List Expr) :
    Ends files (fun ev => runForms ev scope (before ++ importForm path :: after)) m
      (.error (.importFailed path cause)) m' := by
  simp only [runForms_append]
  refine Ends.bind (steady_runForms scope before) (steady_runForms scope _) hbefore ?_
  obtain ⟨fuel, h⟩ := himport
  exact ⟨fuel + 1, runForms_cons_error (step_importForm_error files h scope) after⟩

/-- A load whose forms fail has failed with their error. -/
theorem Ends.withProgram_error {α : Type} {path : String} {c : Files.Path} {forms : List Expr}
    {m m' : Machine} {error : EvalError} (hc : files.canonical? path = .ok c)
    (hnew : c ∉ m.loading) (hforms : fileForms files path = .ok forms)
    (g : ScopeId → Option Expr → α)
    (h : Ends files (fun ev => runForms ev m.store.nextId forms) (fileStart c m)
      (.error error) m') :
    Ends files (fun ev => withProgram files path (runAs ev g)) m (.error (.eval error))
      (afterLoading m') := by
  obtain ⟨fuel, h⟩ := h
  exact ⟨fuel, (withProgram_eq_some_iff files).mpr (.run hc hnew hforms h)⟩

namespace ImportCycle

variable {n : Nat} {spelling : Nat → String} {place : Nat → Files.Path}

theorem not_mem_range (h : ImportCycle files n spelling place) {i : Nat} (hi : i < n) :
    place i ∉ (List.range i).map place := by
  intro hmem
  obtain ⟨j, hj, heq⟩ := List.mem_map.mp hmem
  have hlt := List.mem_range.mp hj
  have := h.distinct j (by omega) i hi heq
  omega

/-- A load of the file counted `i`, while those before it are being loaded, goes round the
rest of the circle. -/
theorem withProgram_ends {α : Type} (h : ImportCycle files n spelling place) {i k : Nat}
    (hik : i + k = n) {m : Machine} (hm : m.loading = (List.range i).map place)
    (g : ScopeId → Option Expr → α) :
    ∃ m', Ends files (fun ev => withProgram files (spelling i) (runAs ev g)) m
      (.error (importChain (.cycle (place 0).text) ((List.range' (i + 1) k).map spelling))) m' := by
  -- The induction is on the number of files that are still to come.
  induction k generalizing α i m with
  | zero =>
      obtain rfl : i = n := hik
      have hmem : place 0 ∈ m.loading := by
        rw [hm]
        exact List.mem_map_of_mem (List.mem_range.mpr h.pos)
      exact ⟨m, 0, withProgram_of_mem h.returns _ g hmem⟩
  | succ k ih =>
      have hi : i < n := by omega
      have hnew : place i ∉ m.loading := hm ▸ h.not_mem_range hi
      obtain ⟨before, after, hforms, hbefore⟩ := h.imports i hi
      obtain ⟨value, m₁, hrun⟩ := hbefore m hm
      have hm₁ : m₁.loading = (List.range (i + 1)).map place := by
        obtain ⟨fuel, hrun⟩ := hrun
        rw [effect_loading.runForms (eval_effect effect_loading files fuel) [] before _ _ _ hrun,
          loading_fileStart, hm, List.range_succ, List.map_append, List.map_singleton]
      obtain ⟨m₂, hload⟩ := ih (by omega) hm₁ fun scope _ => scope
      have hfail := hrun.runForms_import hload.bind_error after
      rw [List.range'_succ, List.map_cons]
      exact ⟨afterLoading m₂, Ends.withProgram_error (h.leads i hi) hnew hforms g hfail⟩

/-- Whichever way the first file of a circle is asked for, the run goes round the circle. -/
theorem ends (h : ImportCycle files n spelling place) {m : Machine} (hm : m.loading = []) :
    let cause := importChain (.cycle (place 0).text) ((List.range' 1 n).map spelling)
    (∃ m', Ends files (fun ev => loadProgram files ev (spelling 0)) m (.error cause) m') ∧
    (∃ m', Ends files (fun ev => runFile files ev (spelling 0)) m (.error cause) m') ∧
    (∃ m', Ends files (fun ev => importExports files ev (spelling 0)) m (.error cause) m') ∧
    (∀ scope, ∃ m', Ends files (fun ev => ev (importForm (spelling 0)) scope) m
      (.error (.importFailed (spelling 0) cause)) m') := by
  intro cause
  have hload : ∃ m', Ends files (fun ev => loadProgram files ev (spelling 0)) m
      (.error cause) m' := h.withProgram_ends (Nat.zero_add n) hm fun scope _ => scope
  refine ⟨hload, ?_, ?_, fun scope => ?_⟩
  · simp only [runFile_eq]
    exact h.withProgram_ends (Nat.zero_add n) hm fun _ value => value
  · obtain ⟨m', hload⟩ := hload
    exact ⟨m', hload.bind_error⟩
  · obtain ⟨m', fuel, hload⟩ := hload
    have himport : importExports files (eval files fuel) (spelling 0) m =
        some (.error cause, m') := Run.bind_eq_some_iff.mpr (Or.inl ⟨cause, hload, rfl⟩)
    exact ⟨m', fuel + 1, step_importForm_error files himport scope⟩

end ImportCycle

/-! ### The law of the list of files being loaded -/

/-- **Files being loaded.** Whatever is done when no path is on the list twice, at every
moment the list is what it was, followed by the files in progress, of which there are no
more than places in the file system. These are all the moments at which anything is
evaluated, since evaluators that follow the rules at them make no difference, whatever they
do elsewhere; and a file is read and run with its path put at the end of the list, and in no
other state.

When it is done, in whatever way, the list is what it was. A load is refused as a cycle
exactly if its file is on the list, under whichever name, and then neither reads nor
evaluates anything. So imports in a circle are refused when they come round, through as many
imports as there are files. -/
theorem load_stack_discipline (files : FileSystem) :
    (∀ (o : Operation) (m : Machine), m.loading.Nodup → ∀ fuel,
      ∀ mo ∈ o.moments files (eval files fuel) (evalMoments files fuel) m,
        InProgress files m.loading mo.files mo.machine.loading ∧
          mo.files.length ≤ files.canonicalPaths.ncard) ∧
    (∀ (o : Operation) (m : Machine) (fuel : Nat) (evs : Nat → Evaluator),
      FollowsRules files (o.moments files (eval files fuel) (evalMoments files fuel) m) evs →
        o.SameOver files (eval files fuel) (evs fuel) m) ∧
    (∀ (α : Type) (c : Files.Path) (body body' : Run ProgramError α) (m : Machine),
      body (whileLoading c m) = body' (whileLoading c m) →
        loading c body m = loading c body' m) ∧
    (∀ (o : Operation) (m m' : Machine), o.Leads files m m' → m'.loading = m.loading) ∧
    (∀ path c, files.canonical? path = .ok c →
      RefusesCycle files c (fun ev => loadProgram files ev path) ∧
      RefusesCycle files c (fun ev => runFile files ev path) ∧
      RefusesCycle files c (fun ev => importExports files ev path) ∧
      ∀ ev tr loads m, c ∈ m.loading → programMoments files ev tr loads path m = []) ∧
    (∀ n spelling place, ImportCycle files n spelling place → ∀ m, m.loading = [] →
      let cause := importChain (.cycle (place 0).text) ((List.range' 1 n).map spelling)
      (∃ m', Ends files (fun ev => loadProgram files ev (spelling 0)) m (.error cause) m') ∧
      (∃ m', Ends files (fun ev => runFile files ev (spelling 0)) m (.error cause) m') ∧
      (∃ m', Ends files (fun ev => importExports files ev (spelling 0)) m (.error cause) m') ∧
      (∀ scope, ∃ m', Ends files (fun ev => ev (importForm (spelling 0)) scope) m
        (.error (.importFailed (spelling 0) cause)) m')) := by
  refine ⟨?_, ?_, ?_, ?_, ?_, ?_⟩
  · intro o m hm fuel mo hmo
    have h := o.moments_inProgress files fuel hm mo hmo
    exact ⟨h, h.length_le⟩
  · intro o m fuel evs hevs
    exact o.sameOver hevs
  · intro α c body body' m h
    exact loading_congr h
  · intro o m m' h
    exact Operation.loading_of_leads h
  · intro path c hc
    refine ⟨refusesCycle_withProgram hc _, refusesCycle_runFile hc,
      refusesCycle_importExports hc, ?_⟩
    intro ev tr loads m hmem
    exact programMoments_of_mem hc ev tr loads hmem
  · intro n spelling place h m hm
    exact h.ends hm

/-- Two files that import each other, one of them under another name than it is found
under from elsewhere. -/
def twoFileCircle : FileSystem :=
  ⟨[(["a"], .file "(import \"b\")".toUTF8), (["b"], .file "(import \"./a\")".toUTF8)], []⟩

/-- Evaluators that follow the rules, but stop wherever a path is on the list twice. -/
def vigilant (files : FileSystem) : Nat → Evaluator
  | 0, _, _ => .stuck
  | fuel + 1, e, scope => fun m =>
      if m.loading.Nodup then step files (vigilant files fuel) e scope m else none

/-- Two files that import each other are refused at the third import, with the place of the
first, and no path is on the list twice whenever something is evaluated until then. -/
theorem load_stack_discipline_twoFileCircle :
    (∀ fuel, eval twoFileCircle fuel (importForm "a") ⟨0⟩ Machine.start =
      vigilant twoFileCircle fuel (importForm "a") ⟨0⟩ Machine.start) ∧
    ∃ m', Ends twoFileCircle (fun ev => ev (importForm "a") ⟨0⟩) Machine.start
      (.error (.importFailed "a" (.eval (.importFailed "b" (.eval
        (.importFailed "./a" (.cycle "/a"))))))) m' ∧ m'.loading = [] := by
  have hcircle : ImportCycle twoFileCircle 2 (fun i => ["a", "b", "./a"].getD i "")
      (fun i => [["a"], ["b"]].getD i []) := by
    refine ⟨by decide, by decide, ?_, by cbv, ?_⟩
    · intro i hi
      obtain rfl | rfl : i = 0 ∨ i = 1 := by omega
      · cbv
      · cbv
    · intro i hi
      refine ⟨[], [], ?_, fun m _ => ⟨none, _, 0, rfl⟩⟩
      obtain rfl | rfl : i = 0 ∨ i = 1 := by omega
      · cbv
      · cbv
  obtain ⟨hmoments, honly, -, hleads, -, hends⟩ := load_stack_discipline twoFileCircle
  refine ⟨fun fuel => ?_, ?_⟩
  · refine honly (.eval (importForm "a") ⟨0⟩) Machine.start fuel _ ⟨rfl, ?_⟩
    intro _ _ _ _ _ hmo
    exact if_pos (hmoments _ _ List.nodup_nil fuel _ hmo).1.nodup
  · obtain ⟨m', hm'⟩ := (hends _ _ _ hcircle Machine.start rfl).2.2.2 ⟨0⟩
    obtain ⟨fuel, hfuel⟩ := hm'
    exact ⟨m', ⟨fuel, hfuel⟩, hleads (.eval (importForm "a") ⟨0⟩) _ _
      ⟨fuel, Run.after_eq_some_iff.mpr ⟨_, hfuel⟩⟩⟩

end ModularLisp.Eval
