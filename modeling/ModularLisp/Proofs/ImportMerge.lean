import Mathlib.Data.List.Forall2
import Mathlib.Data.List.Induction
import Mathlib.Data.List.Nodup
import ModularLisp.Proofs.Frame

/-!
# ModularLisp.Proofs.ImportMerge

**An import merges all or nothing.** If running the file or collecting its exports fails,
the importing scope and every other scope that was there stay as they were, however far
the file has got (`ImportFails`). Otherwise the scope binds exactly the exported names,
each to the value it has in the root scope of the file when the file is done, and nothing
else has changed (`ImportMerges`).

Which names those are can be told from the run alone: the ones for which an `export` was
evaluated in the root scope of the file. `effect_exports` follows the exports of every
scope through a run.
-/

namespace ModularLisp

/-! ### Binding a list of names -/

theorem Store.modify_id (st : Store) (i : ScopeId) : st.modify i (fun s => s) = st := by
  have harray : st.scopes.modify i.index (fun s => s) = st.scopes := by
    refine Array.ext (by simp) fun j h₁ h₂ => ?_
    rw [Array.getElem_modify]
    split <;> rfl
  rw [Store.modify, harray]

theorem Store.modify_modify (st : Store) (i : ScopeId) (f g : Scope → Scope) :
    (st.modify i f).modify i g = st.modify i (fun s => g (f s)) := by
  have harray : (st.scopes.modify i.index f).modify i.index g =
      st.scopes.modify i.index (fun s => g (f s)) := by
    refine Array.ext (by simp) fun j h₁ h₂ => ?_
    simp only [Array.getElem_modify]
    split <;> rfl
  rw [Store.modify, Store.modify, Store.modify, harray]

/-- Binding names one after the other never fails, and is one change of the scope. -/
theorem Run.defineAll_apply {ε : Type} (scope : ScopeId) (bindings : List (String × Expr))
    (m : Machine) : (Run.defineAll scope bindings : Run ε Unit) m =
      some (.ok (), { m with store := m.store.modify scope (·.defineAll bindings) }) := by
  induction bindings generalizing m with
  | nil =>
      simp only [Scope.defineAll_nil, Store.modify_id]
      rfl
  | cons b rest ih =>
      show Run.defineAll scope rest { m with store := m.store.define scope b.1 b.2 } = _
      rw [ih, Store.define]
      simp only [Store.modify_modify, Scope.defineAll_cons]

namespace Scope

theorem get?_defineAll_of_not_mem {bindings : List (String × Expr)} {name : String}
    (h : name ∉ bindings.map Prod.fst) (s : Scope) :
    (s.defineAll bindings).get? name = s.get? name := by
  induction bindings generalizing s with
  | nil => rfl
  | cons b rest ih =>
      rw [List.map_cons, List.mem_cons, not_or] at h
      rw [defineAll_cons, ih h.2, get?_define, if_neg h.1]

theorem get?_defineAll_of_mem {bindings : List (String × Expr)}
    (hnodup : (bindings.map Prod.fst).Nodup) {b : String × Expr} (hb : b ∈ bindings)
    (s : Scope) : (s.defineAll bindings).get? b.1 = some b.2 := by
  induction bindings generalizing s with
  | nil => cases hb
  | cons first rest ih =>
      rw [List.map_cons, List.nodup_cons] at hnodup
      rcases List.mem_cons.mp hb with rfl | hb
      · rw [defineAll_cons, get?_defineAll_of_not_mem hnodup.1, get?_define, if_pos rfl]
      · exact ih hnodup.2 hb _

end Scope

/-! ### The exported bindings -/

theorem forall₂_of_mapM_ok {ε α β : Type} {f : α → Except ε β} {as : List α} {bs : List β}
    (h : as.mapM f = .ok bs) : List.Forall₂ (fun a b => f a = .ok b) as bs := by
  induction as generalizing bs with
  | nil =>
      obtain rfl := Except.ok.inj h
      exact .nil
  | cons a as ih =>
      rw [List.mapM_cons] at h
      cases ha : f a with
      | error e =>
          rw [ha] at h
          cases h
      | ok b =>
          rw [ha] at h
          cases has : as.mapM f with
          | error e =>
              rw [has] at h
              cases h
          | ok bs' =>
              rw [has] at h
              obtain rfl := Except.ok.inj h
              exact .cons ha (ih has)

/-- The exported names with their values: as many as there are names, in their order, each
with the value that is seen from the scope. -/
theorem Store.exportedBindings_ok {st : Store} {i : ScopeId} {s : Scope}
    (hs : st.get? i = some s) {bindings : List (String × Expr)}
    (h : st.exportedBindings i = .ok bindings) :
    bindings.map Prod.fst = s.exports ∧ ∀ b ∈ bindings, st.lookup i b.1 = some b.2 := by
  unfold exportedBindings at h
  simp only [hs, Option.map_some, Option.getD_some] at h
  have hpairs := forall₂_of_mapM_ok h
  clear h hs
  generalize s.exports = names at hpairs ⊢
  induction hpairs with
  | nil => exact ⟨rfl, fun b hb => absurd hb List.not_mem_nil⟩
  | @cons name b names rest hb _ ih =>
      obtain ⟨hnames, hvalues⟩ := ih
      cases hv : st.lookup i name with
      | none =>
          rw [hv] at hb
          cases hb
      | some value =>
          rw [hv] at hb
          obtain rfl := Except.ok.inj hb
          refine ⟨by rw [List.map_cons, hnames], ?_⟩
          intro b hb
          rcases List.mem_cons.mp hb with rfl | hb
          · exact hv
          · exact hvalues b hb

/-- A scope with nothing around it sees its own bindings only. -/
theorem Store.lookup_of_root {st : Store} {i : ScopeId} {s : Scope} (hs : st.get? i = some s)
    (hroot : s.outer = none) (name : String) : st.lookup i name = s.get? name := by
  unfold lookup
  simp only [hs, hroot]
  split <;> simp_all

/-! ### The names that a run exports -/

/-- The exported names when `name` is marked after `names`. -/
def mark (names : List String) (name : String) : List String :=
  if name ∈ names then names else names ++ [name]

theorem Scope.exports_markExported (s : Scope) (name : String) :
    (s.markExported name).exports = mark s.exports name := by
  unfold markExported mark
  split <;> rfl

/-- Names that are marked one after the other are there once each, in the order in which
they were marked first. -/
theorem foldl_mark_nil (names : List String) : names.foldl mark [] = names.eraseDups := by
  induction names using List.reverseRecOn with
  | nil => rfl
  | append_singleton names name ih =>
      rw [List.foldl_append, ih, List.eraseDups_append, List.foldl_cons, List.foldl_nil, mark]
      simp only [List.mem_eraseDups]
      split
      · next h => simp [List.removeAll, h]
      · next h => simp [List.removeAll, h, List.eraseDups_cons]

/-- Marking keeps the names distinct. -/
theorem nodup_foldl_mark {names : List String} (h : names.Nodup) (marked : List String) :
    (marked.foldl mark names).Nodup := by
  induction marked generalizing names with
  | nil => exact h
  | cons name marked ih =>
      refine ih ?_
      unfold mark
      split
      · exact h
      · next hn => exact List.nodup_append.mpr ⟨h, List.nodup_singleton _, by
          intro a ha b hb hab
          rw [List.mem_singleton.mp hb] at hab
          exact hn (hab ▸ ha)⟩

/-- The name that is exported from a scope at a moment, if it is the moment of an export. -/
def exportedAt? (scope : ScopeId) (mo : Moment) : Option String :=
  match mo.activity with
  | .evaluating (.list [.symbol word, .symbol name]) s =>
      if word = Keyword.exporting.name ∧ s = scope then some name else none
  | _ => none

theorem exportedAt?_eq_some_iff {scope : ScopeId} {mo : Moment} {name : String} :
    exportedAt? scope mo = some name ↔
      mo.activity = .evaluating (Eval.exportForm name) scope := by
  unfold exportedAt? Eval.exportForm
  split
  · next word name' s h =>
      rw [h]
      simp only [Option.ite_none_right_eq_some, Option.some.injEq, Activity.evaluating.injEq,
        Expr.list.injEq, List.cons.injEq, Expr.symbol.injEq, and_true]
      tauto
  · next h =>
      simp only [reduceCtorEq, false_iff]
      exact h _ _ _

namespace Eval

/-- What the exports of a scope are after a run: those from before, and then the names for
which an export was evaluated in that scope. -/
theorem effect_exports : Effect fun _ m t m' => ∀ i s, m.store.get? i = some s →
    ∃ s', m'.store.get? i = some s' ∧
      s'.exports = (t.filterMap (exportedAt? i)).foldl mark s.exports where
  refl _ _ i s hs := ⟨s, hs, rfl⟩
  trans h₁ h₂ i s hs := by
    obtain ⟨s₁, hs₁, he₁⟩ := h₁ i s hs
    obtain ⟨s₂, hs₂, he₂⟩ := h₂ i s₁ hs₁
    exact ⟨s₂, hs₂, by rw [he₂, he₁, List.filterMap_append, List.foldl_append]⟩
  begins e scope loads m he i s hs := by
    have hnone : exportedAt? i ⟨.evaluating e scope, loads, m⟩ = none := by
      rw [Option.eq_none_iff_forall_ne_some]
      intro name hname
      exact he name (Activity.evaluating.inj (exportedAt?_eq_some_iff.mp hname)).1
    exact ⟨s, hs, by simp [hnone]⟩
  define scope m name value i s hs := by
    rw [Store.define, Store.get?_modify]
    by_cases hi : i = scope
    · subst hi
      exact ⟨s.define name value, by rw [if_pos rfl, hs, Option.map_some], rfl⟩
    · exact ⟨s, by rw [if_neg hi, hs], rfl⟩
  exports scope loads m name i s hs := by
    rw [Store.markExported, Store.get?_modify]
    by_cases hi : i = scope
    · subst hi
      refine ⟨s.markExported name, by rw [if_pos rfl, hs, Option.map_some], ?_⟩
      have hsome : exportedAt? i ⟨.evaluating (exportForm name) i, loads, m⟩ = some name :=
        exportedAt?_eq_some_iff.mpr rfl
      simp only [List.filterMap_cons, hsome, List.filterMap_nil, List.foldl_cons, List.foldl_nil]
      exact s.exports_markExported name
    · have hnone : exportedAt? i ⟨.evaluating (exportForm name) scope, loads, m⟩ = none := by
        rw [Option.eq_none_iff_forall_ne_some]
        intro name' hname
        exact hi (Activity.evaluating.inj (exportedAt?_eq_some_iff.mp hname)).2.symm
      exact ⟨s, by rw [if_neg hi, hs], by simp [hnone]⟩
  call _ h i s hs := h i s (Store.get?_add_of_some hs _)
  unread _ _ _ _ i s hs := ⟨s, hs, rfl⟩
  load _ _ _ _ h i s hs := h i s (Store.get?_add_of_some hs _)

/-! ### What a file exports -/

open Files (FileSystem)
open Store (SameExcept Same)

variable {files : FileSystem} {path : String} {m m₁ m' : Machine}
  {bindings : List (String × Expr)}

/-- The file of a written path, loaded in the state `m`, exports `bindings` and leaves the
state `m'`: it was run to its end in a new root scope; the names are those for which an
export was evaluated in that scope, once each, in the order in which they were exported
first; and the values are those they have there at the end. -/
structure FileExports (files : FileSystem) (path : String) (m : Machine)
    (bindings : List (String × Expr)) (m' : Machine) : Prop where
  run : ∃ c forms fuel value m₁, files.canonical? path = .ok c ∧ c ∉ m.loading ∧
    fileForms files path = .ok forms ∧
    runForms (eval files fuel) m.store.nextId forms (fileStart c m) = some (.ok value, m₁) ∧
    m' = afterLoading m₁ ∧
    bindings.map Prod.fst = ((sequenceMoments (eval files fuel) (evalMoments files fuel) [c]
      m.store.nextId forms (fileStart c m)).filterMap (exportedAt? m.store.nextId)).eraseDups
  values : ∃ root, m'.store.get? m.store.nextId = some root ∧ root.outer = none ∧
    ∀ b ∈ bindings, root.get? b.1 = some b.2

/-- Exports that could be collected are those of the file. -/
theorem fileExports_of_ends
    (h : Ends files (fun ev => importExports files ev path) m (.ok bindings) m') :
    FileExports files path m bindings m' ∧ (bindings.map Prod.fst).Nodup := by
  obtain ⟨fuel, h⟩ := h
  rcases Run.bind_eq_some_iff.mp h with ⟨e, -, he⟩ | ⟨root, m₂, hload, hexports⟩
  · cases he
  obtain ⟨r, hcollect, hb⟩ := Run.mapError_eq_some_iff.mp hexports
  obtain ⟨hr, rfl⟩ := Run.outcome_inj hcollect
  obtain ⟨-, s, hs, houter⟩ := Ends.exists_rootScope ⟨fuel, hload⟩
  obtain ⟨c, forms, value, m₁, hc, hnew, hforms, rfl, hrun, rfl⟩ := loadProgram_ok files hload
  cases r with
  | error name => cases hb
  | ok bindings' =>
      obtain rfl := Except.ok.inj hb
      obtain ⟨hnames, hvalues⟩ := Store.exportedBindings_ok hs hr
      -- The root scope of the file starts without exports.
      obtain ⟨s', hs', hmarked⟩ := effect_exports.runForms (eval_effect effect_exports files fuel)
        [c] forms _ _ _ hrun m.store.nextId ((Scope.empty none).defineAll Store.preludeBindings)
        (by rw [store_fileStart, Store.addPrelude, Store.get?_add, if_pos rfl])
      obtain rfl := Option.some.inj (hs'.symm.trans hs)
      rw [Scope.exports_defineAll] at hmarked
      have hown : ∀ b ∈ bindings, s'.get? b.1 = some b.2 := fun b hb => by
        rw [← Store.lookup_of_root hs houter]
        exact hvalues b hb
      refine ⟨⟨⟨c, forms, fuel, value, m₁, hc, hnew, hforms, hrun, rfl, ?_⟩, s', hs', houter,
        hown⟩, ?_⟩
      · rw [hnames, hmarked]
        exact foldl_mark_nil _
      · rw [hnames, hmarked]
        exact nodup_foldl_mark List.nodup_nil _

/-- Collecting the exports of a file changes no scope that was there. -/
theorem same_of_importExports {r : Except ProgramError (List (String × Expr))}
    (h : Ends files (fun ev => importExports files ev path) m r m') :
    m.store.Same m'.store := by
  obtain ⟨fuel, h⟩ := h
  refine Store.same_of_forall_sameExcept fun i => ?_
  exact effect_sameExcept.importExports (eval_effect effect_sameExcept files fuel) [] path _ _ _ h

/-! ### The law of imports -/

/-- The import of `path` fails because of what went wrong with the file, and every scope
that was there is as it was. -/
structure ImportFails (files : FileSystem) (path : String) (m : Machine)
    (r : Except EvalError Expr) (m' : Machine) : Prop where
  cause : ∃ cause, r = .error (.importFailed path cause) ∧
    Ends files (fun ev => importExports files ev path) m (.error cause) m'
  same : m.store.Same m'.store

/-- The import of `path` gives the empty list, and has bound in `scope` what the file
exports and has done nothing else: other names are bound as before, nothing is exported by
it, and other scopes that were there are as they were. -/
structure ImportMerges (files : FileSystem) (path : String) (scope : ScopeId) (m : Machine)
    (r : Except EvalError Expr) (m' : Machine) : Prop where
  value : r = .ok .empty
  merged : ∃ bindings m₁, Ends files (fun ev => importExports files ev path) m (.ok bindings) m₁ ∧
    FileExports files path m bindings m₁ ∧
    ∀ s, m.store.get? scope = some s → ∃ s', m'.store.get? scope = some s' ∧
      (∀ b ∈ bindings, s'.get? b.1 = some b.2) ∧
      (∀ name, name ∉ bindings.map Prod.fst → s'.get? name = s.get? name) ∧
      s'.exports = s.exports ∧ s'.outer = s.outer
  other : ∀ i s, i ≠ scope → m.store.get? i = some s → m'.store.get? i = some s

theorem importMerges_of_ends {scope : ScopeId}
    (h : Ends files (fun ev => importExports files ev path) m (.ok bindings) m₁)
    (hm' : m' = { m₁ with store := m₁.store.modify scope (·.defineAll bindings) }) :
    ImportMerges files path scope m (.ok .empty) m' := by
  obtain ⟨hexports, hnodup⟩ := fileExports_of_ends h
  have hsame := same_of_importExports h
  subst hm'
  refine ⟨rfl, ⟨bindings, m₁, h, hexports, fun s hs => ?_⟩, fun i s hi hs => ?_⟩
  · refine ⟨s.defineAll bindings, ?_, ?_, ?_, s.exports_defineAll _, s.outer_defineAll _⟩
    · rw [Store.get?_modify_self, hsame _ _ hs, Option.map_some]
    · exact fun b hb => Scope.get?_defineAll_of_mem hnodup hb s
    · exact fun name hname => Scope.get?_defineAll_of_not_mem hname s
  · rw [Store.get?_modify_of_ne hi]
    exact hsame _ _ hs

/-- **Imports merge all or nothing.** An import that ends has either failed with the error
of collecting the exports of the file, and then every scope that was there is as it was;
or it has merged those exports into the importing scope and has changed no other. -/
theorem import_merges_or_fails {scope : ScopeId} {r : Except EvalError Expr}
    (h : Ends files (fun ev => ev (importForm path) scope) m r m') :
    ImportFails files path m r m' ∨ ImportMerges files path scope m r m' := by
  obtain ⟨fuel, hrun⟩ := ends_eval_iff.mp h
  change evalImport files (eval files fuel) [.string path] scope m = some (r, m') at hrun
  rcases Run.bind_eq_some_iff.mp hrun with ⟨e, himport, rfl⟩ | ⟨bindings, m₁, himport, hdefine⟩
  · obtain ⟨r₀, hr₀, he⟩ := Run.mapError_eq_some_iff.mp himport
    cases r₀ with
    | ok _ => cases he
    | error cause =>
        obtain rfl := Except.error.inj he
        exact Or.inl ⟨⟨cause, rfl, fuel, hr₀⟩, same_of_importExports ⟨fuel, hr₀⟩⟩
  · obtain ⟨r₀, hr₀, he⟩ := Run.mapError_eq_some_iff.mp himport
    cases r₀ with
    | error _ => cases he
    | ok _ =>
        obtain rfl := Except.ok.inj he
        rw [Run.bind_apply, Run.defineAll_apply] at hdefine
        obtain ⟨rfl, hm'⟩ := Run.outcome_inj hdefine
        exact Or.inr (importMerges_of_ends ⟨fuel, hr₀⟩ hm'.symm)

/-- A file that exports a name before it is bound. -/
def earlyExport : FileSystem :=
  ⟨[(["lib"], .file "(export x) (def x \"v\")".toUTF8)], []⟩

/-- The name that the file exports early is merged with the value it gets late. -/
theorem import_merges_or_fails_earlyExport :
    let m : Machine := ⟨Store.empty.addPrelude, []⟩
    ∃ m', Ends earlyExport (fun ev => ev (importForm "lib") ⟨0⟩) m (.ok .empty) m' ∧
      ImportMerges earlyExport "lib" ⟨0⟩ m (.ok .empty) m' := by
  intro m
  have hc : earlyExport.canonical? "lib" = .ok ["lib"] := by cbv
  have hforms : fileForms earlyExport "lib" =
      .ok [exportForm "x", .list [.symbol "def", .symbol "x", .string "v"]] := by cbv
  let m₁ : Machine :=
    ⟨(m.store.addPrelude.markExported ⟨1⟩ "x").define ⟨1⟩ "x" (.string "v"), []⟩
  have hload : loadProgram earlyExport (eval earlyExport 2) "lib" m = some (.ok ⟨1⟩, m₁) := by
    rw [loadProgram_eq, withProgram_runAs_apply]
    simp only [hc, hforms]
    rfl
  have hexported : m₁.store.exportedBindings ⟨1⟩ = .ok [("x", .string "v")] := by
    cbv
  have hexports : importExports earlyExport (eval earlyExport 2) "lib" m =
      some (.ok [("x", .string "v")], m₁) := by
    rw [importExports, Run.bind_apply, hload]
    simp only [Run.mapError, Run.exportedBindings, hexported]
  have hends : Ends earlyExport (fun ev => ev (importForm "lib") ⟨0⟩) m (.ok .empty)
      { m₁ with store := m₁.store.define ⟨0⟩ "x" (.string "v") } := by
    refine ⟨3, ?_⟩
    show evalImport earlyExport (eval earlyExport 2) [.string "lib"] ⟨0⟩ m = _
    rw [evalImport, Run.bind_apply, Run.mapError, hexports]
    rfl
  refine ⟨_, hends, ?_⟩
  rcases import_merges_or_fails hends with h | h
  · obtain ⟨cause, hcause, -⟩ := h.cause
    cases hcause
  · exact h

end Eval

end ModularLisp
