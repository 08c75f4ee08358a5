import ModularLisp.Proofs.Equality
import ModularLisp.Proofs.Isolation
import ModularLisp.Proofs.LoadStack
import ModularLisp.Proofs.ReadBack

/-!
# ModularLisp.Proofs.RepeatedImport

**Imports can be repeated and exchanged.** Every import runs the file again, in a new root scope
and in a store that has changed since the last time. It exports the same nevertheless: the runs
differ in the identities of scopes only, and equality does not see those
(`Eval.importExports_again`). The one thing that is not equal to itself, `nan`, does not occur
in what files export, because it has no source text.

So an import that is repeated binds the same names again, to equal values, and two imports bind
the same whichever comes first, unless they bind the same name
(`Eval.imports_repeat_and_commute`). Nothing else happens to the scope between the two moments
that are compared, or to the scopes around it.
-/

namespace ModularLisp

open Files (FileSystem)

namespace Eval

variable {files : FileSystem} {path : String} {scope : ScopeId} {m m' m₁ m₂ : Machine}
  {bindings bs cs : List (String × Expr)}

/-! ### What a file exports -/

/-- Files export no `nan`. -/
theorem not_hasNan_of_importExports
    (h : Ends files (fun ev => importExports files ev path) m (.ok bindings) m') :
    ∀ b ∈ bindings, ¬ b.2.HasNan := by
  intro b hb
  obtain ⟨fuel, h⟩ := h
  have hR := Realm.reads_readable m.store.size
  have hev : ∀ loads {n e scope}, e.Inside (.readable m.store.size) n →
      (Realm.readable m.store.size).Has n scope →
      (Realm.readable m.store.size).Confines n (eval files fuel e scope)
        (evalMoments files fuel loads e scope) (Expr.Inside (.readable m.store.size)) :=
    fun loads {_ _ _} he hs => Realm.eval_confined hR files fuel loads he hs
  obtain ⟨-, -, hbindings⟩ := (Realm.Confines.importExports hev [] hR path).ends _ _ _
    m.store.inside_readable (Nat.le_refl _) h
  exact (hbindings _ rfl b hb).not_hasNan fun _ hx => hx

theorem loading_of_importExports {r : Except ProgramError (List (String × Expr))}
    (h : Ends files (fun ev => importExports files ev path) m r m') : m'.loading = m.loading := by
  obtain ⟨fuel, h⟩ := h
  exact effect_loading.importExports (s := ⟨0⟩) (eval_effect effect_loading files fuel) [] path
    _ _ _ h

/-- Where the same files are being loaded, a file exports the same or fails with the same
error. -/
theorem importExports_again (files : FileSystem) (path : String)
    (hloading : m₁.loading = m₂.loading) :
    SameOutcome files (fun ev => importExports files ev path) m₁
      (fun ev => importExports files ev path) m₂ SameExports fun _ _ => True := by
  have hsame : SameOutcome files (fun ev => importExports files ev path) m₁
      (fun ev => importExports files ev path) m₂
      (Scope.Corresponds.Bindings (newScopes m₁ m₂).rel anyName) (newScopes m₁ m₂).Matches := by
    refine sameOutcome_of_similar (steady_importExports files path) (fun fuel => ?_)
      (Renaming.matches_extend _ _ hloading fun _ _ h => h.elim)
    have hfiles : ∀ path forms, fileForms files path = .ok forms →
        ∀ e ∈ forms, e.Plain anyName := fun _ _ h => plain_of_fileForms h
    exact similar_importExports (fun he hab => eval_similar hfiles fuel he hab) hfiles path
  refine ⟨hsame.both, fun r₁ m₁' r₂ m₂' h₁ h₂ => ⟨?_, trivial⟩⟩
  have hagree := (hsame.agree _ _ _ _ h₁ h₂).1
  cases hagree with
  | error e => exact .error e
  | ok hbc => exact .ok (.of_bindings hbc (not_hasNan_of_importExports h₁))

/-! ### What an import does -/

/-- The import of `path` in the scope succeeds: the file exports these bindings, and the form
gives the empty list and leaves the state `m'`. -/
structure Imported (files : FileSystem) (path : String) (scope : ScopeId) (m : Machine)
    (bindings : List (String × Expr)) (m' : Machine) : Prop where
  exported : ∃ m₁, Ends files (fun ev => importExports files ev path) m (.ok bindings) m₁
  form : Ends files (fun ev => ev (importForm path) scope) m (.ok .empty) m'

theorem ends_importForm
    (h : Ends files (fun ev => importExports files ev path) m (.ok bindings) m₁) :
    Ends files (fun ev => ev (importForm path) scope) m (.ok .empty)
      { m₁ with store := m₁.store.modify scope (·.defineAll bindings) } := by
  rw [← Store.defineEach_eq_modify]
  exact ends_eval_iff.mpr h.evalImport

namespace Imported

/-- The state that is left is known. -/
theorem exists_exports (h : Imported files path scope m bindings m') :
    ∃ m₁, Ends files (fun ev => importExports files ev path) m (.ok bindings) m₁ ∧
      m' = { m₁ with store := m₁.store.modify scope (·.defineAll bindings) } := by
  obtain ⟨m₁, hexports⟩ := h.exported
  obtain ⟨-, hm'⟩ := h.form.unique (steady_eval _ _) (ends_importForm hexports)
  exact ⟨m₁, hexports, hm'⟩

theorem loading_eq (h : Imported files path scope m bindings m') : m'.loading = m.loading := by
  obtain ⟨m₁, hexports, rfl⟩ := h.exists_exports
  have hloading := loading_of_importExports hexports
  exact hloading

/-- The scope binds what the file exports. -/
theorem get?_self (h : Imported files path scope m bindings m') {s : Scope}
    (hs : m.store.get? scope = some s) : m'.store.get? scope = some (s.defineAll bindings) := by
  obtain ⟨m₁, hexports, rfl⟩ := h.exists_exports
  rw [Store.get?_modify_self, same_of_importExports hexports _ _ hs, Option.map_some]

/-- Other scopes stay as they are. -/
theorem get?_of_ne (h : Imported files path scope m bindings m') {i : ScopeId} {s : Scope}
    (hi : i ≠ scope) (hs : m.store.get? i = some s) : m'.store.get? i = some s := by
  obtain ⟨m₁, hexports, rfl⟩ := h.exists_exports
  rw [Store.get?_modify_of_ne hi, same_of_importExports hexports _ _ hs]

/-- The same import succeeds with the same exports in every state in which the same files are
being loaded. -/
theorem again (h : Imported files path scope m bindings m') (hloading : m.loading = m₁.loading) :
    ∃ bindings' m₂, Imported files path scope m₁ bindings' m₂ ∧
      SameExports bindings bindings' := by
  obtain ⟨m₀, hexports⟩ := h.exported
  have hsame := importExports_again files path hloading
  obtain ⟨r, m₂, hends⟩ := hsame.both.mp ⟨_, _, hexports⟩
  cases (hsame.agree _ _ _ _ hexports hends).1 with
  | @ok _ bindings' hbindings =>
      exact ⟨bindings', _, ⟨⟨m₂, hends⟩, ends_importForm hends⟩, hbindings⟩

end Imported

/-! ### The law of repeated imports -/

/-- The scope is alike in two states in which nothing has changed since the state `m` but the
bindings of the scope, and these are equal. -/
theorem alike_of_imports (hm : m.store.WellFormed) (hnan : m.store.FreeOfNan scope)
    {s s₁ s₂ : Scope} (hs : m.store.get? scope = some s)
    (h₁ : ∀ i t, i ≠ scope → m.store.get? i = some t → m₁.store.get? i = some t)
    (h₂ : ∀ i t, i ≠ scope → m.store.get? i = some t → m₂.store.get? i = some t)
    (hs₁ : m₁.store.get? scope = some s₁) (hs₂ : m₂.store.get? scope = some s₂)
    (hexports : s₁.exports = s₂.exports) (houter₁ : s₁.outer = s.outer)
    (houter₂ : s₂.outer = s.outer)
    (hvalues : ∀ name, Scope.sameValue (s₁.get? name) (s₂.get? name) = true) :
    m₁.store.Alike m₂.store scope scope := by
  refine .of_outer hs₁ hs₂ (Scope.sameBindings_iff.mpr hvalues) hexports
    (houter₁.trans houter₂.symm) ?_
  intro o ho
  have hlt := ((hm.scopes _ _ (Nat.zero_le _) hs).outer o (houter₁ ▸ ho)).2
  have hne : ∀ b : ScopeId, b.index ≤ o.index → b ≠ scope := by
    rintro b hb rfl
    omega
  refine Store.alike_of_same hm (Nat.lt_trans hlt (Store.index_lt_of_get? hs))
    (hnan.outer hs (houter₁ ▸ ho)) ?_ ?_
  · exact fun b t hb ht => h₁ b t (hne b hb) ht
  · exact fun b t hb ht => h₂ b t (hne b hb) ht

/-- **Imports can be repeated and exchanged.** A file exports the same names with equal values,
or fails with the same error, in any two states in which the same files are being loaded. So if
no `nan` is bound in a scope of a well-formed store or around it, and two imports succeed
there, then the first one succeeds once more after itself and leaves the scope as it was; the
second succeeds after the first, with equal exports; and if the two bind no common name, the
scope is the same whichever comes first. -/
theorem imports_repeat_and_commute (files : FileSystem) :
    (∀ path m₁ m₂, m₁.loading = m₂.loading →
      SameOutcome files (fun ev => importExports files ev path) m₁
        (fun ev => importExports files ev path) m₂ SameExports fun _ _ => True) ∧
    ∀ (m : Machine) scope, m.store.WellFormed → scope.index < m.store.size →
      m.store.FreeOfNan scope → ∀ p bs m₁, Imported files p scope m bs m₁ →
      (∃ bs' m₂, Imported files p scope m₁ bs' m₂ ∧ SameExports bs bs' ∧
        m₁.store.Alike m₂.store scope scope) ∧
      ∀ q cs n₁, Imported files q scope m cs n₁ →
        ∃ cs' m₂, Imported files q scope m₁ cs' m₂ ∧ SameExports cs cs' ∧
          ((∀ name ∈ bs.map Prod.fst, name ∉ cs.map Prod.fst) →
            ∃ bs' n₂, Imported files p scope n₁ bs' n₂ ∧ SameExports bs bs' ∧
              m₂.store.Alike n₂.store scope scope) := by
  refine ⟨?_, ?_⟩
  · intro path m₁ m₂ hloading
    exact importExports_again files path hloading
  intro m scope hm hscope hnan p bs m₁ hp
  obtain ⟨s, hs⟩ := Store.exists_get?_iff.mpr hscope
  have hself := hnan.sameValue_self hs
  constructor
  · obtain ⟨bs', m₂, hp', hbs⟩ := hp.again hp.loading_eq.symm
    refine ⟨bs', m₂, hp', hbs, ?_⟩
    refine alike_of_imports hm hnan hs (fun i t hi ht => hp.get?_of_ne hi ht)
      (fun i t hi ht => hp'.get?_of_ne hi (hp.get?_of_ne hi ht)) (hp.get?_self hs)
      (hp'.get?_self (hp.get?_self hs)) (by simp) (by simp) (by simp) ?_
    intro name
    refine hbs.sameValue_defineAll fun hname => ?_
    rw [Scope.get?_defineAll_of_not_mem hname]
    exact hself name
  · intro q cs n₁ hq
    obtain ⟨cs', m₂, hq', hcs⟩ := hq.again hp.loading_eq.symm
    refine ⟨cs', m₂, hq', hcs, ?_⟩
    intro hdisjoint
    obtain ⟨bs', n₂, hp', hbs⟩ := hp.again hq.loading_eq.symm
    refine ⟨bs', n₂, hp', hbs, ?_⟩
    refine alike_of_imports hm hnan hs (fun i t hi ht => hq'.get?_of_ne hi (hp.get?_of_ne hi ht))
      (fun i t hi ht => hp'.get?_of_ne hi (hq.get?_of_ne hi ht)) (hq'.get?_self (hp.get?_self hs))
      (hp'.get?_self (hq.get?_self hs)) (by simp) (by simp) (by simp) ?_
    intro name
    -- One of the two files does not export the name, so the other one decides.
    by_cases hname : name ∈ cs.map Prod.fst
    · have hother : name ∉ bs'.map Prod.fst := by
        rw [← hbs.names_eq]
        exact fun h => hdisjoint name h hname
      rw [Scope.get?_defineAll_of_not_mem hother]
      refine hcs.symm.sameValue_defineAll fun h => ?_
      rw [← hcs.names_eq] at h
      exact absurd hname h
    · have hother : name ∉ cs'.map Prod.fst := by rwa [← hcs.names_eq]
      rw [Scope.get?_defineAll_of_not_mem hother]
      refine hbs.sameValue_defineAll fun _ => ?_
      rw [Scope.get?_defineAll_of_not_mem hname]
      exact hself name

/-- Two files of which the first exports a closure that names what the second exports. -/
def twoFiles : FileSystem :=
  ⟨[(["a"], .file "(export f) (def f (fn () x))".toUTF8),
    (["b"], .file "(export x) (def x true)".toUTF8)], []⟩

/-- The scope binds the closure and what it names, whichever is imported first. -/
theorem imports_repeat_and_commute_twoFiles :
    let m : Machine := ⟨Store.empty.addPrelude, []⟩
    ∃ m₁ bs n₁ cs, Imported twoFiles "a" ⟨0⟩ m bs m₁ ∧ Imported twoFiles "b" ⟨0⟩ m cs n₁ ∧
      (∃ bs' m₂, Imported twoFiles "a" ⟨0⟩ m₁ bs' m₂ ∧ m₁.store.Alike m₂.store ⟨0⟩ ⟨0⟩) ∧
      ∃ cs' m₂ bs' n₂, Imported twoFiles "b" ⟨0⟩ m₁ cs' m₂ ∧
        Imported twoFiles "a" ⟨0⟩ n₁ bs' n₂ ∧ m₂.store.Alike n₂.store ⟨0⟩ ⟨0⟩ := by
  intro m
  let f : Expr := .closure [] (.symbol "x") ⟨1⟩
  have hreadA : twoFiles.readText "a" = .ok "(export f) (def f (fn () x))" := by cbv
  have hreadB : twoFiles.readText "b" = .ok "(export x) (def x true)" := by cbv
  have hparseA : parse "(export f) (def f (fn () x))" = .ok
      [Keyword.exporting.form [.symbol "f"], Keyword.define.form [.symbol "f",
        Keyword.function.form [.list (([] : List String).map .symbol), .symbol "x"]]] := by cbv
  have hparseB : parse "(export x) (def x true)" = .ok
      [Keyword.exporting.form [.symbol "x"],
        Keyword.define.form [.symbol "x", .symbol "true"]] := by cbv
  have hlookupA : ((Store.empty.addPrelude.addPrelude.markExported ⟨1⟩ "f").define ⟨1⟩ "f" f).lookup
      ⟨1⟩ "f" = some f := by cbv
  have hlookupB : ((Store.empty.addPrelude.addPrelude.markExported ⟨1⟩ "x").define ⟨1⟩ "x"
      (.symbol "true")).lookup ⟨1⟩ "x" = some (.symbol "true") := by cbv
  have hexportsA : Imports twoFiles "a" m (.ok [("f", f)]) _ :=
    .collects (m := m) (r := .ok [("f", f)]) (by cbv) List.not_mem_nil hreadA hparseA
      (.cons .exports (.cons (.define .function) .nil)) rfl (.bound hlookupA .nil)
  have hexportsB : Imports twoFiles "b" m (.ok [("x", .symbol "true")]) _ :=
    .collects (m := m) (r := .ok [("x", .symbol "true")]) (by cbv) List.not_mem_nil hreadB hparseB
      (.cons .exports (.cons (.define (.bound (by cbv))) .nil)) rfl (.bound hlookupB .nil)
  have himportA : Imported twoFiles "a" ⟨0⟩ m _ _ :=
    ⟨⟨_, ends_of_imports hexportsA⟩, ends_importForm (ends_of_imports hexportsA)⟩
  have himportB : Imported twoFiles "b" ⟨0⟩ m _ _ :=
    ⟨⟨_, ends_of_imports hexportsB⟩, ends_importForm (ends_of_imports hexportsB)⟩
  have hinside : ∀ {R : Realm}, R.Reads → R.base = 0 → m.store.Inside R := by
    intro R hR hbase
    have hempty : Store.empty.Inside R := by
      refine ⟨by rw [hbase]; exact Nat.zero_le _, fun id s _ hs => ?_⟩
      rw [Store.get?_of_le (Nat.zero_le _)] at hs
      cases hs
    have hprelude : R.Confines 0 (Run.addPrelude : Run EvalError _) _ _ := .addPrelude hR
    exact (hprelude.ends .start _ m hempty (Nat.le_refl _) rfl).1
  have hnan : m.store.FreeOfNan ⟨0⟩ :=
    (hinside (Realm.reads_readable 0) rfl).freeOfNan (fun _ hx => hx) (Nat.le_refl _)
  obtain ⟨hrepeat, hcommute⟩ := (imports_repeat_and_commute twoFiles).2 m ⟨0⟩
    (hinside Realm.reads_whole rfl) (by decide) hnan "a" _ _ himportA
  obtain ⟨bs', m₂, hagain, -, halike⟩ := hrepeat
  obtain ⟨cs', m₃, hq, -, hexchange⟩ := hcommute "b" _ _ himportB
  obtain ⟨bs'', n₂, hp, -, halike'⟩ := hexchange (by decide)
  exact ⟨_, _, _, _, himportA, himportB, ⟨bs', m₂, hagain, halike⟩,
    cs', m₃, bs'', n₂, hq, hp, halike'⟩

end Eval

end ModularLisp
