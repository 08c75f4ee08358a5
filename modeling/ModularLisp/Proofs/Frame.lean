import ModularLisp.Proofs.Effect
import ModularLisp.Proofs.Operation

/-!
# ModularLisp.Proofs.Frame

**The frame of evaluation.** Whatever an expression does, it does to the scope that it
is evaluated in and to scopes that it makes itself: all other scopes stay as they were,
with their bindings, their exports and the scopes around them
(`Store.SameExcept`). This holds of runs that fail as well as of those that give a
value, and closures that escape from a scope do not change it.

So nothing that happens later changes the scope of a call that has returned, or the
root scope of a module that has been loaded, unless it is evaluated in that very scope
(`Course.get?_of_not_mem`).
-/

namespace ModularLisp

namespace Store

/-- Nothing has changed from `st` to `st'` except the scope `id`, which has at least kept
the scope around it, and scopes that were not there before. -/
structure SameExcept (id : ScopeId) (st st' : Store) : Prop where
  other : ∀ {i s}, i ≠ id → st.get? i = some s → st'.get? i = some s
  outer : ∀ {s}, st.get? id = some s → ∃ s', st'.get? id = some s' ∧ s'.outer = s.outer

/-- Every scope that was there is as it was. -/
def Same (st st' : Store) : Prop :=
  ∀ i s, st.get? i = some s → st'.get? i = some s

theorem get?_nextId (st : Store) : st.get? st.nextId = none := by
  simp [get?, nextId]

theorem ne_nextId {st : Store} {i : ScopeId} {s : Scope} (h : st.get? i = some s) :
    i ≠ st.nextId := by
  intro hi
  subst hi
  rw [get?_nextId] at h
  cases h

/-- Adding a scope changes none that was there. -/
theorem get?_add_of_some {st : Store} {i : ScopeId} {s : Scope} (h : st.get? i = some s)
    (new : Scope) : (st.add new).get? i = some s := by
  rw [get?_add, if_neg (ne_nextId h), h]

theorem get?_modify_of_ne {st : Store} {i id : ScopeId} (h : i ≠ id) (f : Scope → Scope) :
    (st.modify id f).get? i = st.get? i := by
  rw [get?_modify, if_neg h]

theorem get?_modify_self (st : Store) (id : ScopeId) (f : Scope → Scope) :
    (st.modify id f).get? id = (st.get? id).map f := by
  rw [get?_modify, if_pos rfl]

namespace SameExcept

variable {id : ScopeId} {st st₁ st₂ st₃ : Store}

theorem refl (id : ScopeId) (st : Store) : SameExcept id st st :=
  ⟨fun _ h => h, fun h => ⟨_, h, rfl⟩⟩

theorem trans (h₁ : SameExcept id st₁ st₂) (h₂ : SameExcept id st₂ st₃) :
    SameExcept id st₁ st₃ := by
  refine ⟨fun hne h => h₂.other hne (h₁.other hne h), fun h => ?_⟩
  obtain ⟨s₂, hs₂, ho₂⟩ := h₁.outer h
  obtain ⟨s₃, hs₃, ho₃⟩ := h₂.outer hs₂
  exact ⟨s₃, hs₃, ho₃.trans ho₂⟩

theorem modify {f : Scope → Scope} (hf : ∀ s, (f s).outer = s.outer) :
    SameExcept id st (st.modify id f) := by
  refine ⟨fun hne h => by rwa [get?_modify_of_ne hne], fun {s} h => ⟨f s, ?_, hf s⟩⟩
  rw [get?_modify_self, h, Option.map_some]

/-- What is done to a scope that has just been added is done to none that was there. -/
theorem of_add {new : Scope} (h : SameExcept st.nextId (st.add new) st₁) : Same st st₁ :=
  fun _ _ hi => h.other (ne_nextId hi) (get?_add_of_some hi new)

end SameExcept

theorem Same.sameExcept {st st' : Store} (h : Same st st') (id : ScopeId) :
    SameExcept id st st' :=
  ⟨fun _ hi => h _ _ hi, fun hs => ⟨_, h _ _ hs, rfl⟩⟩

/-- A change that leaves everything but `id` as it was, whichever scope `id` is, leaves
everything as it was. -/
theorem same_of_forall_sameExcept {st st' : Store} (h : ∀ id, SameExcept id st st') :
    Same st st' := by
  intro i s hs
  refine (h ⟨i.index + 1⟩).other (fun hi => ?_) hs
  have hindex := congrArg ScopeId.index hi
  simp at hindex

end Store

open Files (FileSystem)
open Store (SameExcept Same)

variable {files : FileSystem}

/-! ### One operation -/

/-- Everything evaluation does to the store it does to the scope at hand or to new ones. -/
theorem Eval.effect_sameExcept :
    Effect fun s m _ m' => SameExcept s m.store m'.store where
  refl s m := .refl s m.store
  trans h₁ h₂ := h₁.trans h₂
  begins _ s _ m _ := .refl s m.store
  define _ _ name value := .modify fun s => s.outer_define name value
  exports _ _ _ name := .modify fun s => s.outer_markExported name
  call s h := h.of_add.sameExcept s
  unread s _ _ _ := .refl s _
  load s _ _ _ h := (SameExcept.of_add h).sameExcept s

/-- An operation that ends has changed no scope that was there, except the one it works
in. -/
theorem Operation.get?_of_leads {o : Operation} {m m' : Machine} (h : o.Leads files m m')
    {i : ScopeId} (hi : o.scope? ≠ some i) {s : Scope} (hs : m.store.get? i = some s) :
    m'.store.get? i = some s := by
  obtain ⟨fuel, h⟩ := h
  have hrun : o.Runs → m'.store.get? i = some s := fun hruns => by
    -- If the operation works in no scope, it counts as one that works in another than `i`.
    obtain ⟨j, hj, hne⟩ : ∃ j, (∀ k, o.scope? = some k → j = k) ∧ i ≠ j := by
      cases hsc : o.scope? with
      | none => exact ⟨⟨i.index + 1⟩, by simp, by rintro h; simpa using congrArg ScopeId.index h⟩
      | some j => exact ⟨j, by simp, fun h => hi (by rw [hsc, h])⟩
    exact (Operation.effect Eval.effect_sameExcept hruns hj h).other hne hs
  cases o with
  | newRoot | newProgram | enclose =>
      obtain rfl := Option.some.inj h
      exact Store.get?_add_of_some hs _
  | define scope name value =>
      obtain rfl := Option.some.inj h
      rwa [Store.define, Store.get?_modify_of_ne fun h => hi (by rw [scope?, h])]
  | markExported scope name =>
      obtain rfl := Option.some.inj h
      rwa [Store.markExported, Store.get?_modify_of_ne fun h => hi (by rw [scope?, h])]
  | eval | apply | runForms | evaluateSource | loadProgram | runFile | importExports =>
      exact hrun trivial

/-! ### Courses of operations -/

/-- A scope in which nothing is done stays as it is. -/
theorem Course.get?_of_not_mem {os : List Operation} {m m' : Machine}
    (h : Course files os m m') {i : ScopeId} (hi : ∀ o ∈ os, o.scope? ≠ some i) {s : Scope}
    (hs : m.store.get? i = some s) : m'.store.get? i = some s := by
  induction h with
  | nil m => exact hs
  | cons ho _ ih =>
      rw [List.forall_mem_cons] at hi
      exact ih hi.2 (Operation.get?_of_leads ho hi.1 hs)

/-- The scope `i` is there, and nothing that is done elsewhere changes it from now on. -/
def Settled (files : FileSystem) (i : ScopeId) (m : Machine) : Prop :=
  ∃ s, m.store.get? i = some s ∧ ∀ os m', Course files os m m' →
    (∀ o ∈ os, o.scope? ≠ some i) → m'.store.get? i = some s

theorem settled_of_get? {i : ScopeId} {s : Scope} {m : Machine} (hs : m.store.get? i = some s) :
    Settled files i m :=
  ⟨s, hs, fun _ _ hos hi => hos.get?_of_not_mem hi hs⟩

namespace Eval

/-- The scope of a call is there when the call is over, whatever came of it. -/
theorem Ends.exists_callScope {params : List String} {body : Expr} {captured : ScopeId}
    {arguments : List Expr} {m m' : Machine} {r : Except EvalError Expr}
    (hlen : arguments.length = params.length)
    (h : Ends files (fun ev => apply ev params body captured arguments) m r m') :
    ∃ s, m'.store.get? m.store.nextId = some s ∧ s.outer = some captured := by
  obtain ⟨fuel, h⟩ := h
  simp only [apply, if_pos hlen] at h
  obtain ⟨s', hs', ho⟩ := (eval_effect effect_sameExcept files fuel [] _ _ _ _ _ h).outer
    (by rw [Store.get?_add, if_pos rfl])
  exact ⟨s', hs', by rw [ho, callScope, Scope.outer_defineAll]; rfl⟩

/-- The root scope of a file that was loaded is there, and was not there before. -/
theorem Ends.exists_rootScope {path : String} {m m' : Machine} {root : ScopeId}
    (h : Ends files (fun ev => loadProgram files ev path) m (.ok root) m') :
    m.store.get? root = none ∧ ∃ s, m'.store.get? root = some s ∧ s.outer = none := by
  obtain ⟨fuel, h⟩ := h
  obtain ⟨c, forms, value, m₁, -, -, -, rfl, hrun, rfl⟩ := loadProgram_ok files h
  refine ⟨Store.get?_nextId _, ?_⟩
  have heff := effect_sameExcept.runForms
    (eval_effect effect_sameExcept files fuel) [] forms _ _ _ hrun
  obtain ⟨s', hs', ho⟩ := heff.outer (by rw [store_fileStart, Store.addPrelude, Store.get?_add,
    if_pos rfl])
  exact ⟨s', hs', by rw [ho, Scope.outer_defineAll]; rfl⟩

end Eval

/-! ### The frame law -/

/-- **The frame of evaluation.** For every state, scope and expression: an evaluation
that ends, with a value or with an error, has changed nothing but the scope it took
place in, which still lies in the same scope, and scopes that it made; and applying a
closure has changed no scope that was there. So neither the scope of a call that is over
nor the root scope of a file that has been loaded changes any more, unless something is
done in that very scope. -/
theorem frame_of_evaluation (files : FileSystem) :
    (∀ m e scope r m', Eval.Ends files (fun ev => ev e scope) m r m' →
      SameExcept scope m.store m'.store) ∧
    (∀ m params body captured arguments r m',
      Eval.Ends files (fun ev => Eval.apply ev params body captured arguments) m r m' →
        Same m.store m'.store) ∧
    (∀ m params body captured arguments r m', arguments.length = params.length →
      Eval.Ends files (fun ev => Eval.apply ev params body captured arguments) m r m' →
        Settled files m.store.nextId m') ∧
    (∀ m path root m', Eval.Ends files (fun ev => Eval.loadProgram files ev path) m (.ok root) m' →
      Settled files root m') := by
  refine ⟨?_, ?_, ?_, ?_⟩
  · intro m e scope r m' h
    obtain ⟨fuel, h⟩ := h
    exact Eval.eval_effect Eval.effect_sameExcept files fuel [] e scope _ _ _ h
  · intro m params body captured arguments r m' h
    obtain ⟨fuel, h⟩ := h
    refine Store.same_of_forall_sameExcept fun i => ?_
    exact Eval.effect_sameExcept.apply
      (Eval.eval_effect Eval.effect_sameExcept files fuel) [] _ _ _ _
      _ _ _ h
  · intro m params body captured arguments r m' hlen h
    obtain ⟨s, hs, -⟩ := h.exists_callScope hlen
    exact settled_of_get? hs
  · intro m path root m' h
    obtain ⟨-, s, hs, -⟩ := h.exists_rootScope
    exact settled_of_get? hs

/-- A call that binds `true` has bound it in its own scope only, for good. -/
theorem frame_of_evaluation_shadowing :
    let m : Machine := { Machine.start with store := Machine.start.store.addPrelude }
    let body : Expr := .list [.symbol "def", .symbol "true", .list [.symbol "literal", .symbol "x"]]
    ∃ m', Eval.Ends ⟨[], []⟩ (fun ev => Eval.apply ev ["x"] body ⟨0⟩ [.string "w"]) m
        (.ok .empty) m' ∧ Same m.store m'.store ∧ Settled ⟨[], []⟩ ⟨1⟩ m' := by
  intro m body
  refine ⟨_, ⟨2, rfl⟩, ?_, ?_⟩
  · exact (frame_of_evaluation ⟨[], []⟩).2.1 m ["x"] body ⟨0⟩ [.string "w"] _ _ ⟨2, rfl⟩
  · exact (frame_of_evaluation ⟨[], []⟩).2.2.1 m ["x"] body ⟨0⟩ [.string "w"] _ _ rfl ⟨2, rfl⟩

end ModularLisp
