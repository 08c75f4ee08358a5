import ModularLisp.Proofs.ImportMerge
import ModularLisp.Proofs.PlainForms

/-!
# ModularLisp.Proofs.Realm

**Realms.** A *realm* says what the expressions that a run deals with may be made of: the
names that symbols may have, the numbers there may be, and the scopes that closures may have
captured, which are those from a certain one on, as far as they have been made. A store lies
in a realm (`Store.Inside`) if that is true of everything bound in these scopes, if each of
them lies in an older one of them or in none, and if none exports a name twice.

Scopes before the first one of the realm may hold anything. So a realm can be a whole store,
or what is made from some moment on; and a new scope never lies outside.
-/

namespace ModularLisp

/-- What the expressions of a run may be made of. -/
structure Realm where
  /-- The names that symbols may have. -/
  names : String → Prop
  /-- The numbers there may be. -/
  numbers : Number → Prop
  /-- The index of the first scope of the realm. -/
  base : Nat

/-- The scope is one of the realm and one of the first `n` scopes. -/
def Realm.Has (R : Realm) (n : Nat) (scope : ScopeId) : Prop :=
  R.base ≤ scope.index ∧ scope.index < n

variable {R : Realm} {n k : Nat}

theorem Realm.Has.mono {scope : ScopeId} (h : R.Has n scope) (hnk : n ≤ k) : R.Has k scope :=
  ⟨h.1, Nat.lt_of_lt_of_le h.2 hnk⟩

/-! ### Expressions -/

/-- The expression is made of what the realm has when there are `n` scopes. -/
inductive Expr.Inside (R : Realm) (n : Nat) : Expr → Prop
  | symbol {name : String} : R.names name → Inside R n (.symbol name)
  | number {value : Number} : R.numbers value → Inside R n (.number value)
  | string (content : String) : Inside R n (.string content)
  | list {items : List Expr} : (∀ e ∈ items, Inside R n e) → Inside R n (.list items)
  | closure {params : List String} {body : Expr} {scope : ScopeId} :
      Inside R n body → R.Has n scope → Inside R n (.closure params body scope)

namespace Expr.Inside

/-- Making scopes puts no expression outside. -/
theorem mono {e : Expr} (h : e.Inside R n) (hnk : n ≤ k) : e.Inside R k := by
  induction h with
  | symbol hname => exact .symbol hname
  | number hvalue => exact .number hvalue
  | string content => exact .string content
  | list _ ih => exact .list ih
  | closure _ hscope ih => exact .closure ih (hscope.mono hnk)

theorem list_iff {items : List Expr} :
    (Expr.list items).Inside R n ↔ ∀ e ∈ items, e.Inside R n := by
  constructor
  · intro h
    cases h with
    | list hitems => exact hitems
  · exact .list

theorem closure_iff {params : List String} {body : Expr} {scope : ScopeId} :
    (Expr.closure params body scope).Inside R n ↔ body.Inside R n ∧ R.Has n scope := by
  constructor
  · intro h
    cases h with
    | closure hbody hscope => exact ⟨hbody, hscope⟩
  · exact fun h => .closure h.1 h.2

theorem empty : Expr.empty.Inside R n :=
  list_iff.mpr fun _ he => absurd he List.not_mem_nil

end Expr.Inside

/-! ### Scopes -/

/-- The scope of the identity `id` lies in the realm when there are `n` scopes. -/
structure Scope.Inside (R : Realm) (n : Nat) (id : ScopeId) (s : Scope) : Prop where
  values : ∀ name v, s.get? name = some v → v.Inside R n
  outer : ∀ o, s.outer = some o → R.Has id.index o
  exports : s.exports.Nodup

namespace Scope.Inside

variable {id : ScopeId} {s : Scope}

theorem mono (h : s.Inside R n id) (hnk : n ≤ k) : s.Inside R k id :=
  ⟨fun name v hv => (h.values name v hv).mono hnk, h.outer, h.exports⟩

theorem empty {outer : Option ScopeId} (houter : ∀ o, outer = some o → R.Has id.index o) :
    (Scope.empty outer).Inside R n id := by
  refine ⟨fun name v hv => ?_, houter, List.nodup_nil⟩
  rw [get?_empty] at hv
  cases hv

theorem define (h : s.Inside R n id) (name : String) {value : Expr} (hvalue : value.Inside R n) :
    (s.define name value).Inside R n id := by
  refine ⟨fun m v hv => ?_, h.outer, h.exports⟩
  rw [get?_define] at hv
  split at hv
  · exact Option.some.inj hv ▸ hvalue
  · exact h.values m v hv

theorem defineAll {bindings : List (String × Expr)} (h : s.Inside R n id)
    (hbindings : ∀ b ∈ bindings, b.2.Inside R n) : (s.defineAll bindings).Inside R n id := by
  induction bindings generalizing s with
  | nil => exact h
  | cons b rest ih =>
      rw [List.forall_mem_cons] at hbindings
      rw [defineAll_cons]
      exact ih (h.define b.1 hbindings.1) hbindings.2

theorem markExported (h : s.Inside R n id) (name : String) :
    (s.markExported name).Inside R n id := by
  refine ⟨fun m v hv => ?_, ?_, nodup_exports_markExported h.exports name⟩
  · rw [get?_markExported] at hv
    exact h.values m v hv
  · rw [outer_markExported]
    exact h.outer

/-- The scope of a call lies inside, because its arguments and the scope around it do. -/
theorem callScope (params : List String) {captured : ScopeId} {arguments : List Expr}
    (hcaptured : R.Has n captured) (harguments : ∀ v ∈ arguments, v.Inside R n) :
    (Eval.callScope params captured arguments).Inside R n ⟨n⟩ := by
  have hempty : (Scope.empty (some captured)).Inside R n ⟨n⟩ :=
    empty fun o ho => Option.some.inj ho ▸ hcaptured
  refine hempty.defineAll fun b hb => ?_
  exact harguments b.2 (List.of_mem_zip hb).2

end Scope.Inside

/-! ### Stores -/

/-- How many scopes have been made. -/
def Store.size (st : Store) : Nat :=
  st.nextId.index

/-- The scopes of the realm lie in it. -/
structure Store.Inside (R : Realm) (st : Store) : Prop where
  base_le : R.base ≤ st.size
  scopes : ∀ id s, R.base ≤ id.index → st.get? id = some s → s.Inside R st.size id

namespace Store

variable {st : Store} {id : ScopeId}

@[simp] theorem size_modify (st : Store) (id : ScopeId) (f : Scope → Scope) :
    (st.modify id f).size = st.size := by
  rw [size, nextId_modify, size]

@[simp] theorem size_add (st : Store) (s : Scope) : (st.add s).size = st.size + 1 := by
  rw [size, nextId_add, size]

/-- The scopes that have been made are there. -/
theorem exists_get?_iff : (∃ s, st.get? id = some s) ↔ id.index < st.size := by
  constructor
  · intro h
    obtain ⟨s, hs⟩ := h
    exact index_lt_of_get? hs
  · exact fun h => ⟨_, Array.getElem?_eq_getElem h⟩

namespace Inside

theorem modify (h : st.Inside R) {f : Scope → Scope}
    (hf : ∀ s, s.Inside R st.size id → (f s).Inside R st.size id) :
    (st.modify id f).Inside R := by
  refine ⟨by rw [size_modify]; exact h.base_le, fun i s hi hs => ?_⟩
  rw [size_modify]
  rw [get?_modify] at hs
  split at hs
  · next heq =>
      subst heq
      obtain ⟨s₀, hs₀, rfl⟩ := Option.map_eq_some_iff.mp hs
      exact hf s₀ (h.scopes i s₀ hi hs₀)
  · exact h.scopes i s hi hs

/-- A scope that is added has the identity that comes next. -/
theorem add (h : st.Inside R) {s : Scope} (hs : s.Inside R st.size st.nextId) :
    (st.add s).Inside R := by
  have hle : st.size ≤ (st.add s).size := by rw [size_add]; exact Nat.le_succ _
  refine ⟨Nat.le_trans h.base_le hle, fun i t hi ht => ?_⟩
  rw [get?_add] at ht
  split at ht
  · next heq =>
      subst heq
      exact Option.some.inj ht ▸ hs.mono hle
  · exact (h.scopes i t hi ht).mono hle

theorem has_nextId (h : st.Inside R) (s : Scope) : R.Has (st.add s).size st.nextId := by
  rw [size_add]
  exact ⟨h.base_le, Nat.lt_succ_self _⟩

/-- What is found from a scope of the realm lies inside. -/
theorem lookup (h : st.Inside R) (hid : R.base ≤ id.index) {name : String} {v : Expr}
    (hv : st.lookup id name = some v) : v.Inside R st.size := by
  fun_induction Store.lookup st id name with
  | case2 id s hs value hvalue =>
      exact Option.some.inj hv ▸ (h.scopes id s hid hs).values name value hvalue
  | case4 id s hs hnone o houter hlt ih =>
      exact ih ((h.scopes id s hid hs).outer o houter).1 hv
  | case1 | case3 | case5 => cases hv

theorem exportedBindings (h : st.Inside R) (hid : R.Has st.size id)
    {bindings : List (String × Expr)} (hb : st.exportedBindings id = .ok bindings) :
    ∀ b ∈ bindings, b.2.Inside R st.size := by
  obtain ⟨s, hs⟩ := exists_get?_iff.mpr hid.2
  exact fun b hmem => h.lookup hid.1 ((exportedBindings_ok hs hb).2 b hmem)

end Inside

end Store

end ModularLisp
