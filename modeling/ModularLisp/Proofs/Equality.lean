import ModularLisp.Proofs.Renaming
import ModularLisp.Proofs.ScopeChain

/-!
# ModularLisp.Proofs.Equality

**Equality of values and of scopes.** Two values are equal if they differ in nothing but the
scopes that closures have captured and hold no `nan` (`Carries.equals_iff`); so a value is
equal to itself unless it holds one.

Two scopes are alike if they bind the same names to equal values, export the same names in the
same order, and lie in scopes that are alike. Nothing in this refers to a store but the scopes
around, so scopes of two stores can be compared, say of a store at two moments
(`Store.Alike`). What does not change between two moments is alike at both, if no `nan` is
bound there (`Store.alike_of_same`).
-/

namespace ModularLisp

/-! ### Values -/

/-- A `nan` occurs in the expression: it is one, or is in a list or the body of a closure. -/
inductive Expr.HasNan : Expr → Prop
  | nan : HasNan (.number .nan)
  | item {items : List Expr} {e : Expr} : e ∈ items → HasNan e → HasNan (.list items)
  | body (params : List String) {body : Expr} (scope : ScopeId) :
      HasNan body → HasNan (.closure params body scope)

theorem Expr.hasNan_list_iff {items : List Expr} :
    (Expr.list items).HasNan ↔ ∃ e ∈ items, e.HasNan := by
  constructor
  · intro h
    cases h with
    | item he hnan => exact ⟨_, he, hnan⟩
  · rintro ⟨e, he, hnan⟩
    exact .item he hnan

theorem Expr.hasNan_closure_iff {params : List String} {body : Expr} {scope : ScopeId} :
    (Expr.closure params body scope).HasNan ↔ body.HasNan := by
  constructor
  · intro h
    cases h with
    | body _ _ hnan => exact hnan
  · exact .body params scope

theorem Expr.hasNan_number_iff {value : Number} :
    (Expr.number value).HasNan ↔ value = .nan := by
  constructor
  · intro h
    cases h
    rfl
  · rintro rfl
    exact .nan

/-- What is made of numbers that are no `nan` holds none. -/
theorem Expr.Inside.not_hasNan {R : Realm} {n : Nat} {e : Expr} (h : e.Inside R n)
    (hR : ∀ x, R.numbers x → x ≠ .nan) : ¬ e.HasNan := by
  induction h with
  | symbol | string => intro h; cases h
  | number hvalue => exact mt hasNan_number_iff.mp (hR _ hvalue)
  | list _ ih =>
      rw [hasNan_list_iff]
      rintro ⟨e, he, hnan⟩
      exact ih e he hnan
  | closure _ _ ih => rwa [hasNan_closure_iff]

namespace Carries

variable {rel : ScopeId → ScopeId → Prop} {names : String → Prop}

mutual

/-- Where every scope stands for itself, so does every expression. -/
theorem refl (hrel : ∀ a, rel a a) : (e : Expr) → Carries rel anyName e e
  | .symbol _ => .symbol trivial
  | .number value => .number value
  | .string content => .string content
  | .list items => list_iff.mpr (refl_items hrel items)
  | .closure _ body scope => .closure (refl hrel body) (hrel scope)

theorem refl_items (hrel : ∀ a, rel a a) :
    (es : List Expr) → List.Forall₂ (Carries rel anyName) es es
  | [] => .nil
  | e :: es => .cons (refl hrel e) (refl_items hrel es)

end

theorem allEqual_iff {es fs : List Expr}
    (h : List.Forall₂ (fun e f : Expr => e.equals f = true ↔ ¬ e.HasNan) es fs) :
    Expr.allEqual es fs = true ↔ ∀ e ∈ es, ¬ e.HasNan := by
  induction h with
  | nil => simp [Expr.allEqual]
  | cons he _ ih => simp [Expr.allEqual, he, ih]

/-- Expressions that differ in captured scopes only are equal unless they hold a `nan`. -/
theorem equals_iff {e f : Expr} (h : Carries rel names e f) :
    e.equals f = true ↔ ¬ e.HasNan := by
  induction h with
  | symbol | string =>
      simp only [Expr.equals, beq_self_eq_true, true_iff]
      intro h
      cases h
  | number value => rw [Expr.equals, Number.equals_self_iff, Expr.hasNan_number_iff]
  | list hlen _ ih =>
      rw [Expr.equals, Expr.hasNan_list_iff,
        allEqual_iff (List.forall₂_iff_zip.mpr ⟨hlen, fun {e f} hef => ih e f hef⟩)]
      simp
  | closure _ _ ih => rw [Expr.equals, Expr.hasNan_closure_iff, ← ih]; simp

end Carries

theorem Expr.equals_self_iff {e : Expr} : e.equals e = true ↔ ¬ e.HasNan := by
  have hself : Carries (fun _ _ => True) anyName e e := .refl (fun _ => trivial) e
  exact hself.equals_iff

/-! ### Scopes -/

namespace Scope

theorem get?_eq_none_of_not_mem {s : Scope} {name : String} (h : name ∉ s.names) :
    s.get? name = none := by
  rw [get?, List.lookup_eq_none_iff]
  intro b hb
  rw [bne_iff_ne]
  rintro rfl
  exact h (List.mem_map_of_mem hb)

theorem sameBindings_iff {s t : Scope} :
    s.sameBindings t = true ↔ ∀ name, sameValue (s.get? name) (t.get? name) = true := by
  rw [sameBindings, List.all_eq_true]
  constructor
  · intro h name
    by_cases hname : name ∈ s.names ++ t.names
    · exact h name hname
    · rw [List.mem_append, not_or] at hname
      rw [get?_eq_none_of_not_mem hname.1, get?_eq_none_of_not_mem hname.2]
      rfl
  · intro h name _
    exact h name

theorem sameValue_self {v? : Option Expr} (h : ∀ v, v? = some v → ¬ v.HasNan) :
    sameValue v? v? = true := by
  cases v? with
  | none => rfl
  | some v => exact Expr.equals_self_iff.mpr (h v rfl)

theorem sameValue_symm {v? w? : Option Expr} (h : sameValue v? w? = true) :
    sameValue w? v? = true := by
  cases v? <;> cases w? <;> simp_all [sameValue, Expr.equals_symm]

theorem sameValue_trans {u? v? w? : Option Expr} (h : sameValue u? v? = true)
    (h' : sameValue v? w? = true) : sameValue u? w? = true := by
  cases u? <;> cases v? <;> cases w? <;> simp_all [sameValue]
  exact Expr.equals_trans h h'

theorem sameBindings_symm {s t : Scope} (h : s.sameBindings t = true) :
    t.sameBindings s = true :=
  sameBindings_iff.mpr fun name => sameValue_symm (sameBindings_iff.mp h name)

theorem sameBindings_trans {s t u : Scope} (h : s.sameBindings t = true)
    (h' : t.sameBindings u = true) : s.sameBindings u = true :=
  sameBindings_iff.mpr fun name =>
    sameValue_trans (sameBindings_iff.mp h name) (sameBindings_iff.mp h' name)

end Scope

/-! ### Lists of bindings -/

/-- The same names in the same order, with equal values. -/
def SameExports : List (String × Expr) → List (String × Expr) → Prop :=
  List.Forall₂ fun b c => b.1 = c.1 ∧ b.2.equals c.2 = true

theorem SameExports.names_eq {bs cs : List (String × Expr)} (h : SameExports bs cs) :
    bs.map Prod.fst = cs.map Prod.fst := by
  induction h with
  | nil => rfl
  | cons hbc _ ih => rw [List.map_cons, List.map_cons, hbc.1, ih]

theorem SameExports.symm {bs cs : List (String × Expr)} (h : SameExports bs cs) :
    SameExports cs bs := by
  induction h with
  | nil => exact .nil
  | cons hbc _ ih => exact .cons ⟨hbc.1.symm, Expr.equals_symm hbc.2⟩ ih

/-- Binding equal values to the same names gives equal values to these names, and to others that
had equal values before. -/
theorem SameExports.sameValue_defineAll {bs cs : List (String × Expr)} (h : SameExports bs cs)
    {s t : Scope} {name : String} (hrest : name ∉ bs.map Prod.fst →
      Scope.sameValue (s.get? name) (t.get? name) = true) :
    Scope.sameValue ((s.defineAll bs).get? name) ((t.defineAll cs).get? name) = true := by
  induction h generalizing s t with
  | nil => exact hrest List.not_mem_nil
  | @cons b c bs cs hbc _ ih =>
      rw [Scope.defineAll_cons, Scope.defineAll_cons]
      refine ih fun hname => ?_
      rw [Scope.get?_define, Scope.get?_define, ← hbc.1]
      split
      · exact hbc.2
      · next hne => exact hrest (by simp [hne, hname])

/-- Bindings that differ in captured scopes only are the same unless they hold a `nan`. -/
theorem SameExports.of_bindings {rel : ScopeId → ScopeId → Prop} {bs cs : List (String × Expr)}
    (h : Scope.Corresponds.Bindings rel anyName bs cs) (hnan : ∀ b ∈ bs, ¬ b.2.HasNan) :
    SameExports bs cs := by
  induction h with
  | nil => exact .nil
  | cons hhead _ ih =>
      rw [List.forall_mem_cons] at hnan
      exact .cons ⟨hhead.1, (hhead.2 trivial).equals_iff.mpr hnan.1⟩ (ih hnan.2)

namespace Store

/-- The scope `a` of the store `st` and the scope `b` of `st'` are alike, scope by scope
outwards: equal bindings, the same exported names in the same order, and scopes around them
that are alike, or none. -/
inductive Alike (st st' : Store) : ScopeId → ScopeId → Prop
  | root {a b : ScopeId} {s t : Scope} : st.get? a = some s → st'.get? b = some t →
      s.sameBindings t = true → s.exports = t.exports → s.outer = none → t.outer = none →
      Alike st st' a b
  | inner {a b o p : ScopeId} {s t : Scope} : st.get? a = some s → st'.get? b = some t →
      s.sameBindings t = true → s.exports = t.exports → s.outer = some o → t.outer = some p →
      Alike st st' o p → Alike st st' a b

/-- Within one well-formed store it is decided whether scopes are alike. -/
theorem alike_iff {st : Store} (hst : st.WellFormed) {a b : ScopeId} :
    st.Alike st a b ↔ st.alike a b = true := by
  constructor
  · intro h
    induction h with
    | root hs ht hbindings hexports ho hp =>
        rw [alike]
        simp [hs, ht, hbindings, hexports, ho, hp]
    | inner hs ht hbindings hexports ho hp _ ih =>
        have hlt := ((hst.scopes _ _ (Nat.zero_le _) hs).outer _ ho).2
        have hlt' := ((hst.scopes _ _ (Nat.zero_le _) ht).outer _ hp).2
        rw [alike]
        simp [hs, ht, hbindings, hexports, ho, hp, hlt, hlt', ih]
  · intro h
    induction hn : a.index using Nat.strongRecOn generalizing a b with
    | _ n ih =>
      subst hn
      rw [alike] at h
      split at h
      · next s t hs ht =>
          simp only [Bool.and_eq_true, beq_iff_eq] at h
          obtain ⟨⟨hbindings, hexports⟩, houter⟩ := h
          split at houter
          · next ho hp => exact .root hs ht hbindings hexports ho hp
          · next o p ho hp =>
              split at houter
              · next hlt =>
                  exact .inner hs ht hbindings hexports ho hp (ih _ hlt.1 houter rfl)
              · cases houter
          · cases houter
      · cases h

/-! ### Scopes at two moments -/

/-- The second scope is the first or one of the scopes around it. -/
inductive Around (st : Store) : ScopeId → ScopeId → Prop
  | here (a : ScopeId) : Around st a a
  | outer {a o b : ScopeId} {s : Scope} : st.get? a = some s → s.outer = some o →
      Around st o b → Around st a b

/-- No `nan` occurs in a value that is bound in the scope or in one of the scopes around it. -/
def FreeOfNan (st : Store) (scope : ScopeId) : Prop :=
  ∀ a s name v, st.Around scope a → st.get? a = some s → s.get? name = some v → ¬ v.HasNan

variable {st st₁ st₂ : Store} {a o : ScopeId} {s s₁ s₂ : Scope}

theorem FreeOfNan.outer (h : st.FreeOfNan a) (hs : st.get? a = some s) (ho : s.outer = some o) :
    st.FreeOfNan o :=
  fun b t name v hb ht hv => h b t name v (.outer hs ho hb) ht hv

theorem FreeOfNan.sameValue_self (h : st.FreeOfNan a) (hs : st.get? a = some s) (name : String) :
    Scope.sameValue (s.get? name) (s.get? name) = true :=
  Scope.sameValue_self fun v hv => h a s name v (.here a) hs hv

/-- A store that lies in a realm without `nan` is free of it in every scope of the realm. -/
theorem Inside.freeOfNan {R : Realm} (h : st.Inside R) (hR : ∀ x, R.numbers x → x ≠ .nan)
    (ha : R.base ≤ a.index) : st.FreeOfNan a := by
  intro b t name v hb ht hv
  induction hb with
  | here a => exact ((h.scopes a t ha ht).values name v hv).not_hasNan hR
  | outer hs ho _ ih => exact ih ((h.scopes _ _ ha hs).outer _ ho).1 ht

/-- Scopes with equal bindings and exports in the same scope, which is alike in both stores, are
alike. -/
theorem Alike.of_outer (hs₁ : st₁.get? a = some s₁) (hs₂ : st₂.get? a = some s₂)
    (hbindings : s₁.sameBindings s₂ = true) (hexports : s₁.exports = s₂.exports)
    (houter : s₁.outer = s₂.outer) (h : ∀ o, s₁.outer = some o → st₁.Alike st₂ o o) :
    st₁.Alike st₂ a a := by
  cases ho : s₁.outer with
  | none => exact .root hs₁ hs₂ hbindings hexports ho (houter ▸ ho)
  | some o => exact .inner hs₁ hs₂ hbindings hexports ho (houter ▸ ho) (h o ho)

/-- A scope is alike at two moments if it and the older ones are still what they were. -/
theorem alike_of_same (hst : st.WellFormed) (ha : a.index < st.size) (hnan : st.FreeOfNan a)
    (h₁ : ∀ b s, b.index ≤ a.index → st.get? b = some s → st₁.get? b = some s)
    (h₂ : ∀ b s, b.index ≤ a.index → st.get? b = some s → st₂.get? b = some s) :
    st₁.Alike st₂ a a := by
  -- The scopes around are older.
  induction hn : a.index using Nat.strongRecOn generalizing a with
  | _ n ih =>
    subst hn
    obtain ⟨s, hs⟩ := exists_get?_iff.mpr ha
    refine .of_outer (h₁ _ _ (Nat.le_refl _) hs) (h₂ _ _ (Nat.le_refl _) hs) ?_ rfl rfl ?_
    · exact Scope.sameBindings_iff.mpr (hnan.sameValue_self hs)
    · intro o ho
      have hlt := ((hst.scopes _ _ (Nat.zero_le _) hs).outer o ho).2
      refine ih o.index hlt (Nat.lt_trans hlt ha) (hnan.outer hs ho) ?_ ?_ rfl
      · exact fun b t hb => h₁ b t (by omega)
      · exact fun b t hb => h₂ b t (by omega)

end Store

end ModularLisp
