import ModularLisp.Proofs.CollectedExports
import ModularLisp.Proofs.Equality
import ModularLisp.Proofs.RuleSteps
import ModularLisp.Proofs.Similarity

/-!
# ModularLisp.Proofs.EqualScopes

**What equality is worth.** Equality of values and of scopes is symmetric and transitive. It fails
to be reflexive in one way only: a value that holds a `nan` differs from itself, and so does a
scope that sees such a value. So whatever is equal to anything is equal to itself
(`Store.Alike.freeOfNan`).

Scopes are compared one by one outwards (`Store.Compares`). That comes to an end where looking up
a name does, because closures are compared without the scopes that they have captured; a closure
may be bound in its own scope. Scopes that are alike answer alike: on the two ways outwards a name
is found at the same distance or not at all (`Store.Alike.lookup`).
-/

namespace ModularLisp

/-! ### Numbers -/

namespace Number

/-- The number is one of the two zeros. -/
def IsZero : Number → Prop
  | finite _ rank => rank.val = 0
  | _ => False

/-- Numeric equality is equality but for `nan` and the two zeros. -/
theorem equals_iff {x y : Number} :
    x.equals y = true ↔ x ≠ nan ∧ y ≠ nan ∧ (x = y ∨ x.IsZero ∧ y.IsZero) := by
  cases x <;> cases y <;> simp [equals, IsZero]
  grind

end Number

theorem Expr.equals_comm (x y : Expr) : x.equals y = y.equals x :=
  Bool.eq_iff_iff.mpr ⟨equals_symm, equals_symm⟩

/-- What is equal to anything holds no `nan`. -/
theorem Expr.not_hasNan_of_equals {x y : Expr} (h : x.equals y = true) : ¬ x.HasNan :=
  equals_self_iff.mp (equals_trans h (equals_symm h))

namespace Scope

theorem sameValue_or {v? v'? w? w'? : Option Expr} (h : sameValue v? w? = true)
    (h' : sameValue v'? w'? = true) : sameValue (v?.or v'?) (w?.or w'?) = true := by
  cases v? <;> cases w? <;> simp_all [sameValue]

/-- Do two scopes hold the same: equal bindings, and the same exported names in the same order? -/
def sameContent (s t : Scope) : Bool :=
  s.sameBindings t && s.exports == t.exports

end Scope

namespace Store

variable {st st' st'' : Store} {a b c : ScopeId} {s t : Scope} {r : Bool}

/-! ### Comparing scopes ends -/

/-- Comparing the scopes `a` and `b` ends with the answer `r`: what they hold is compared and, if
that is the same, the scopes around them. -/
inductive Compares (st : Store) : ScopeId → ScopeId → Bool → Prop
  | differ {a b : ScopeId} {s t : Scope} : st.get? a = some s → st.get? b = some t →
      s.sameContent t = false → Compares st a b false
  | roots {a b : ScopeId} {s t : Scope} : st.get? a = some s → st.get? b = some t →
      s.sameContent t = true → s.outer = none → t.outer = none → Compares st a b true
  /-- One of the two lies in a scope and the other does not. -/
  | uneven {a b : ScopeId} {s t : Scope} : st.get? a = some s → st.get? b = some t →
      s.sameContent t = true → s.outer.isSome ≠ t.outer.isSome → Compares st a b false
  | around {a b o p : ScopeId} {s t : Scope} {r : Bool} : st.get? a = some s →
      st.get? b = some t → s.sameContent t = true → s.outer = some o → t.outer = some p →
      Compares st o p r → Compares st a b r

theorem Nested.alike_eq (h : st.Nested) (hs : st.get? a = some s) (ht : st.get? b = some t) :
    st.alike a b = (s.sameContent t && match s.outer, t.outer with
      | none, none => true
      | some o, some p => st.alike o p
      | _, _ => false) := by
  rw [alike]
  simp only [hs, ht, Scope.sameContent]
  congr 1
  cases ho : s.outer with
  | none => cases t.outer <;> rfl
  | some o =>
      cases hp : t.outer with
      | none => rfl
      | some p => exact if_pos ⟨h _ _ _ hs ho, h _ _ _ ht hp⟩

/-- In a well-formed store every comparison of scopes comes to an end. -/
theorem WellFormed.compares_alike (h : st.WellFormed) (ha : a.index < st.size)
    (hb : b.index < st.size) : st.Compares a b (st.alike a b) := by
  -- The scopes around are older.
  induction hn : a.index using Nat.strongRecOn generalizing a b with
  | _ n ih =>
    subst hn
    obtain ⟨s, hs⟩ := exists_get?_iff.mpr ha
    obtain ⟨t, ht⟩ := exists_get?_iff.mpr hb
    rw [h.nested.alike_eq hs ht]
    cases hcontent : s.sameContent t with
    | false => exact .differ hs ht hcontent
    | true =>
        rw [Bool.true_and]
        cases ho : s.outer with
        | none =>
            cases hp : t.outer with
            | none => exact .roots hs ht hcontent ho hp
            | some p => exact .uneven hs ht hcontent (by simp [ho, hp])
        | some o =>
            cases hp : t.outer with
            | none => exact .uneven hs ht hcontent (by simp [ho, hp])
            | some p =>
                have hlt := h.nested _ _ _ hs ho
                have hlt' := h.nested _ _ _ ht hp
                exact .around hs ht hcontent ho hp
                  (ih o.index hlt (Nat.lt_trans hlt ha) (Nat.lt_trans hlt' hb) rfl)

theorem WellFormed.compares_iff (h : st.WellFormed) (ha : a.index < st.size)
    (hb : b.index < st.size) : st.Compares a b r ↔ st.alike a b = r := by
  constructor
  · intro hr
    clear ha hb
    induction hr with
    | differ hs ht hcontent => rw [h.nested.alike_eq hs ht, hcontent, Bool.false_and]
    | roots hs ht hcontent ho hp => rw [h.nested.alike_eq hs ht, hcontent, ho, hp, Bool.true_and]
    | @uneven a b s t hs ht hcontent hne =>
        rw [h.nested.alike_eq hs ht, hcontent, Bool.true_and]
        cases ho : s.outer <;> cases hp : t.outer <;> simp_all
    | around hs ht hcontent ho hp _ ih =>
        rw [h.nested.alike_eq hs ht, hcontent, ho, hp, Bool.true_and]
        exact ih
  · rintro rfl
    exact h.compares_alike ha hb

/-! ### Symmetry, transitivity and `nan` -/

namespace Alike

theorem symm (h : st.Alike st' a b) : st'.Alike st b a := by
  induction h with
  | root hs ht hbindings hexports ho hp =>
      exact .root ht hs (Scope.sameBindings_symm hbindings) hexports.symm hp ho
  | inner hs ht hbindings hexports ho hp _ ih =>
      exact .inner ht hs (Scope.sameBindings_symm hbindings) hexports.symm hp ho ih

theorem trans (h : st.Alike st' a b) (h' : st'.Alike st'' b c) : st.Alike st'' a c := by
  induction h generalizing c with
  | root hs ht hbindings hexports ho hp =>
      cases h' with
      | root ht' hu hbindings' hexports' hp' hq =>
          obtain rfl := Option.some.inj (ht.symm.trans ht')
          exact .root hs hu (Scope.sameBindings_trans hbindings hbindings')
            (hexports.trans hexports') ho hq
      | inner ht' _ _ _ hp' =>
          obtain rfl := Option.some.inj (ht.symm.trans ht')
          cases hp.symm.trans hp'
  | inner hs ht hbindings hexports ho hp _ ih =>
      cases h' with
      | root ht' _ _ _ hp' =>
          obtain rfl := Option.some.inj (ht.symm.trans ht')
          cases hp.symm.trans hp'
      | inner ht' hu hbindings' hexports' hp' hq houter =>
          obtain rfl := Option.some.inj (ht.symm.trans ht')
          obtain rfl := Option.some.inj (hp.symm.trans hp')
          exact .inner hs hu (Scope.sameBindings_trans hbindings hbindings')
            (hexports.trans hexports') ho hq (ih houter)

/-- No `nan` is seen from a scope that is like any other. -/
theorem freeOfNan (h : st.Alike st' a b) : st.FreeOfNan a := by
  have hhere : ∀ {s t : Scope} {name v}, s.sameBindings t = true → s.get? name = some v →
      ¬ v.HasNan := by
    intro s t name v hbindings hv
    have hsame := Scope.sameBindings_iff.mp hbindings name
    rw [hv] at hsame
    cases hw : t.get? name with
    | none =>
        rw [hw] at hsame
        cases hsame
    | some w =>
        rw [hw] at hsame
        exact Expr.not_hasNan_of_equals hsame
  induction h with
  | root hs _ hbindings _ ho _ =>
      intro i u name v hi hu hv
      cases hi with
      | here =>
          obtain rfl := Option.some.inj (hs.symm.trans hu)
          exact hhere hbindings hv
      | outer hs' ho' =>
          obtain rfl := Option.some.inj (hs.symm.trans hs')
          cases ho.symm.trans ho'
  | inner hs _ hbindings _ ho _ _ ih =>
      intro i u name v hi hu hv
      cases hi with
      | here =>
          obtain rfl := Option.some.inj (hs.symm.trans hu)
          exact hhere hbindings hv
      | outer hs' ho' hi =>
          obtain rfl := Option.some.inj (hs.symm.trans hs')
          obtain rfl := Option.some.inj (ho.symm.trans ho')
          exact ih i u name v hi hu hv

end Alike

theorem WellFormed.alike_self_iff (h : st.WellFormed) (ha : a.index < st.size) :
    st.alike a a = true ↔ st.FreeOfNan a := by
  rw [← alike_iff h]
  exact ⟨Alike.freeOfNan, fun hnan =>
    alike_of_same h ha hnan (fun _ _ _ hs => hs) fun _ _ _ hs => hs⟩

theorem WellFormed.alike_comm (h : st.WellFormed) (a b : ScopeId) :
    st.alike a b = st.alike b a := by
  rw [Bool.eq_iff_iff, ← alike_iff h, ← alike_iff h]
  exact ⟨Alike.symm, Alike.symm⟩

/-! ### Scopes that are alike answer alike -/

theorem Nested.lookup_eq (h : st.Nested) (hs : st.get? a = some s) (name : String) :
    st.lookup a name = (s.get? name).or (s.outer.bind (st.lookup · name)) := by
  rw [lookup]
  simp only [hs]
  cases s.get? name with
  | some v => rfl
  | none =>
      cases ho : s.outer with
      | none => rfl
      | some o => exact if_pos (h _ _ _ hs ho)

namespace Alike

theorem lookup (h : st.Alike st' a b) (hst : st.Nested) (hst' : st'.Nested) (name : String) :
    Scope.sameValue (st.lookup a name) (st'.lookup b name) = true := by
  induction h with
  | root hs ht hbindings _ ho hp =>
      rw [hst.lookup_eq hs, hst'.lookup_eq ht, ho, hp]
      exact Scope.sameValue_or (Scope.sameBindings_iff.mp hbindings name) rfl
  | inner hs ht hbindings _ ho hp _ ih =>
      rw [hst.lookup_eq hs, hst'.lookup_eq ht, ho, hp]
      exact Scope.sameValue_or (Scope.sameBindings_iff.mp hbindings name) ih

theorem exported_eq (h : st.Alike st' a b) : st.exported a = st'.exported b := by
  cases h with
  | root hs ht _ hexports => rw [exported, exported, hs, ht]; exact hexports
  | inner hs ht _ hexports => rw [exported, exported, hs, ht]; exact hexports

theorem exportedBindings (h : st.Alike st' a b) (hst : st.Nested) (hst' : st'.Nested) :
    Renaming.Agree SameExports (st.exportedBindings a) (st'.exportedBindings b) := by
  rw [exportedBindings_eq_mapM, exportedBindings_eq_mapM, ← h.exported_eq]
  refine Renaming.Agree.mapM fun name _ => ?_
  have hsame := h.lookup hst hst' name
  unfold exportOf
  cases hv : st.lookup a name <;> cases hw : st'.lookup b name <;> rw [hv, hw] at hsame
  · exact .error name
  · cases hsame
  · cases hsame
  · exact .ok ⟨rfl, hsame⟩

end Alike

end Store

/-- Names stand for equal values, or are unbound, in scopes that are alike. -/
theorem Eval.symbolValue_alike {m : Machine} {a b : ScopeId} (hm : m.store.Nested)
    (h : m.store.Alike m.store a b) (name : String) :
    ∃ r₁ r₂, symbolValue name a m = some (r₁, m) ∧ symbolValue name b m = some (r₂, m) ∧
      Renaming.Agree (fun v w => v.equals w = true) r₁ r₂ := by
  have hsame := h.lookup hm hm name
  cases hv : m.store.lookup a name <;> cases hw : m.store.lookup b name <;> rw [hv, hw] at hsame
  · exact ⟨_, _, symbolValue_of_none hv, symbolValue_of_none hw, .error _⟩
  · cases hsame
  · cases hsame
  · exact ⟨_, _, symbolValue_of_some hv, symbolValue_of_some hw, .ok hsame⟩

/-! ### The law of equality -/

/-- **Equality of values and scopes.** Numbers are equal if they are the same or both zero, and
none of them is `nan`. Equality of values is symmetric and transitive, and a value is equal to
itself unless it holds a `nan`. The same is true of scopes, in every store that operations lead to
and in every other well-formed one: comparing two scopes ends, with one answer; and a scope is like
itself unless a value that holds a `nan` is bound in it or around it. From scopes that are alike a
name stands for equal values or is unbound, and they export the same names with equal values in the
same order or report the same name. -/
theorem equality_of_values_and_scopes (files : Files.FileSystem) :
    (∀ x y : Number, (Expr.number x).equals (.number y) = true ↔
      x ≠ .nan ∧ y ≠ .nan ∧ (x = y ∨ x.IsZero ∧ y.IsZero)) ∧
    (∀ x y : Expr, x.equals y = y.equals x) ∧
    (∀ x y z : Expr, x.equals y = true → y.equals z = true → x.equals z = true) ∧
    (∀ x : Expr, x.equals x = true ↔ ¬ x.HasNan) ∧
    (∀ answers m, FitCourse files .whole Machine.start answers m → m.store.WellFormed) ∧
    ∀ st : Store, st.WellFormed → ∀ a b : ScopeId, a.index < st.size → b.index < st.size →
      (∀ r, st.Compares a b r ↔ st.alike a b = r) ∧
      st.alike a b = st.alike b a ∧
      (∀ c, st.alike a b = true → st.alike b c = true → st.alike a c = true) ∧
      (st.alike a a = true ↔ st.FreeOfNan a) ∧
      (st.alike a b = true →
        (∀ name loading, ∃ r₁ r₂,
          Eval.symbolValue name a ⟨st, loading⟩ = some (r₁, ⟨st, loading⟩) ∧
          Eval.symbolValue name b ⟨st, loading⟩ = some (r₂, ⟨st, loading⟩) ∧
          Renaming.Agree (fun v w => v.equals w = true) r₁ r₂) ∧
        Renaming.Agree SameExports ((st.exportedBindings a).mapError EvalError.unboundSymbol)
          ((st.exportedBindings b).mapError EvalError.unboundSymbol)) := by
  refine ⟨fun x y => by rw [Expr.equals, Number.equals_iff], Expr.equals_comm,
    fun _ _ _ => Expr.equals_trans, fun _ => Expr.equals_self_iff, ?_, ?_⟩
  · intro answers m h
    exact (h.stays Realm.reads_whole Store.wellFormed_empty).1
  intro st hst a b ha hb
  refine ⟨fun r => hst.compares_iff ha hb, hst.alike_comm a b, ?_, hst.alike_self_iff ha, ?_⟩
  · intro c hab hbc
    rw [← Store.alike_iff hst] at hab hbc ⊢
    exact hab.trans hbc
  · intro hab
    have halike := (Store.alike_iff hst).mpr hab
    refine ⟨fun name loading => Eval.symbolValue_alike hst.nested halike name, ?_⟩
    exact (halike.exportedBindings hst.nested hst.nested).mapError _

/-- Two scopes in one root, each of which binds and exports a closure that has captured it, and a
scope in one of them that binds a `nan`. -/
theorem equality_of_values_and_scopes_selfCapture :
    let self (scope : ScopeId) : Expr := .closure ["x"] (.symbol "f") scope
    let twins := (((Store.empty.addEmpty none).addEmpty (some ⟨0⟩)).addEmpty (some ⟨0⟩)).addEmpty
      (some ⟨2⟩)
    let st := ((((twins.define ⟨1⟩ "f" (self ⟨1⟩)).define ⟨2⟩ "f" (self ⟨2⟩)).markExported ⟨1⟩
      "f").markExported ⟨2⟩ "f").define ⟨3⟩ "n" (.number .nan)
    st.WellFormed ∧ st.Compares ⟨1⟩ ⟨2⟩ true ∧ st.Compares ⟨3⟩ ⟨3⟩ false ∧
      Renaming.Agree SameExports
        ((st.exportedBindings ⟨1⟩).mapError EvalError.unboundSymbol)
        ((st.exportedBindings ⟨2⟩).mapError EvalError.unboundSymbol) := by
  intro self twins st
  have htwins : twins.WellFormed :=
    (((Store.wellFormed_empty.addEmpty (by simp)).addEmpty (by decide)).addEmpty
      (by decide)).addEmpty (by decide)
  have hself : ∀ n (scope : ScopeId), scope.index < n → (self scope).Inside .whole n :=
    fun _ _ h => .closure (.symbol trivial) ⟨Nat.zero_le _, h⟩
  have hst : st.WellFormed :=
    ((((htwins.modify fun s hs => hs.define "f" (hself _ ⟨1⟩ (by decide))).modify fun s hs =>
      hs.define "f" (hself _ ⟨2⟩ (by decide))).modify fun s hs => hs.markExported "f").modify
        fun s hs => hs.markExported "f").modify fun s hs => hs.define "n" (.number trivial)
  obtain ⟨-, -, -, -, -, hscopes⟩ := equality_of_values_and_scopes ⟨[], []⟩
  obtain ⟨hcompares, -, -, -, hanswers⟩ := hscopes st hst ⟨1⟩ ⟨2⟩ (by decide) (by decide)
  obtain ⟨hcompares', -, -, hnan, -⟩ := hscopes st hst ⟨3⟩ ⟨3⟩ (by decide) (by decide)
  have halike : st.alike ⟨1⟩ ⟨2⟩ = true := by cbv
  refine ⟨hst, (hcompares true).mpr halike, ?_, (hanswers halike).2⟩
  refine (hcompares' false).mpr (Bool.eq_false_iff.mpr fun hself => ?_)
  exact hnan.mp hself ⟨3⟩ _ "n" _ (.here _) rfl rfl .nan

end ModularLisp
