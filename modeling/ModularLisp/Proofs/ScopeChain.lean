import ModularLisp.Proofs.Confinement

/-!
# ModularLisp.Proofs.ScopeChain

**Well-formed stores and the way outwards.** A store is *well-formed* if every scope lies in
an older one or in none, every closure that is bound somewhere has captured a scope that
exists, and no scope exports a name twice: in other words if it lies in the realm of all there
is (`Realm.whole`).

A name is looked up scope by scope outwards (`Store.Finds`). The relation has no bound on how
far that goes and no rule for a way that does not end, so in an arbitrary store nothing may
come of it; in a well-formed one the way outwards ends in a scope that lies in none, and
`Store.lookup` is what comes of it (`Store.WellFormed.finds_iff`). What closures have captured
does not matter, although they may be bound in the very scope that they captured.
-/

namespace ModularLisp

/-! ### The realm of all there is -/

/-- Any names, any numbers and every scope that exists. -/
def Realm.whole : Realm where
  names := anyName
  numbers _ := True
  base := 0

/-- A plain expression is of every realm that has its names and all numbers. -/
theorem Expr.Inside.of_plain {R : Realm} {n : Nat} (hnumbers : ∀ x, R.numbers x) {e : Expr}
    (h : e.Plain R.names) : e.Inside R n := by
  induction h with
  | symbol hname => exact .symbol hname
  | number value => exact .number (hnumbers value)
  | string content => exact .string content
  | list _ ih => exact .list ih

theorem Realm.reads_whole : Realm.whole.Reads where
  prelude b hb := by
    simp only [Store.preludeBindings, List.mem_cons, List.not_mem_nil, or_false] at hb
    rcases hb with rfl | rfl
    · exact .symbol trivial
    · exact .symbol trivial
  parsed _ _ h e he := .of_plain (fun _ => trivial) (plain_of_parse h e he)

/-- Every scope lies in an older one or in none, has distinct exports and binds nothing that
has captured a scope that does not exist. -/
def Store.WellFormed (st : Store) : Prop :=
  st.Inside .whole

theorem Store.wellFormed_empty : Store.empty.WellFormed := by
  refine ⟨Nat.zero_le _, fun id s _ hs => ?_⟩
  rw [Store.get?_of_le (Nat.zero_le _)] at hs
  cases hs

/-! ### The way outwards -/

/-- Looking for the name from the scope `id` outwards ends with the result: the value in the
first scope that binds the name, or nothing if a scope is reached that lies in none. -/
inductive Store.Finds (st : Store) (name : String) : ScopeId → Option Expr → Prop
  | here {id : ScopeId} {s : Scope} {v : Expr} :
      st.get? id = some s → s.get? name = some v → Finds st name id (some v)
  | around {id o : ScopeId} {s : Scope} {r : Option Expr} :
      st.get? id = some s → s.get? name = none → s.outer = some o → Finds st name o r →
        Finds st name id r
  | nowhere {id : ScopeId} {s : Scope} :
      st.get? id = some s → s.get? name = none → s.outer = none → Finds st name id none

namespace Store

variable {st : Store} {name : String} {id : ScopeId}

/-- There is one result at most. -/
theorem Finds.unique {r₁ r₂ : Option Expr} (h₁ : st.Finds name id r₁)
    (h₂ : st.Finds name id r₂) : r₁ = r₂ := by
  induction h₁ with
  | here hs hv =>
      cases h₂ with
      | here hs' hv' => simp_all
      | around hs' hnone' | nowhere hs' hnone' => simp_all
  | around hs hnone ho _ ih =>
      cases h₂ with
      | here hs' hv' => simp_all
      | around hs' hnone' ho' h₂ =>
          obtain rfl := Option.some.inj (hs.symm.trans hs')
          obtain rfl := Option.some.inj (ho.symm.trans ho')
          exact ih h₂
      | nowhere hs' hnone' ho' => simp_all
  | nowhere hs hnone ho =>
      cases h₂ with
      | here hs' hv' => simp_all
      | around hs' hnone' ho' => simp_all
      | nowhere => rfl

/-- In a well-formed store the way outwards comes to an end, from every scope and for every
name, and the end is what is looked up. -/
theorem WellFormed.finds_lookup (h : st.WellFormed) (hid : id.index < st.size) :
    st.Finds name id (st.lookup id name) := by
  fun_induction Store.lookup st id name with
  | case1 id hs =>
      obtain ⟨s, hs'⟩ := exists_get?_iff.mpr hid
      rw [hs] at hs'
      cases hs'
  | case2 id s hs value hvalue => exact .here hs hvalue
  | case3 id s hs hnone ho => exact .nowhere hs hnone ho
  | case4 id s hs hnone o ho hlt ih => exact .around hs hnone ho (ih (Nat.lt_trans hlt hid))
  | case5 id s hs hnone o ho hge =>
      exact absurd ((h.scopes id s (Nat.zero_le _) hs).outer o ho).2 hge

theorem WellFormed.finds_iff (h : st.WellFormed) (hid : id.index < st.size)
    {r : Option Expr} : st.Finds name id r ↔ st.lookup id name = r := by
  constructor
  · exact fun hr => (h.finds_lookup hid).unique hr
  · intro hr
    rw [← hr]
    exact h.finds_lookup hid

end Store

end ModularLisp
