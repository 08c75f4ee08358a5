import ModularLisp.Proofs.WellFormed

/-!
# ModularLisp.Proofs.Visibility

**From where a definition is seen.** A name stands for what the nearest scope on the way outwards
binds it to (`Store.lookup_eq_findSome?`). So a definition is seen from all scopes whose way
outwards comes to the defining scope before any other that binds the name
(`Store.SeenFrom`), and from no others; when these scopes were made does not matter, because it
is the way outwards that is asked and not what was found on it before.

What is done to a store one after the other is a list of changes (`Change`). After any of them
a scope binds a name to the last value that was defined for it there, and to what it bound it to
in the beginning if there was none (`Store.Becomes.bound?_eq`).
-/

namespace ModularLisp

namespace Scope

theorem bind_bind (name : String) (v w : Expr) (bindings : List (String × Expr)) :
    bind name w (bind name v bindings) = bind name w bindings := by
  induction bindings with
  | nil => simp [bind]
  | cons b rest ih =>
      obtain ⟨n, u⟩ := b
      by_cases hn : n = name <;> simp [bind, hn, ih]

/-- Of two definitions of one name the second is left. -/
theorem define_define (s : Scope) (name : String) (v w : Expr) :
    (s.define name v).define name w = s.define name w := by
  simp only [define, bind_bind]

end Scope

/-- What is found first depends only on what is found in each place. -/
theorem findSome?_congr {α β : Type} {f g : α → Option β} {as : List α}
    (h : ∀ a ∈ as, f a = g a) : as.findSome? f = as.findSome? g := by
  induction as with
  | nil => rfl
  | cons a as ih =>
      rw [List.forall_mem_cons] at h
      rw [List.findSome?_cons, List.findSome?_cons, h.1, ih h.2]

namespace Store

variable {st st' : Store} {id : ScopeId} {ids : List ScopeId}

/-! ### The way outwards -/

/-- The scopes from `id` outwards, up to one that lies in no other. -/
inductive Outwards (st : Store) : ScopeId → List ScopeId → Prop
  | root {id : ScopeId} {s : Scope} : st.get? id = some s → s.outer = none → Outwards st id [id]
  | within {id o : ScopeId} {s : Scope} {ids : List ScopeId} : st.get? id = some s →
      s.outer = some o → Outwards st o ids → Outwards st id (id :: ids)

/-- Scopes lie in older ones. -/
def Nested (st : Store) : Prop :=
  ∀ id s o, st.get? id = some s → s.outer = some o → o.index < id.index

theorem WellFormed.nested (h : st.WellFormed) : st.Nested :=
  fun id s o hs ho => ((h.scopes id s (Nat.zero_le _) hs).outer o ho).2

theorem WellFormed.addEmpty (h : st.WellFormed) {outer : Option ScopeId}
    (houter : ∀ o ∈ outer, o.index < st.size) : (st.addEmpty outer).WellFormed :=
  h.add (.empty fun o ho => ⟨Nat.zero_le _, houter o ho⟩)

theorem Outwards.unique {ids' : List ScopeId} (h : st.Outwards id ids)
    (h' : st.Outwards id ids') : ids = ids' := by
  induction h generalizing ids' with
  | root hs ho =>
      cases h' with
      | root => rfl
      | within hs' ho' => simp_all
  | within hs ho _ ih =>
      cases h' with
      | root hs' ho' => simp_all
      | within hs' ho' h' =>
          obtain rfl := Option.some.inj (hs.symm.trans hs')
          obtain rfl := Option.some.inj (ho.symm.trans ho')
          rw [ih h']

theorem Nested.exists_outwards (h : st.Nested) (hid : id.index < st.size) :
    ∃ ids, st.Outwards id ids := by
  -- Outwards the scopes get older.
  induction hn : id.index using Nat.strongRecOn generalizing id with
  | _ n ih =>
    subst hn
    obtain ⟨s, hs⟩ := exists_get?_iff.mpr hid
    cases ho : s.outer with
    | none => exact ⟨[id], .root hs ho⟩
    | some o =>
        have hlt := h id s o hs ho
        obtain ⟨ids, hids⟩ := ih o.index hlt (Nat.lt_trans hlt hid) rfl
        exact ⟨id :: ids, .within hs ho hids⟩

theorem Nested.index_le (h : st.Nested) (hids : st.Outwards id ids) :
    ∀ i ∈ ids, i.index ≤ id.index := by
  induction hids with
  | root => simp
  | within hs ho _ ih =>
      have hlt := h _ _ _ hs ho
      refine List.forall_mem_cons.mpr ⟨Nat.le_refl _, fun i hi => ?_⟩
      exact Nat.le_trans (ih i hi) (Nat.le_of_lt hlt)

theorem Outwards.exists_cons (h : st.Outwards id ids) : ∃ further, ids = id :: further := by
  cases h with
  | root => exact ⟨[], rfl⟩
  | within => exact ⟨_, rfl⟩

theorem Outwards.index_lt_size (h : st.Outwards id ids) : id.index < st.size := by
  cases h with
  | root hs => exact index_lt_of_get? hs
  | within hs => exact index_lt_of_get? hs

/-- The way outwards stays what it is while the store grows. -/
theorem Outwards.grows (h : st.Outwards id ids) (hgrows : st.Grows st') :
    st'.Outwards id ids := by
  induction h with
  | root hs ho =>
      obtain ⟨s', hs', hs⟩ := hgrows _ _ hs
      exact .root hs' (hs.outer.trans ho)
  | within hs ho _ ih =>
      obtain ⟨s', hs', hs⟩ := hgrows _ _ hs
      exact .within hs' (hs.outer.trans ho) ih

/-! ### What a scope binds -/

/-- The value that `name` is bound to in the scope `id` itself. -/
def bound? (st : Store) (id : ScopeId) (name : String) : Option Expr :=
  (st.get? id).bind (·.get? name)

/-- A name stands for what the nearest scope outwards binds it to. -/
theorem lookup_eq_findSome? (h : st.Nested) (hids : st.Outwards id ids) (name : String) :
    st.lookup id name = ids.findSome? (st.bound? · name) := by
  induction hids with
  | root hs ho =>
      rw [lookup_of_root hs ho]
      simp [bound?, hs]
  | @within id o s ids hs ho hids ih =>
      rw [lookup, List.findSome?_cons, ← ih]
      have hbound : st.bound? id name = s.get? name := by rw [bound?, hs]; rfl
      simp only [hs, ho, hbound, if_pos (h _ _ _ hs ho)]
      cases s.get? name <;> rfl

theorem bound?_define {scope : ScopeId} (hscope : scope.index < st.size) (name : String)
    (value : Expr) (i : ScopeId) (m : String) : (st.define scope name value).bound? i m =
      if i = scope ∧ m = name then some value else st.bound? i m := by
  obtain ⟨s, hs⟩ := exists_get?_iff.mpr hscope
  by_cases hi : i = scope
  · subst hi
    simp [bound?, define, get?_modify_self, hs, Scope.get?_define]
  · simp [bound?, define, get?_modify_of_ne hi, hi]

theorem bound?_markExported (scope : ScopeId) (name : String) (i : ScopeId) (m : String) :
    (st.markExported scope name).bound? i m = st.bound? i m := by
  unfold bound? markExported
  rw [get?_modify]
  split
  · next hi =>
      subst hi
      cases st.get? i <;> simp
  · rfl

theorem bound?_add (new : Scope) (i : ScopeId) (m : String) :
    (st.add new).bound? i m = if i = st.nextId then new.get? m else st.bound? i m := by
  unfold bound?
  rw [get?_add]
  split <;> rfl

theorem bound?_nextId (m : String) : st.bound? st.nextId m = none := by
  rw [bound?, get?_nextId]
  rfl

/-! ### One definition -/

/-- What `target` binds `name` to is seen from `id`: on the way outwards no scope before `target`
binds the name. -/
def SeenFrom (st : Store) (name : String) (target id : ScopeId) : Prop :=
  ∃ nearer further, st.Outwards id (nearer ++ target :: further) ∧
    ∀ i ∈ nearer, st.bound? i name = none

theorem SeenFrom.index_lt_size {name : String} {target : ScopeId}
    (h : st.SeenFrom name target id) : id.index < st.size := by
  obtain ⟨nearer, further, hids, -⟩ := h
  exact hids.index_lt_size

theorem Nested.modify {f : Scope → Scope} (h : st.Nested) (hf : ∀ s, (f s).outer = s.outer)
    (i : ScopeId) : (st.modify i f).Nested := by
  intro id s o hs ho
  rw [get?_modify] at hs
  split at hs
  · next hi =>
      subst hi
      obtain ⟨s₀, hs₀, rfl⟩ := Option.map_eq_some_iff.mp hs
      exact h id s₀ o hs₀ ((hf s₀).symm.trans ho)
  · exact h id s o hs ho

theorem Nested.add {new : Scope} (h : st.Nested)
    (hnew : ∀ o, new.outer = some o → o.index < st.size) : (st.add new).Nested := by
  intro id s o hs ho
  rw [get?_add] at hs
  split at hs
  · next hid =>
      obtain rfl := Option.some.inj hs
      rw [hid]
      exact hnew o ho
  · exact h id s o hs ho

/-- After a definition the names stand for what is nearest, with the definition among it. -/
theorem lookup_define (h : st.Nested) {scope : ScopeId} (hscope : scope.index < st.size)
    (hids : st.Outwards id ids) (name : String) (value : Expr) (m : String) :
    (st.define scope name value).lookup id m =
      ids.findSome? fun i => if i = scope ∧ m = name then some value else st.bound? i m := by
  have hgrows : st.Grows (st.define scope name value) :=
    .modify (fun s => s.grows_define name value) scope
  have hnested : (st.define scope name value).Nested :=
    h.modify (fun s => s.outer_define name value) scope
  rw [lookup_eq_findSome? hnested (hids.grows hgrows)]
  simp only [bound?_define hscope]

theorem lookup_define_of_seenFrom (h : st.Nested) {scope : ScopeId}
    (hscope : scope.index < st.size) {name : String} (hseen : st.SeenFrom name scope id)
    (value : Expr) : (st.define scope name value).lookup id name = some value := by
  obtain ⟨nearer, further, hids, hnearer⟩ := hseen
  rw [lookup_define h hscope hids]
  clear hids
  induction nearer with
  | nil => simp
  | cons i nearer ih =>
      rw [List.forall_mem_cons] at hnearer
      rw [List.cons_append, List.findSome?_cons, ih hnearer.2, hnearer.1]
      split <;> simp_all

theorem lookup_define_of_not_seenFrom (h : st.Nested) {scope : ScopeId}
    (hscope : scope.index < st.size) (hids : st.Outwards id ids) {name m : String}
    (hnot : ¬ (m = name ∧ st.SeenFrom name scope id)) (value : Expr) :
    (st.define scope name value).lookup id m = st.lookup id m := by
  rw [lookup_define h hscope hids, lookup_eq_findSome? h hids]
  by_cases hm : m = name
  · subst hm
    -- Before the way comes to the defining scope, it comes to one that binds the name.
    have hfirst : ∀ nearer further, ids = nearer ++ scope :: further →
        ∃ i ∈ nearer, st.bound? i m ≠ none := by
      intro nearer further heq
      by_contra hnone
      push Not at hnone
      exact hnot ⟨rfl, nearer, further, heq ▸ hids, hnone⟩
    clear hids hnot
    induction ids with
    | nil => rfl
    | cons i ids ih =>
        have hi : i ≠ scope := by
          rintro rfl
          obtain ⟨_, hmem, -⟩ := hfirst [] ids rfl
          cases hmem
        rw [List.findSome?_cons, List.findSome?_cons, if_neg (fun heq => hi heq.1)]
        cases hb : st.bound? i m with
        | some v => rfl
        | none =>
            refine ih fun nearer further heq => ?_
            obtain ⟨j, hj, hbound⟩ := hfirst (i :: nearer) further (by rw [heq]; rfl)
            rcases List.mem_cons.mp hj with rfl | hj
            · exact absurd hb hbound
            · exact ⟨j, hj, hbound⟩
  · simp only [hm, and_false, if_false]

theorem not_seenFrom_of_not_mem {scope : ScopeId} (hids : st.Outwards id ids)
    (hmem : scope ∉ ids) (name : String) : ¬ st.SeenFrom name scope id := by
  rintro ⟨nearer, further, hids', -⟩
  rw [hids.unique hids'] at hmem
  simp at hmem

/-- A definition is seen from the scope that it is made in. -/
theorem Nested.seenFrom_self (h : st.Nested) (hid : id.index < st.size) (name : String) :
    st.SeenFrom name id id := by
  obtain ⟨ids, hids⟩ := h.exists_outwards hid
  obtain ⟨further, rfl⟩ := hids.exists_cons
  exact ⟨[], further, hids, by simp⟩

/-- No scope is on the way outwards from a scope around it. -/
theorem Nested.not_mem_of_around (h : st.Nested) {further : List ScopeId}
    (hids : st.Outwards id (id :: further)) {around : ScopeId} (haround : around ∈ further)
    (hids' : st.Outwards around ids) : id ∉ ids := by
  intro hmem
  have hle := h.index_le hids' id hmem
  cases hids with
  | root => cases haround
  | within hs ho hfurther =>
      have hlt := h _ _ _ hs ho
      have hle' := h.index_le hfurther around haround
      omega

/-- No scope is on the way outwards from another one that lies in the same. -/
theorem Nested.not_mem_of_beside (h : st.Nested) {sibling : ScopeId} {s s' : Scope}
    (hne : sibling ≠ id) (hs : st.get? id = some s) (hs' : st.get? sibling = some s')
    (houter : s'.outer = s.outer) (hids : st.Outwards sibling ids) : id ∉ ids := by
  cases hids with
  | root => simpa using hne.symm
  | @within _ o s'' ids hs'' ho hids =>
      obtain rfl := Option.some.inj (hs'.symm.trans hs'')
      have hlt := h _ _ _ hs (houter ▸ ho)
      intro hmem
      rcases List.mem_cons.mp hmem with rfl | hmem
      · exact hne rfl
      · have hle := h.index_le hids id hmem
        omega

/-- From the scope of a call all names but those of the parameters are seen as from the scope
that the closure has captured. -/
theorem lookup_callScope_of_not_mem (h : st.Nested) {captured : ScopeId}
    (hcaptured : captured.index < st.size) {params : List String} {name : String}
    (hname : name ∉ params) (arguments : List Expr) :
    (st.add (Eval.callScope params captured arguments)).lookup st.nextId name =
      st.lookup captured name := by
  let call := Eval.callScope params captured arguments
  have houter : call.outer = some captured := Scope.outer_defineAll _ _
  have hcall : call.get? name = none := by
    refine Scope.get?_defineAll_of_not_mem (fun hmem => hname ?_) _
    obtain ⟨b, hb, rfl⟩ := List.mem_map.mp hmem
    exact (List.of_mem_zip hb).1
  have hnested : (st.add call).Nested :=
    h.add fun o ho => Option.some.inj (houter.symm.trans ho) ▸ hcaptured
  obtain ⟨ids, hids⟩ := h.exists_outwards hcaptured
  have hnew : (st.add call).get? st.nextId = some call := by rw [get?_add, if_pos rfl]
  rw [lookup_eq_findSome? hnested (.within hnew houter (hids.grows (.add st call))),
    lookup_eq_findSome? h hids, List.findSome?_cons, bound?_add, if_pos rfl, hcall]
  -- The scopes outwards are older than the scope of the call.
  refine findSome?_congr fun i hi => ?_
  have hle := h.index_le hids i hi
  rw [bound?_add, if_neg]
  rintro rfl
  exact Nat.lt_irrefl _ (Nat.lt_of_le_of_lt hle hcaptured)

end Store

/-! ### Many changes -/

/-- What may be done to a store directly. A scope that is made with bindings, for a program or for
a call, is one that is made without and has them defined. -/
inductive Change
  /-- Make a scope without bindings, inside another or in none. -/
  | enclose (outer : Option ScopeId)
  | define (scope : ScopeId) (name : String) (value : Expr)
  | markExported (scope : ScopeId) (name : String)

namespace Change

/-- The store after a change. -/
def after (st : Store) : Change → Store
  | enclose outer => st.addEmpty outer
  | define scope name value => st.define scope name value
  | markExported scope name => st.markExported scope name

/-- The scope that a change is about exists. -/
def Fits (st : Store) : Change → Prop
  | enclose outer => ∀ o ∈ outer, o.index < st.size
  | define scope _ _ | markExported scope _ => scope.index < st.size

instance (st : Store) (c : Change) : Decidable (c.Fits st) :=
  match c with
  | enclose outer => inferInstanceAs (Decidable (∀ o ∈ outer, o.index < st.size))
  | define scope _ _ | markExported scope _ =>
      inferInstanceAs (Decidable (scope.index < st.size))

/-- The value that a change binds a name to in a scope, if it does. -/
def definition? (scope : ScopeId) (name : String) : Change → Option Expr
  | define s n value => if s = scope ∧ n = name then some value else none
  | _ => none

variable {st : Store} {c : Change}

theorem nested_after (h : st.Nested) (hfits : c.Fits st) : (c.after st).Nested := by
  cases c with
  | enclose outer => exact h.add hfits
  | define scope name value => exact h.modify (fun s => s.outer_define name value) scope
  | markExported scope name => exact h.modify (fun s => s.outer_markExported name) scope

theorem bound?_after (hfits : c.Fits st) (i : ScopeId) (name : String) :
    (c.after st).bound? i name = (c.definition? i name).or (st.bound? i name) := by
  cases c with
  | enclose outer =>
      rw [after, Store.addEmpty, Store.bound?_add]
      split
      · next hi => rw [hi, Scope.get?_empty, Store.bound?_nextId]; rfl
      · rfl
  | define scope n value =>
      rw [after, Store.bound?_define hfits, definition?]
      by_cases h : i = scope ∧ name = n
      · rw [if_pos h, if_pos ⟨h.1.symm, h.2.symm⟩]
        rfl
      · rw [if_neg h, if_neg fun h' => h ⟨h'.1.symm, h'.2.symm⟩]
        rfl
  | markExported scope n => exact Store.bound?_markExported scope n i name

end Change

/-- Changes that were made one after the other, each of them about a scope that existed then. -/
inductive Store.Becomes : Store → List Change → Store → Prop
  | nil (st : Store) : Becomes st [] st
  | cons {st st' : Store} {c : Change} {history : List Change} : c.Fits st →
      Becomes (c.after st) history st' → Becomes st (c :: history) st'

/-- The value that was defined last for a name in a scope, if one was. -/
def lastDefinition? (history : List Change) (scope : ScopeId) (name : String) : Option Expr :=
  (history.filterMap (Change.definition? scope name)).getLast?

theorem lastDefinition?_cons (c : Change) (history : List Change) (scope : ScopeId)
    (name : String) : lastDefinition? (c :: history) scope name =
      (lastDefinition? history scope name).or (c.definition? scope name) := by
  unfold lastDefinition?
  rw [List.filterMap_cons]
  cases c.definition? scope name with
  | none => exact (Option.or_none ..).symm
  | some value =>
      dsimp only
      rw [List.getLast?_cons]
      cases (history.filterMap (Change.definition? scope name)).getLast? <;> rfl

namespace Store.Becomes

variable {st st' : Store} {history : List Change}

theorem nested (h : st.Becomes history st') (hst : st.Nested) : st'.Nested := by
  induction h with
  | nil => exact hst
  | cons hfits _ ih => exact ih (Change.nested_after hst hfits)

/-- A scope binds a name to what was defined last for it there. -/
theorem bound?_eq (h : st.Becomes history st') (i : ScopeId) (name : String) :
    st'.bound? i name = (lastDefinition? history i name).or (st.bound? i name) := by
  induction h with
  | nil => rfl
  | cons hfits _ ih =>
      rw [ih, Change.bound?_after hfits, lastDefinition?_cons, Option.or_assoc]

/-- A name stands for what was defined last for it in the nearest scope in which it was. -/
theorem lookup_eq (h : st.Becomes history st') (hst : st.Nested) {id : ScopeId}
    {ids : List ScopeId} (hids : st'.Outwards id ids) (name : String) :
    st'.lookup id name =
      ids.findSome? fun i => (lastDefinition? history i name).or (st.bound? i name) := by
  rw [lookup_eq_findSome? (h.nested hst) hids]
  simp only [h.bound?_eq]

end Store.Becomes

/-! ### The law of definitions -/

namespace Store

/-- **A definition is seen from where no other is nearer**, and from nowhere else. Every scope
has one way outwards. If it comes to the defining scope before any other that binds the name, the
name stands for the new value; every other name, and every name everywhere else, stands for what
it stood for. So the definition is seen in its own scope and, unless a parameter has its name, in
every call of a closure that has captured a scope from where it is seen, and it is not seen in the
scopes around its own or beside it. A second definition leaves nothing of the first. After any
changes a name stands for what was defined last for it in the nearest scope in which it ever was. -/
theorem definition_seen_unless_nearer {st : Store} (hst : st.WellFormed) {scope : ScopeId}
    (hscope : scope.index < st.size) (name : String) (value : Expr) :
    (∀ id : ScopeId, id.index < st.size → (∃! ids, st.Outwards id ids) ∧ ∀ m,
      (m = name ∧ st.SeenFrom name scope id →
        (st.define scope name value).lookup id m = some value) ∧
      (¬ (m = name ∧ st.SeenFrom name scope id) →
        (st.define scope name value).lookup id m = st.lookup id m)) ∧
    st.SeenFrom name scope scope ∧
    (∀ params captured arguments, name ∉ params → st.SeenFrom name scope captured →
      ((st.define scope name value).add (Eval.callScope params captured arguments)).lookup
        st.nextId name = some value) ∧
    (∀ further, st.Outwards scope (scope :: further) → ∀ around ∈ further, ∀ m,
      (st.define scope name value).lookup around m = st.lookup around m) ∧
    (∀ beside s s', beside ≠ scope → st.get? scope = some s → st.get? beside = some s' →
      s'.outer = s.outer → ∀ m,
      (st.define scope name value).lookup beside m = st.lookup beside m) ∧
    (∀ value', (st.define scope name value).define scope name value' =
      st.define scope name value') ∧
    ∀ history st', st.Becomes history st' → ∀ id ids, st'.Outwards id ids → ∀ m,
      st'.lookup id m =
        ids.findSome? fun i => (lastDefinition? history i m).or (st.bound? i m) := by
  have hnested := hst.nested
  have hunseen : ∀ {id ids}, st.Outwards id ids → scope ∉ ids → ∀ m,
      (st.define scope name value).lookup id m = st.lookup id m := fun hids hmem m =>
    lookup_define_of_not_seenFrom hnested hscope hids
      (fun h => not_seenFrom_of_not_mem hids hmem name h.2) value
  refine ⟨?_, hnested.seenFrom_self hscope name, ?_, ?_, ?_, ?_, ?_⟩
  · intro id hid
    obtain ⟨ids, hids⟩ := hnested.exists_outwards hid
    refine ⟨⟨ids, hids, fun ids' hids' => hids'.unique hids⟩, fun m => ⟨?_, fun hnot => ?_⟩⟩
    · rintro ⟨rfl, hseen⟩
      exact lookup_define_of_seenFrom hnested hscope hseen value
    · exact lookup_define_of_not_seenFrom hnested hscope hids hnot value
  · intro params captured arguments hname hseen
    have hdefined : (st.define scope name value).Nested :=
      hnested.modify (fun s => s.outer_define name value) scope
    have hcaptured : captured.index < (st.define scope name value).size := by
      rw [define, size_modify]
      exact hseen.index_lt_size
    have hcall := lookup_callScope_of_not_mem hdefined hcaptured hname arguments
    rw [define, nextId_modify] at hcall
    exact hcall.trans (lookup_define_of_seenFrom hnested hscope hseen value)
  · intro further hfurther around haround m
    have hle := hnested.index_le hfurther around (List.mem_cons_of_mem _ haround)
    obtain ⟨ids, hids⟩ := hnested.exists_outwards (Nat.lt_of_le_of_lt hle hscope)
    exact hunseen hids (hnested.not_mem_of_around hfurther haround hids) m
  · intro beside s s' hne hs hs' houter m
    obtain ⟨ids, hids⟩ := hnested.exists_outwards (index_lt_of_get? hs')
    exact hunseen hids (hnested.not_mem_of_beside hne hs hs' houter hids) m
  · intro value'
    simp only [define, modify_modify, Scope.define_define]
  · intro history st' h id ids hids m
    exact h.lookup_eq hnested hids m

/-- A definition in a root scope is seen from the scope `3` in it and not from the scope `2`,
between which and the root the scope `1` binds the name. A scope made in `3` afterwards sees what
is defined later in `3`. -/
theorem definition_seen_unless_nearer_twoBranches :
    let made :=
      (((empty.addEmpty none).addEmpty (some ⟨0⟩)).addEmpty (some ⟨1⟩)).addEmpty (some ⟨0⟩)
    let st := made.define ⟨1⟩ "x" (.symbol "near")
    let st' := ((st.define ⟨0⟩ "x" (.symbol "far")).addEmpty (some ⟨3⟩)).define ⟨3⟩ "x" .empty
    st.WellFormed ∧
      (st.define ⟨0⟩ "x" (.symbol "far")).lookup ⟨3⟩ "x" = some (.symbol "far") ∧
      (st.define ⟨0⟩ "x" (.symbol "far")).lookup ⟨2⟩ "x" = some (.symbol "near") ∧
      st'.lookup ⟨4⟩ "x" = some .empty := by
  intro made st st'
  have hmade : made.WellFormed :=
    (((wellFormed_empty.addEmpty (by simp)).addEmpty (by decide)).addEmpty (by decide)).addEmpty
      (by decide)
  have hst : st.WellFormed := hmade.modify fun s hs => hs.define "x" (.symbol trivial)
  have hway₂ : st.Outwards ⟨2⟩ [⟨2⟩, ⟨1⟩, ⟨0⟩] :=
    .within rfl rfl (.within rfl rfl (.root rfl rfl))
  have hway₃ : st.Outwards ⟨3⟩ [⟨3⟩, ⟨0⟩] := .within rfl rfl (.root rfl rfl)
  have hway₄ : st'.Outwards ⟨4⟩ [⟨4⟩, ⟨3⟩, ⟨0⟩] :=
    .within rfl rfl (.within rfl rfl (.root rfl rfl))
  have hseen : st.SeenFrom "x" ⟨0⟩ ⟨3⟩ :=
    ⟨[⟨3⟩], [], hway₃, List.forall_mem_singleton.mpr rfl⟩
  have hunseen : ¬ st.SeenFrom "x" ⟨0⟩ ⟨2⟩ := by
    rintro ⟨nearer, further, hids, hnearer⟩
    have hway := hway₂.unique hids
    rcases nearer with _ | ⟨a, _ | ⟨b, nearer⟩⟩
    · simp at hway
    · simp at hway
    · simp only [List.cons_append, List.cons.injEq] at hway
      have hbound := hnearer b (by simp)
      rw [← hway.2.1] at hbound
      cases hbound
  have hhistory : st.Becomes [.define ⟨0⟩ "x" (.symbol "far"), .enclose (some ⟨3⟩),
      .define ⟨3⟩ "x" .empty] st' :=
    .cons (by decide) (.cons (by decide) (.cons (by decide) (.nil _)))
  have hroot : (⟨0⟩ : ScopeId).index < st.size := by decide
  obtain ⟨hone, -, -, -, -, -, hmany⟩ :=
    definition_seen_unless_nearer hst hroot "x" (.symbol "far")
  refine ⟨hst, ((hone ⟨3⟩ (by decide)).2 "x").1 ⟨rfl, hseen⟩, ?_, ?_⟩
  · exact (((hone ⟨2⟩ (by decide)).2 "x").2 fun h => hunseen h.2).trans (by cbv)
  · exact (hmany _ _ hhistory _ _ hway₄ "x").trans (by cbv)

end Store

end ModularLisp
