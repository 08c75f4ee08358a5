import ModularLisp.Proofs.ImportMerge
import ModularLisp.Proofs.Visibility

/-!
# ModularLisp.Proofs.CollectedExports

**What is collected does not depend on how it came about.** The names that a scope exports are
those that were marked in it, each once, in the order in which they were first marked
(`Store.Becomes.exported_eq`); they have the values that are seen from the scope when they are
collected, and the first that has none is reported. Definitions and marks leave the scopes around
a scope what they are (`Store.Becomes.outers_eq`), so that two histories of the same scopes, with
the same names first marked in the same order and with the same last definitions, lead to the same
exports (`Store.exports_collected_after_history`).
-/

namespace ModularLisp

/-- In a list in which each element is left where it first was, the elements have the order of
their first places. -/
theorem pairwise_idxOf_eraseDups {α : Type} [BEq α] [LawfulBEq α] (as : List α) :
    as.eraseDups.Pairwise fun a b => as.idxOf a < as.idxOf b := by
  induction as using List.reverseRecOn with
  | nil => exact .nil
  | append_singleton as a ih =>
      have hearlier : ∀ b ∈ as.eraseDups, (as ++ [a]).idxOf b = as.idxOf b := fun b hb =>
        List.idxOf_append_of_mem (List.mem_eraseDups.mp hb)
      rw [List.eraseDups_append, List.pairwise_append]
      refine ⟨ih.imp_of_mem fun hb hc hlt => ?_, ?_, fun b hb c hc => ?_⟩
      · rwa [hearlier _ hb, hearlier _ hc]
      · by_cases ha : a ∈ as <;> simp [List.removeAll, ha, List.eraseDups_cons]
      · have hc := List.mem_eraseDups.mp hc
        simp only [List.removeAll, List.mem_filter, List.mem_singleton] at hc
        obtain ⟨rfl, hnew⟩ := hc
        have hnew : c ∉ as := by simpa using hnew
        rw [hearlier b hb, List.idxOf_append_of_notMem hnew]
        exact Nat.lt_of_lt_of_le (List.idxOf_lt_length_of_mem (List.mem_eraseDups.mp hb))
          (Nat.le_add_right ..)

/-- The first failure is what a list of computations fails with. -/
theorem mapM_eq_error_iff {ε α β : Type} {f : α → Except ε β} {as : List α} {e : ε} :
    as.mapM f = .error e ↔ ∃ earlier a later, as = earlier ++ a :: later ∧
      (∀ x ∈ earlier, ∃ b, f x = .ok b) ∧ f a = .error e := by
  induction as with
  | nil =>
      constructor
      · intro h
        cases h
      · rintro ⟨earlier, a, later, heq, -⟩
        cases earlier <;> cases heq
  | cons a as ih =>
      rw [List.mapM_cons]
      cases ha : f a with
      | error e' =>
          constructor
          · intro h
            obtain rfl : e' = e := Except.error.inj h
            exact ⟨[], a, as, rfl, by simp, ha⟩
          · rintro ⟨_ | ⟨x, earlier⟩, a', later, heq, hearlier, hfail⟩
            · cases heq
              cases Except.error.inj (ha.symm.trans hfail)
              rfl
            · cases heq
              obtain ⟨b, hb⟩ := hearlier a (by simp)
              cases ha.symm.trans hb
      | ok b =>
          have hrest : ((Except.ok b : Except ε β) >>= fun b => as.mapM f >>= fun bs =>
              pure (b :: bs)) = .error e ↔ as.mapM f = .error e := by
            cases as.mapM f with
            | ok bs => exact ⟨nofun, nofun⟩
            | error e' => exact Iff.rfl
          rw [hrest, ih]
          constructor
          · rintro ⟨earlier, a', later, rfl, hearlier, hfail⟩
            exact ⟨a :: earlier, a', later, rfl, List.forall_mem_cons.mpr ⟨⟨b, ha⟩, hearlier⟩,
              hfail⟩
          · rintro ⟨_ | ⟨x, earlier⟩, a', later, heq, hearlier, hfail⟩
            · cases heq
              cases ha.symm.trans hfail
            · cases heq
              exact ⟨earlier, a', later, rfl, (List.forall_mem_cons.mp hearlier).2, hfail⟩

theorem mapError_eq_ok_iff {ε δ α : Type} {f : ε → δ} {r : Except ε α} {a : α} :
    r.mapError f = .ok a ↔ r = .ok a := by
  cases r <;> simp [Except.mapError]

theorem mapError_eq_error_iff {ε δ α : Type} {f : ε → δ} {r : Except ε α} {d : δ} :
    r.mapError f = .error d ↔ ∃ e, d = f e ∧ r = .error e := by
  cases r <;> simp [Except.mapError, eq_comm]

namespace Store

variable {st st' : Store} {id : ScopeId} {ids : List ScopeId}

/-! ### The scopes around the scopes -/

/-- What each scope lies in, in order of creation. -/
def outers (st : Store) : List (Option ScopeId) :=
  st.scopes.toList.map Scope.outer

theorem getElem?_outers (st : Store) (id : ScopeId) :
    st.outers[id.index]? = (st.get? id).map Scope.outer := by
  simp [outers, get?]

theorem outers_add (st : Store) (new : Scope) : (st.add new).outers = st.outers ++ [new.outer] := by
  simp [outers, add]

theorem outers_modify {f : Scope → Scope} (hf : ∀ s, (f s).outer = s.outer) (st : Store)
    (i : ScopeId) : (st.modify i f).outers = st.outers := by
  refine List.ext_getElem? fun j => ?_
  rw [getElem?_outers _ ⟨j⟩, getElem?_outers _ ⟨j⟩, get?_modify]
  split
  · next hj =>
      rw [hj, Option.map_map]
      congr 1
      exact funext hf
  · rfl

/-- The way outwards is told by the scopes around the scopes. -/
theorem Outwards.of_outers_eq (h : st.Outwards id ids) (heq : st.outers = st'.outers) :
    st'.Outwards id ids := by
  have hstep : ∀ {i s}, st.get? i = some s → ∃ s', st'.get? i = some s' ∧ s'.outer = s.outer := by
    intro i s hs
    have houter : (st'.get? i).map Scope.outer = some s.outer := by
      rw [← getElem?_outers, ← heq, getElem?_outers, hs]
      rfl
    exact Option.map_eq_some_iff.mp houter
  induction h with
  | root hs ho =>
      obtain ⟨s', hs', houter⟩ := hstep hs
      exact .root hs' (houter.trans ho)
  | within hs ho _ ih =>
      obtain ⟨s', hs', houter⟩ := hstep hs
      exact .within hs' (houter.trans ho) ih

/-! ### Collecting -/

/-- The names that a scope exports. -/
def exported (st : Store) (id : ScopeId) : List String :=
  ((st.get? id).map Scope.exports).getD []

/-- What one name is exported with, or the name itself if it has no value. -/
def exportOf (st : Store) (id : ScopeId) (name : String) : Except String (String × Expr) :=
  match st.lookup id name with
  | some value => .ok (name, value)
  | none => .error name

theorem exportedBindings_eq_mapM :
    st.exportedBindings id = (st.exported id).mapM (st.exportOf id) := rfl

theorem exists_exportOf_eq_ok_iff {name : String} :
    (∃ b, st.exportOf id name = .ok b) ↔ ∃ value, st.lookup id name = some value := by
  unfold exportOf
  cases st.lookup id name <;> simp

theorem exportOf_eq_error_iff {n name : String} :
    st.exportOf id n = .error name ↔ n = name ∧ st.lookup id n = none := by
  unfold exportOf
  cases st.lookup id n <;> simp

theorem exportedBindings_eq_ok_iff {bindings : List (String × Expr)} :
    st.exportedBindings id = .ok bindings ↔
      bindings.map Prod.fst = st.exported id ∧ ∀ b ∈ bindings, st.lookup id b.1 = some b.2 := by
  constructor
  · intro h
    cases hs : st.get? id with
    | none =>
        rw [exportedBindings, hs] at h
        obtain rfl := Except.ok.inj h
        simp [exported, hs]
    | some s =>
        rw [exported, hs]
        exact exportedBindings_ok hs h
  · rintro ⟨hnames, hvalues⟩
    rw [exportedBindings_eq_mapM, ← hnames]
    clear hnames
    induction bindings with
    | nil => rfl
    | cons b bindings ih =>
        rw [List.forall_mem_cons] at hvalues
        rw [List.map_cons, List.mapM_cons, ih hvalues.2, exportOf, hvalues.1]
        rfl

theorem exportedBindings_eq_error_iff {name : String} :
    st.exportedBindings id = .error name ↔
      ∃ earlier later, st.exported id = earlier ++ name :: later ∧
        (∀ n ∈ earlier, ∃ value, st.lookup id n = some value) ∧ st.lookup id name = none := by
  rw [exportedBindings_eq_mapM, mapM_eq_error_iff]
  simp only [exists_exportOf_eq_ok_iff, exportOf_eq_error_iff]
  constructor
  · rintro ⟨earlier, n, later, heq, hearlier, rfl, hnone⟩
    exact ⟨earlier, later, heq, hearlier, hnone⟩
  · rintro ⟨earlier, later, heq, hearlier, hnone⟩
    exact ⟨earlier, name, later, heq, hearlier, rfl, hnone⟩

/-- The exports can be collected when all exported names have a value. -/
theorem exists_exportedBindings_iff : (∃ bindings, st.exportedBindings id = .ok bindings) ↔
    ∀ name ∈ st.exported id, ∃ value, st.lookup id name = some value := by
  constructor
  · rintro ⟨bindings, h⟩ name hname
    obtain ⟨hnames, hvalues⟩ := exportedBindings_eq_ok_iff.mp h
    rw [← hnames] at hname
    obtain ⟨b, hb, rfl⟩ := List.mem_map.mp hname
    exact ⟨b.2, hvalues b hb⟩
  · intro h
    cases hr : st.exportedBindings id with
    | ok bindings => exact ⟨bindings, rfl⟩
    | error name =>
        obtain ⟨earlier, later, heq, -, hnone⟩ := exportedBindings_eq_error_iff.mp hr
        obtain ⟨value, hvalue⟩ := h name (by simp [heq])
        cases hnone.symm.trans hvalue

/-- What is collected depends on the exported names and what they stand for. -/
theorem exportedBindings_congr (hnames : st'.exported id = st.exported id)
    (hvalues : ∀ name ∈ st.exported id, st'.lookup id name = st.lookup id name) :
    st'.exportedBindings id = st.exportedBindings id := by
  cases hr : st.exportedBindings id with
  | ok bindings =>
      obtain ⟨hfst, hbound⟩ := exportedBindings_eq_ok_iff.mp hr
      refine exportedBindings_eq_ok_iff.mpr ⟨hfst.trans hnames.symm, fun b hb => ?_⟩
      rw [hvalues b.1 (hfst ▸ List.mem_map_of_mem hb)]
      exact hbound b hb
  | error name =>
      obtain ⟨earlier, later, heq, hearlier, hnone⟩ := exportedBindings_eq_error_iff.mp hr
      refine exportedBindings_eq_error_iff.mpr
        ⟨earlier, later, hnames.trans heq, fun n hn => ?_, ?_⟩
      · rw [hvalues n (by simp [heq, hn])]
        exact hearlier n hn
      · rw [hvalues name (by simp [heq])]
        exact hnone

end Store

/-! ### What a history leaves -/

namespace Change

/-- What a scope that is made lies in. -/
def enclosure? : Change → Option (Option ScopeId)
  | enclose outer => some outer
  | _ => none

/-- The name that a change marks in a scope, if it does. -/
def marked? (scope : ScopeId) : Change → Option String
  | markExported s name => if s = scope then some name else none
  | _ => none

theorem marked?_eq_some_iff {scope : ScopeId} {c : Change} {name : String} :
    c.marked? scope = some name ↔ c = .markExported scope name := by
  cases c with
  | enclose | define => simp [marked?]
  | markExported s n => simp [marked?]

theorem outers_after (st : Store) (c : Change) :
    (c.after st).outers = st.outers ++ c.enclosure?.toList := by
  cases c with
  | enclose outer => exact st.outers_add _
  | define scope name value =>
      exact (Store.outers_modify (fun s => s.outer_define name value) st scope).trans
        (List.append_nil _).symm
  | markExported scope name =>
      exact (Store.outers_modify (fun s => s.outer_markExported name) st scope).trans
        (List.append_nil _).symm

theorem exported_after {st : Store} {c : Change} (hfits : c.Fits st) (i : ScopeId) :
    (c.after st).exported i = (c.marked? i).toList.foldl mark (st.exported i) := by
  cases c with
  | enclose outer =>
      unfold Store.exported
      rw [after, Store.addEmpty, Store.get?_add]
      split
      · next hi => rw [hi, Store.get?_nextId]; rfl
      · rfl
  | define scope name value =>
      unfold Store.exported
      rw [after, Store.define, Store.get?_modify]
      split
      · next hi => rw [hi, Option.map_map]; rfl
      · rfl
  | markExported scope name =>
      obtain ⟨s, hs⟩ := Store.exists_get?_iff.mpr hfits
      unfold Store.exported
      rw [after, Store.markExported, Store.get?_modify, marked?]
      by_cases hi : i = scope
      · rw [if_pos hi, if_pos hi.symm, hi, hs]
        exact s.exports_markExported name
      · rw [if_neg hi, if_neg (Ne.symm hi)]
        rfl

end Change

/-- What the scopes of a history lie in, in order of creation. -/
def enclosures (history : List Change) : List (Option ScopeId) :=
  history.filterMap Change.enclosure?

/-- The names that are marked in a scope, one after the other. -/
def marks (history : List Change) (scope : ScopeId) : List String :=
  history.filterMap (Change.marked? scope)

theorem mem_marks {history : List Change} {scope : ScopeId} {name : String} :
    name ∈ marks history scope ↔ .markExported scope name ∈ history := by
  simp [marks, Change.marked?_eq_some_iff]

namespace Store.Becomes

variable {st st' : Store} {history : List Change}

theorem outers_eq (h : st.Becomes history st') : st'.outers = st.outers ++ enclosures history := by
  induction h with
  | nil => exact (List.append_nil _).symm
  | @cons st st' c history _ _ ih =>
      rw [ih, Change.outers_after, List.append_assoc, enclosures, enclosures, List.filterMap_cons]
      cases c.enclosure? <;> rfl

/-- To the exported names those are added that are marked. -/
theorem exported_eq (h : st.Becomes history st') (i : ScopeId) :
    st'.exported i = (marks history i).foldl mark (st.exported i) := by
  induction h with
  | nil => rfl
  | @cons st st' c history hfits _ ih =>
      rw [ih, Change.exported_after hfits, marks, marks, List.filterMap_cons]
      cases c.marked? i <;> rfl

/-- The exported names are those that were marked, each where it was marked first. -/
theorem exported_eq_marks (h : empty.Becomes history st) (i : ScopeId) :
    st.exported i = (marks history i).eraseDups :=
  (h.exported_eq i).trans (foldl_mark_nil _)

theorem lookup_eq_lastDefinition? (h : empty.Becomes history st) {id : ScopeId}
    {ids : List ScopeId} (hids : st.Outwards id ids) (name : String) :
    st.lookup id name = ids.findSome? (lastDefinition? history · name) := by
  rw [h.lookup_eq wellFormed_empty.nested hids]
  exact findSome?_congr fun i _ => Option.or_none ..

/-- Histories of the same scopes that mark the same names first in the same order, and define the
same values last, lead to the same exports. -/
theorem exportedBindings_eq {history' : List Change} {id : ScopeId}
    (h : empty.Becomes history st) (h' : empty.Becomes history' st')
    (henclosures : enclosures history' = enclosures history)
    (hmarks : (marks history' id).eraseDups = (marks history id).eraseDups)
    (hlast : ∀ ids, st.Outwards id ids → ∀ i ∈ ids, ∀ name ∈ (marks history id).eraseDups,
      lastDefinition? history' i name = lastDefinition? history i name) :
    st'.exportedBindings id = st.exportedBindings id := by
  refine exportedBindings_congr ?_ fun name hname => ?_
  · rw [h'.exported_eq_marks, h.exported_eq_marks, hmarks]
  by_cases hid : id.index < st.size
  · obtain ⟨ids, hids⟩ := (h.nested wellFormed_empty.nested).exists_outwards hid
    have houters : st.outers = st'.outers := by
      rw [h.outers_eq, h'.outers_eq, henclosures]
    rw [h'.lookup_eq_lastDefinition? (hids.of_outers_eq houters),
      h.lookup_eq_lastDefinition? hids]
    rw [h.exported_eq_marks] at hname
    exact findSome?_congr fun i hi => hlast ids hids i hi name hname
  · -- A scope that was never made exports nothing.
    rw [exported, get?_of_le (Nat.le_of_not_lt hid)] at hname
    cases hname

end Store.Becomes

namespace Store

/-- **The exports after any history** of scopes made, names defined and names marked, in any order
and in any scopes. The exported names of a scope are those ever marked in it, each once, in the
order in which they were first marked. They can be collected exactly if all of them have a value
as seen from the scope; then each is listed with this value, which is the last one defined for it
in the nearest scope outwards in which one ever was. Otherwise the first of them that has no value
is reported as unbound. So another history of the same scopes leads to the same exports, if it
first marks the same names in the same order and defines the same values last for them in the
scopes outwards: neither what was marked in other scopes or again, nor earlier values, nor the
order of definitions and marks among each other, matters. -/
theorem exports_collected_after_history {history : List Change} {st : Store}
    (h : empty.Becomes history st) (id : ScopeId) :
    let names := (marks history id).eraseDups
    let collected := (st.exportedBindings id).mapError EvalError.unboundSymbol
    (∀ name, name ∈ names ↔ .markExported id name ∈ history) ∧
    names.Pairwise (fun n m => (marks history id).idxOf n < (marks history id).idxOf m) ∧
    ((∃ bindings, collected = .ok bindings) ↔
      ∀ name, .markExported id name ∈ history → ∃ value, st.lookup id name = some value) ∧
    (∀ bindings, collected = .ok bindings ↔
      bindings.map Prod.fst = names ∧ ∀ b ∈ bindings, st.lookup id b.1 = some b.2) ∧
    (∀ e, collected = .error e ↔ ∃ earlier name later, e = .unboundSymbol name ∧
      names = earlier ++ name :: later ∧
      (∀ n ∈ earlier, ∃ value, st.lookup id n = some value) ∧ st.lookup id name = none) ∧
    (∀ ids, st.Outwards id ids → ∀ name,
      st.lookup id name = ids.findSome? (lastDefinition? history · name)) ∧
    ∀ history' st', empty.Becomes history' st' → enclosures history' = enclosures history →
      (marks history' id).eraseDups = names →
      (∀ ids, st.Outwards id ids → ∀ i ∈ ids, ∀ name ∈ names,
        lastDefinition? history' i name = lastDefinition? history i name) →
      st'.exportedBindings id = st.exportedBindings id := by
  intro names collected
  have hnames : st.exported id = names := h.exported_eq_marks id
  have hmem : ∀ name, name ∈ names ↔ .markExported id name ∈ history := fun name =>
    List.mem_eraseDups.trans mem_marks
  refine ⟨hmem, pairwise_idxOf_eraseDups _, ?_, fun bindings => ?_, fun e => ?_,
    fun ids hids => h.lookup_eq_lastDefinition? hids,
    fun history' st' h' => h.exportedBindings_eq h'⟩
  · simp only [collected, mapError_eq_ok_iff, exists_exportedBindings_iff, hnames]
    exact forall_congr' fun name => imp_congr_left (hmem name)
  · rw [mapError_eq_ok_iff, exportedBindings_eq_ok_iff, hnames]
  · rw [mapError_eq_error_iff]
    simp only [exportedBindings_eq_error_iff, hnames]
    constructor
    · rintro ⟨name, rfl, earlier, later, hfirst⟩
      exact ⟨earlier, name, later, rfl, hfirst⟩
    · rintro ⟨earlier, name, later, rfl, hfirst⟩
      exact ⟨name, rfl, earlier, later, hfirst⟩

/-- The scope `1` exports `b` and `a`. While `b` has no value that is reported. When `b` is
defined around it and `a` in it, both are collected, `b` first; and so they are when they were
defined before, `a` more than once, and marked afterwards. -/
theorem exports_collected_after_history_twoOrders :
    let marked : List Change := [.enclose none, .enclose (some ⟨0⟩), .markExported ⟨1⟩ "b",
      .markExported ⟨1⟩ "a", .markExported ⟨0⟩ "c", .markExported ⟨1⟩ "b"]
    let defined : List Change := [.define ⟨1⟩ "a" (.string "v"), .define ⟨0⟩ "b" .empty]
    let other : List Change := [.enclose none, .enclose (some ⟨0⟩), .define ⟨0⟩ "b" .empty,
      .define ⟨1⟩ "a" .empty, .define ⟨1⟩ "a" (.string "v"), .markExported ⟨1⟩ "b",
      .markExported ⟨1⟩ "a"]
    let reach : List Change → Store := List.foldl Change.after empty
    let collected := fun history =>
      ((reach history).exportedBindings ⟨1⟩).mapError EvalError.unboundSymbol
    collected marked = .error (.unboundSymbol "b") ∧
      collected (marked ++ defined) = .ok [("b", .empty), ("a", .string "v")] ∧
      collected other = .ok [("b", .empty), ("a", .string "v")] := by
  intro marked defined other reach collected
  have hmarked : empty.Becomes marked (reach marked) :=
    .cons (by decide) <| .cons (by decide) <| .cons (by decide) <| .cons (by decide) <|
      .cons (by decide) <| .cons (by decide) <| .nil _
  have hdefined : empty.Becomes (marked ++ defined) (reach (marked ++ defined)) :=
    .cons (by decide) <| .cons (by decide) <| .cons (by decide) <| .cons (by decide) <|
      .cons (by decide) <| .cons (by decide) <| .cons (by decide) <| .cons (by decide) <| .nil _
  have hother : empty.Becomes other (reach other) :=
    .cons (by decide) <| .cons (by decide) <| .cons (by decide) <| .cons (by decide) <|
      .cons (by decide) <| .cons (by decide) <| .cons (by decide) <| .nil _
  have hway : (reach (marked ++ defined)).Outwards ⟨1⟩ [⟨1⟩, ⟨0⟩] :=
    .within rfl rfl (.root rfl rfl)
  have hunbound : (reach marked).lookup ⟨1⟩ "b" = none := by
    obtain ⟨-, -, -, -, -, hlookup, -⟩ := exports_collected_after_history hmarked ⟨1⟩
    exact (hlookup [⟨1⟩, ⟨0⟩] (.within rfl rfl (.root rfl rfl)) "b").trans (by cbv)
  obtain ⟨-, -, -, -, herror, -⟩ := exports_collected_after_history hmarked ⟨1⟩
  obtain ⟨-, -, -, hok, -, hlookup, hsame⟩ := exports_collected_after_history hdefined ⟨1⟩
  have hcollected : collected (marked ++ defined) = .ok [("b", .empty), ("a", .string "v")] := by
    refine (hok _).mpr ⟨by decide, List.forall_mem_cons.mpr ⟨?_, List.forall_mem_singleton.mpr ?_⟩⟩
    · exact (hlookup _ hway "b").trans (by cbv)
    · exact (hlookup _ hway "a").trans (by cbv)
  refine ⟨?_, hcollected, ?_⟩
  · exact (herror _).mpr ⟨[], "b", ["a"], rfl, by decide, by simp, hunbound⟩
  · refine Eq.trans ?_ hcollected
    refine congrArg (Except.mapError _) (hsame other _ hother rfl (by decide) ?_)
    intro ids hids i hi name hname
    obtain rfl := hids.unique hway
    have hname : name ∈ ["b", "a"] := hname
    simp only [List.mem_cons, List.not_mem_nil, or_false] at hi hname
    rcases hi with rfl | rfl <;> rcases hname with rfl | rfl <;> cbv

end Store

end ModularLisp
