import ModularLisp.Proofs.RuleSteps
import ModularLisp.Proofs.Visibility

/-!
# ModularLisp.Proofs.ParameterBinding

**What a call binds.** A call makes one scope, in the scope that the closure has captured, and
then evaluates the body there (`Machine.Opens`). The scope is filled by one definition after the
other, so that of a parameter that is repeated the last one counts (`LastAt`); every other name is
looked up in the captured scope as it is when the call is made. What was bound there when the
closure was made plays no part, because the closure holds the scope and not its bindings.
-/

namespace ModularLisp

/-! ### The last place of a parameter -/

/-- The name is the parameter counted `i` from zero, and none of those that follow. -/
structure LastAt (params : List String) (name : String) (i : Nat) : Prop where
  here : params[i]? = some name
  later : ∀ j, i < j → params[j]? ≠ some name

namespace LastAt

variable {params : List String} {p name : String} {i j : Nat}

theorem unique (hi : LastAt params name i) (hj : LastAt params name j) : i = j := by
  rcases Nat.lt_trichotomy i j with hlt | heq | hlt
  · exact absurd hj.here (hi.later j hlt)
  · exact heq
  · exact absurd hi.here (hj.later i hlt)

theorem zero_iff : LastAt (p :: params) name 0 ↔ p = name ∧ name ∉ params := by
  constructor
  · intro h
    refine ⟨by simpa using h.here, fun hmem => ?_⟩
    obtain ⟨k, hk⟩ := List.mem_iff_getElem?.mp hmem
    exact h.later (k + 1) (Nat.succ_pos k) hk
  · rintro ⟨rfl, hmem⟩
    refine ⟨rfl, fun k hk heq => hmem ?_⟩
    obtain ⟨k, rfl⟩ := Nat.exists_eq_add_one_of_ne_zero (Nat.ne_of_gt hk)
    exact List.mem_of_getElem? heq

theorem succ_iff : LastAt (p :: params) name (i + 1) ↔ LastAt params name i := by
  constructor
  · exact fun h => ⟨h.here, fun k hk => h.later (k + 1) (Nat.succ_lt_succ hk)⟩
  · intro h
    refine ⟨h.here, fun k hk => ?_⟩
    obtain ⟨k, rfl⟩ := Nat.exists_eq_add_one_of_ne_zero (Nat.ne_zero_of_lt hk)
    exact h.later k (Nat.lt_of_succ_lt_succ hk)

/-- Every parameter has a last place. -/
theorem exists_of_mem (h : name ∈ params) : ∃ i, LastAt params name i := by
  induction params with
  | nil => cases h
  | cons p params ih =>
      by_cases hmem : name ∈ params
      · obtain ⟨i, hi⟩ := ih hmem
        exact ⟨i + 1, succ_iff.mpr hi⟩
      · obtain rfl := (List.mem_cons.mp h).resolve_right hmem
        exact ⟨0, zero_iff.mpr ⟨rfl, hmem⟩⟩

end LastAt

/-! ### The scope of a call -/

/-- Of the values that are bound to a repeated name one after the other, the last one stays. -/
theorem Scope.get?_defineAll_zip {params : List String} {arguments : List Expr}
    (hlen : arguments.length = params.length) {name : String} {i : Nat}
    (h : LastAt params name i) (s : Scope) :
    (s.defineAll (params.zip arguments)).get? name = arguments[i]? := by
  induction params generalizing arguments i s with
  | nil => cases h.here
  | cons p params ih =>
      cases arguments with
      | nil => cases hlen
      | cons v arguments =>
          have hrest : arguments.length = params.length := Nat.succ.inj hlen
          rw [List.zip_cons_cons, defineAll_cons]
          cases i with
          | zero =>
              obtain ⟨rfl, hmem⟩ := LastAt.zero_iff.mp h
              have hnot : p ∉ (params.zip arguments).map Prod.fst := by
                rwa [List.map_fst_zip (Nat.le_of_eq hrest.symm)]
              rw [get?_defineAll_of_not_mem hnot, get?_define, if_pos rfl]
              rfl
          | succ i => exact ih hrest (LastAt.succ_iff.mp h) _

/-- From the scope of a call a parameter is seen as the argument at its last place. -/
theorem Store.lookup_callScope_of_lastAt (st : Store) {params : List String}
    {arguments : List Expr} (hlen : arguments.length = params.length) {name : String} {i : Nat}
    (h : LastAt params name i) (captured : ScopeId) :
    (st.add (Eval.callScope params captured arguments)).lookup st.nextId name = arguments[i]? := by
  obtain ⟨hi, -⟩ := List.getElem?_eq_some_iff.mp h.here
  have hbound : (Eval.callScope params captured arguments).get? name = some arguments[i] := by
    rw [Eval.callScope, Scope.get?_defineAll_zip hlen h, List.getElem?_eq_getElem]
  rw [lookup, get?_add, if_pos rfl]
  simp only [hbound]
  exact (List.getElem?_eq_getElem _).symm

/-- The state `m₁` is `m` with one more scope, `call`, that lies in `captured` and exports
nothing. -/
structure Machine.Opens (m : Machine) (captured call : ScopeId) (m₁ : Machine) : Prop where
  new : m.store.get? call = none
  made : ∃ s, m₁.store.get? call = some s ∧ s.outer = some captured ∧ s.exports = []
  others : ∀ i, i ≠ call → m₁.store.get? i = m.store.get? i
  loading : m₁.loading = m.loading

theorem Machine.opens_callScope (m : Machine) (params : List String) (captured : ScopeId)
    (arguments : List Expr) : m.Opens captured m.store.nextId
      { m with store := m.store.add (Eval.callScope params captured arguments) } where
  new := m.store.get?_nextId
  made := by
    refine ⟨Eval.callScope params captured arguments, ?_, ?_, ?_⟩
    · rw [Store.get?_add, if_pos rfl]
    · exact Scope.outer_defineAll _ _
    · exact Scope.exports_defineAll _ _
  others i hi := by rw [Store.get?_add, if_neg hi]
  loading := rfl

namespace Eval

open Files (FileSystem)

theorem apply_of_length_ne {params : List String} {arguments : List Expr}
    (h : arguments.length ≠ params.length) (ev : Evaluator) (body : Expr) (captured : ScopeId)
    (m : Machine) : apply ev params body captured arguments m =
      some (.error (.arityMismatch params.length arguments.length), m) := by
  rw [apply, if_neg h]
  rfl

theorem apply_of_length_eq {params : List String} {arguments : List Expr}
    (h : arguments.length = params.length) (ev : Evaluator) (body : Expr) (captured : ScopeId)
    (m : Machine) : apply ev params body captured arguments m = ev body m.store.nextId
      { m with store := m.store.add (callScope params captured arguments) } := by
  rw [apply, if_pos h]
  rfl

/-! ### The law of calls -/

/-- **A call binds its parameters in a scope of its own.** Let a closure be made in a scope and,
after whatever else has been done, be applied. With more or fewer arguments than parameters nothing
happens but an error that tells both numbers. Otherwise the body is evaluated, whatever that comes
to, in one new scope, which lies in the captured scope and exports nothing. From there every
parameter stands for the argument at its last place, and every other name for what it stands for in
the captured scope when the call is made. -/
theorem call_binds_parameters (files : FileSystem) {m₀ m : Machine} {answers : List Answer}
    {captured : ScopeId} (hm₀ : m₀.store.WellFormed) (hcaptured : captured.index < m₀.store.size)
    (hcourse : FitCourse files .whole m₀ answers m) (params : List String) (body : Expr)
    (arguments : List Expr) :
    Ends files (fun ev => ev (Keyword.function.form [.list (params.map .symbol), body]) captured)
      m₀ (.ok (.closure params body captured)) m₀ ∧
    (arguments.length ≠ params.length → ∀ ev, apply ev params body captured arguments m =
      some (.error (.arityMismatch params.length arguments.length), m)) ∧
    (arguments.length = params.length → ∃ call m₁,
      (∀ ev, apply ev params body captured arguments m = ev body call m₁) ∧
      m.Opens captured call m₁ ∧
      (∀ name ∈ params, ∃ i v, LastAt params name i ∧ arguments[i]? = some v ∧
        m₁.store.lookup call name = some v) ∧
      ∀ name ∉ params, m₁.store.lookup call name = m.store.lookup captured name) := by
  obtain ⟨hm, hle, -⟩ := hcourse.stays Realm.reads_whole hm₀
  refine ⟨⟨1, evalFn_symbols params body captured m₀⟩, ?_, ?_⟩
  · exact fun hlen ev => apply_of_length_ne hlen ev body captured m
  intro hlen
  refine ⟨_, _, fun ev => apply_of_length_eq hlen ev body captured m,
    m.opens_callScope params captured arguments, fun name hname => ?_, fun name hname => ?_⟩
  · obtain ⟨i, hi⟩ := LastAt.exists_of_mem hname
    obtain ⟨hlt, -⟩ := List.getElem?_eq_some_iff.mp hi.here
    have hv : arguments[i]? = some arguments[i] := List.getElem?_eq_getElem _
    exact ⟨i, arguments[i], hi, hv,
      (m.store.lookup_callScope_of_lastAt hlen hi captured).trans hv⟩
  · exact Store.lookup_callScope_of_not_mem (Store.WellFormed.nested hm)
      (Nat.lt_of_lt_of_le hcaptured hle) hname arguments

/-- A parameter that is repeated and one that has the name of a keyword; a name that is defined
anew between the closure and the call. -/
theorem call_binds_parameters_redefined :
    let store := (Store.empty.addEmpty none).define ⟨0⟩ "y" (.string "then")
    let m₀ : Machine := ⟨store, []⟩
    let m : Machine := ⟨store.define ⟨0⟩ "y" (.string "now"), []⟩
    let params := ["x", "def", "x"]
    ∃ call m₁, (∀ ev, apply ev params (.symbol "y") ⟨0⟩ [.string "a", .string "b", .string "c"] m =
        ev (.symbol "y") call m₁) ∧
      m₁.store.lookup call "x" = some (.string "c") ∧
      m₁.store.lookup call "def" = some (.string "b") ∧
      m₀.store.lookup ⟨0⟩ "y" = some (.string "then") ∧
      m₁.store.lookup call "y" = some (.string "now") := by
  intro store m₀ m params
  have hroot : (⟨0⟩ : ScopeId).index < m₀.store.size := by decide
  have hmade : m₀.store.WellFormed :=
    (Store.wellFormed_empty.addEmpty (by simp)).modify fun s hs => hs.define "y" (.string "then")
  have hcourse : FitCourse ⟨[], []⟩ .whole m₀ [.nothing] m :=
    .cons (o := .define ⟨0⟩ "y" (.string "now")) ⟨⟨Nat.zero_le _, hroot⟩, .string "now"⟩ ⟨0, rfl⟩
      (.nil m)
  obtain ⟨-, -, hcall⟩ := call_binds_parameters ⟨[], []⟩ hmade hroot hcourse params (.symbol "y")
    [.string "a", .string "b", .string "c"]
  obtain ⟨call, m₁, happly, -, hbound, hfree⟩ := hcall rfl
  have hlast : ∀ name i, LastAt params name i → m₁.store.lookup call name =
      ([.string "a", .string "b", .string "c"] : List Expr)[i]? := by
    intro name i hi
    obtain ⟨j, v, hj, hv, hlookup⟩ := hbound name (List.mem_of_getElem? hi.here)
    rw [hi.unique hj, hlookup, hv]
  refine ⟨call, m₁, happly, hlast "x" 2 ?_, hlast "def" 1 ?_, by cbv, ?_⟩
  · exact LastAt.succ_iff.mpr (LastAt.succ_iff.mpr (LastAt.zero_iff.mpr (by decide)))
  · exact LastAt.succ_iff.mpr (LastAt.zero_iff.mpr (by decide))
  · exact (hfree "y" (by decide)).trans (by cbv)

end Eval

end ModularLisp
