import ModularLisp.Proofs.ImportMerge
import ModularLisp.Proofs.LoadStack
import ModularLisp.Proofs.Rules
import ModularLisp.Proofs.WellFormed

/-!
# ModularLisp.Proofs.RuleSteps

**The functions that evaluate, in the terms of the rules.** The rules speak of shapes and of
one thing after the other, the functions of patterns, folds and lists that are zipped. The
lemmas here say of each function what it does on the shapes that the rules tell apart, and in
particular that a malformed form does nothing but fail (`Eval.evalKeyword_of_malformed`). They
are all that is needed of the functions to compare evaluation with the rules.
-/

namespace ModularLisp

open Files (FileSystem)

/-! ### Names and bindings -/

theorem Store.defineEach_eq_modify (st : Store) (id : ScopeId) (bindings : List (String × Expr)) :
    st.defineEach id bindings = st.modify id (·.defineAll bindings) := by
  unfold defineEach
  induction bindings generalizing st with
  | nil => exact (st.modify_id id).symm
  | cons b rest ih =>
      rw [List.foldl_cons, ih, define, modify_modify]
      simp only [Scope.defineAll_cons]

/-- A scope that is added and changed at once is added as it is after the change. -/
theorem Store.modify_add (st : Store) (s : Scope) (f : Scope → Scope) :
    (st.add s).modify st.nextId f = st.add (f s) := by
  have harray : (st.scopes.push s).modify st.scopes.size f = st.scopes.push (f s) := by
    refine Array.ext (by simp) fun j h₁ h₂ => ?_
    simp only [Array.getElem_modify, Array.getElem_push]
    simp only [Array.size_push] at h₂
    split_ifs with heq hlt
    · exact absurd heq (Nat.ne_of_gt hlt)
    · rfl
    · rfl
    · omega
  rw [modify, add, nextId, harray]
  rfl

theorem Store.defineEach_addEmpty (st : Store) (params : List String) (captured : ScopeId)
    (values : List Expr) :
    (st.addEmpty (some captured)).defineEach st.nextId (params.zip values) =
      st.add (Eval.callScope params captured values) := by
  rw [defineEach_eq_modify, addEmpty, modify_add]
  rfl

/-- The names with the values that are seen from a scope are collected one after the other. -/
theorem Store.exposes_iff {st : Store} {id : ScopeId} {s : Scope} (hs : st.get? id = some s)
    {r : Except String (List (String × Expr))} :
    st.Exposes id s.exports r ↔ st.exportedBindings id = r := by
  have hmap : ∀ (b : String × Expr) (x : Except String (List (String × Expr))),
      (x >>= fun rest => pure (b :: rest)) = x.map (b :: ·) := by
    rintro b (_ | _) <;> rfl
  unfold exportedBindings
  simp only [hs, Option.map_some, Option.getD_some]
  generalize s.exports = names
  induction names generalizing r with
  | nil =>
      constructor
      · intro h
        cases h
        rfl
      · rintro rfl
        exact .nil
  | cons name names ih =>
      rw [List.mapM_cons]
      constructor
      · intro h
        cases h with
        | unbound hv =>
            rw [hv]
            rfl
        | bound hv h =>
            rw [hv, ← ih.mp h]
            exact hmap _ _
      · rintro rfl
        cases hv : st.lookup id name with
        | none => exact .unbound hv
        | some value =>
            have h := Exposes.bound hv (ih.mpr rfl)
            rw [← hmap] at h
            exact h

namespace Eval

variable {files : FileSystem}

theorem keyword?_eq_some_iff {head : Expr} {k : Keyword} :
    keyword? head = some k ↔ head = .symbol k.name := by
  constructor
  · intro h
    cases head with
    | symbol name => rw [Keyword.name_of_ofName? h]
    | number | string | list | closure => cases h
  · rintro rfl
    exact Keyword.ofName?_name k

theorem keyword?_eq_none_iff {head : Expr} :
    keyword? head = none ↔ ∀ k : Keyword, head ≠ .symbol k.name := by
  rw [Option.eq_none_iff_forall_ne_some]
  exact forall_congr' fun k => not_congr keyword?_eq_some_iff

theorem symbolValue_of_some {name : String} {scope : ScopeId} {m : Machine} {value : Expr}
    (h : m.store.lookup scope name = some value) :
    symbolValue name scope m = some (.ok value, m) := by
  rw [symbolValue, Run.bind_apply]
  simp only [Run.lookup, h]
  rfl

theorem symbolValue_of_none {name : String} {scope : ScopeId} {m : Machine}
    (h : m.store.lookup scope name = none) :
    symbolValue name scope m = some (.error (.unboundSymbol name), m) := by
  rw [symbolValue, Run.bind_apply]
  simp only [Run.lookup, h]
  rfl

theorem paramNames_symbols (names : List String) :
    paramNames (names.map .symbol) = .ok names := by
  induction names with
  | nil => rfl
  | cons name names ih =>
      rw [List.map_cons, paramNames, ih]
      rfl

theorem evalFn_symbols (names : List String) (body : Expr) (scope : ScopeId) (m : Machine) :
    evalFn [.list (names.map .symbol), body] scope m =
      some (.ok (.closure names body scope), m) := by
  simp only [evalFn, paramNames_symbols]
  rfl

theorem paramNames_other {other : Expr} (h : ∀ name, other ≠ .symbol name) (names : List String)
    (rest : List Expr) :
    paramNames (names.map .symbol ++ other :: rest) = .error (.fnParam other.description) := by
  induction names with
  | nil =>
      cases other with
      | symbol name => exact absurd rfl (h name)
      | number | string | list | closure => rfl
  | cons name names ih =>
      rw [List.map_cons, List.cons_append, paramNames, ih]
      rfl

/-- A form of a wrong shape is rejected before anything else happens. -/
theorem evalKeyword_of_malformed (ev : Evaluator) {k : Keyword} {arguments : List Expr}
    {error : FormError} (h : Malformed k arguments error) (scope : ScopeId) :
    evalKeyword files ev k arguments scope = malformed error := by
  cases h with
  | defArguments hlen =>
      show evalDef ev arguments scope = _
      unfold evalDef
      split
      · exact absurd rfl hlen
      · exact absurd rfl hlen
      · rfl
  | defName hother =>
      show evalDef ev _ scope = _
      unfold evalDef
      split
      · next heq => exact absurd (List.cons.inj heq).1 (hother _)
      · next heq => rw [(List.cons.inj heq).1]
      · next hne => exact absurd rfl (hne _ _)
  | fnArguments hlen =>
      show evalFn arguments scope = _
      unfold evalFn
      split
      · exact absurd rfl hlen
      · exact absurd rfl hlen
      · rfl
  | @fnParams other body hother =>
      show evalFn [other, body] scope = _
      cases other with
      | list params => exact absurd rfl (hother params)
      | symbol | number | string | closure => rfl
  | fnParam hother =>
      show evalFn [.list _, _] scope = _
      simp only [evalFn, paramNames_other hother]
  | literalArguments hlen =>
      show evalLiteral arguments = _
      unfold evalLiteral
      split
      · exact absurd rfl hlen
      · rfl
  | importArguments hpath =>
      show evalImport files ev arguments scope = _
      unfold evalImport
      split
      · exact absurd rfl (hpath _)
      · rfl
  | exportArguments hlen =>
      show evalExport arguments scope = _
      unfold evalExport
      split
      · exact absurd rfl hlen
      · exact absurd rfl hlen
      · rfl
  | @exportName other hother =>
      show evalExport [other] scope = _
      cases other with
      | symbol name => exact absurd rfl (hother name)
      | number | string | list | closure => rfl

section

variable {ev : Evaluator} {whole : String} {scope : ScopeId} {index : Nat} {rest : List Expr}

theorem clausePair?_of_length_ne {items : List Expr} (h : items.length ≠ 2) :
    clausePair? (.list items) = none := by
  unfold clausePair?
  split
  · next heq =>
      obtain rfl := Expr.list.inj heq
      exact absurd rfl h
  · rfl

theorem evalClauses_of_length_ne {items : List Expr} (h : items.length ≠ 2) :
    evalClauses ev whole scope index (.list items :: rest) =
      malformed (.casePair index (Expr.list items).text) := by
  rw [evalClauses_cons, clausePair?_of_length_ne h]
  rfl

theorem evalClauses_of_not_list {other : Expr} (h : ∀ items, other ≠ .list items) :
    evalClauses ev whole scope index (other :: rest) =
      malformed (.caseClause index other.description) := by
  cases other with
  | list items => exact absurd rfl (h items)
  | symbol | number | string | closure => rfl

end

/-! ### Files -/

/-- Running forms is evaluating them from left to right; of the values the last one counts. -/
theorem runForms_eq_evalAll (ev : Evaluator) (scope : ScopeId) (forms : List Expr) :
    runForms ev scope forms =
      evalAll ev scope forms >>= fun values => pure values.getLast? := by
  induction forms with
  | nil => rfl
  | cons e es ih =>
      cases es with
      | nil => simp only [runForms, evalAll, bind_assoc, pure_bind]; rfl
      | cons e' es =>
          rw [runForms, ih]
          simp only [evalAll, bind_assoc, pure_bind, List.getLast?_cons_cons]
          simp

/-- There are no forms if the file can not be read, or if its text is no program. -/
theorem fileForms_error {path : String} {error : ProgramError}
    (h : fileForms files path = .error error) :
    (∃ e, files.readText path = .error e ∧ error = .io e) ∨
      ∃ source e, files.readText path = .ok source ∧ parse source = .error e ∧
        error = .parse e := by
  unfold fileForms at h
  cases hread : files.readText path with
  | error e =>
      rw [hread] at h
      exact Or.inl ⟨e, rfl, (Except.error.inj h).symm⟩
  | ok source =>
      rw [hread] at h
      simp only at h
      cases hparse : parse source with
      | error e =>
          rw [hparse] at h
          exact Or.inr ⟨source, e, rfl, hparse, (Except.error.inj h).symm⟩
      | ok forms =>
          rw [hparse] at h
          cases h

theorem fileForms_of_unreadable {path : String} {e : Files.IoError}
    (hread : files.readText path = .error e) : fileForms files path = .error (.io e) := by
  simp only [fileForms, hread]

theorem fileForms_of_parse_error {path source : String} {e : Reader.ParseError}
    (hread : files.readText path = .ok source) (hparse : parse source = .error e) :
    fileForms files path = .error (.parse e) := by
  simp only [fileForms, hread, hparse]
  rfl

theorem fileForms_of_parse {path source : String} {forms : List Expr}
    (hread : files.readText path = .ok source) (hparse : parse source = .ok forms) :
    fileForms files path = .ok forms := by
  simp only [fileForms, hread, hparse]
  rfl

/-- What is exposed is collected, and a name that has no value is reported as unbound. -/
theorem mapError_exportedBindings {m : Machine} {root : ScopeId} {s : Scope}
    {r : Except String (List (String × Expr))} (hs : m.store.get? root = some s)
    (h : m.store.Exposes root s.exports r) :
    Run.mapError (fun name => ProgramError.eval (.unboundSymbol name))
        (Run.exportedBindings root) m =
      some (r.mapError fun name => .eval (.unboundSymbol name), m) :=
  Run.mapError_eq_some_iff.mpr ⟨r, by rw [← (Store.exposes_iff hs).mp h]; rfl, rfl⟩

/-- A file whose path was added last is taken off by restoring the list from before. -/
theorem afterLoading_eq {c : Files.Path} {m m₁ : Machine} (h : m₁.loading = m.loading ++ [c]) :
    afterLoading m₁ = { m₁ with loading := m.loading } := by
  rw [afterLoading, h, List.dropLast_concat]

/-- The list of files being loaded when the forms of a file have been run. -/
theorem loading_of_runForms {n : Nat} {c : Files.Path} {scope : ScopeId} {forms : List Expr}
    {m m₁ : Machine} {r : Except EvalError (Option Expr)}
    (h : runForms (eval files n) scope forms (fileStart c m) = some (r, m₁)) :
    m₁.loading = m.loading ++ [c] :=
  effect_loading.runForms (eval_effect effect_loading files n) [c] forms _ _ _ h

/-- The root scope of a file is there when its forms have been run. -/
theorem exists_root_of_runForms {n : Nat} {c : Files.Path} {scope : ScopeId}
    {forms : List Expr} {m m₁ : Machine} {r : Except EvalError (Option Expr)}
    (h : runForms (eval files n) scope forms (fileStart c m) = some (r, m₁)) :
    ∃ s, m₁.store.get? m.store.nextId = some s := by
  have hgrows : (fileStart c m).store.Grows m₁.store :=
    effect_grows.runForms (eval_effect effect_grows files n) [c] forms _ _ _ h
  obtain ⟨s, hs, -⟩ := hgrows m.store.nextId ((Scope.empty none).defineAll Store.preludeBindings)
    (by rw [store_fileStart, Store.addPrelude, Store.get?_add, if_pos rfl])
  exact ⟨s, hs⟩

end Eval

end ModularLisp
