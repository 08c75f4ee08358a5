import ModularLisp.Proofs.Moments
import ModularLisp.Proofs.RulesAgree

/-!
# ModularLisp.Proofs.FirstTrueClause

**A `case` takes the first true clause.** Its predicates are evaluated in order, each in the state
that the ones before have left, and as long as they have values other than `true` the clauses are
passed over (`Passes`). The first clause that is not passed over decides what the form comes to, in
one of five ways (`Decides`), and nothing does so if there is none. What is evaluated on the way is
the same as in a sequence of expressions: the predicates up to that clause and then its result, if
it is selected. The results before it and everything behind it play no part.
-/

namespace ModularLisp

namespace Eval

open Files (FileSystem)

variable {files : FileSystem} {scope : ScopeId} {m m₁ m' : Machine}
  {r : Except EvalError Expr}

/-! ### One clause after the other -/

/-- A clause that pairs a predicate with a result. -/
def clauseOf (c : Expr × Expr) : Expr :=
  .list [c.1, c.2]

/-- The predicates of these clauses have values, evaluated in order, and none of them is true. -/
inductive Passes (files : FileSystem) (scope : ScopeId) :
    List (Expr × Expr) → Machine → Machine → Prop
  | nil {m : Machine} : Passes files scope [] m m
  | cons {predicate result value : Expr} {rest : List (Expr × Expr)} {m m₁ m₂ : Machine} :
      Ends files (fun ev => ev predicate scope) m (.ok value) m₁ →
      value ≠ .symbol Expr.trueName → Passes files scope rest m₁ m₂ →
      Passes files scope ((predicate, result) :: rest) m m₂

/-- The clause counted `index` decides a `case` that comes to it in the state `m`: what of it is
evaluated, one after the other, and which results and states the form can end with. -/
inductive Decides (files : FileSystem) (scope : ScopeId) (index : Nat) (m : Machine) :
    Expr → List Expr → (Except EvalError Expr → Machine → Prop) → Prop
  | noClause {other : Expr} : (∀ items, other ≠ .list items) →
      Decides files scope index m other []
        fun r m' => r = .error (.invalidForm (.caseClause index other.description)) ∧ m' = m
  | noPair {items : List Expr} : items.length ≠ 2 →
      Decides files scope index m (.list items) []
        fun r m' => r = .error (.invalidForm (.casePair index (Expr.list items).text)) ∧ m' = m
  | endless {predicate result : Expr} :
      (∀ r m', ¬ Ends files (fun ev => ev predicate scope) m r m') →
      Decides files scope index m (clauseOf (predicate, result)) [predicate] fun _ _ => False
  | fails {predicate result : Expr} {error : EvalError} {m₁ : Machine} :
      Ends files (fun ev => ev predicate scope) m (.error error) m₁ →
      Decides files scope index m (clauseOf (predicate, result)) [predicate]
        fun r m' => r = .error error ∧ m' = m₁
  | selects {predicate result : Expr} {m₁ : Machine} :
      Ends files (fun ev => ev predicate scope) m (.ok (.symbol Expr.trueName)) m₁ →
      Decides files scope index m (clauseOf (predicate, result)) [predicate, result]
        fun r m' => Ends files (fun ev => ev result scope) m₁ r m'

/-- A clause that is not passed over decides. -/
theorem exists_decides (files : FileSystem) (scope : ScopeId) (clause : Expr) (m : Machine) :
    (∃ c value m₁, clause = clauseOf c ∧
      Ends files (fun ev => ev c.1 scope) m (.ok value) m₁ ∧ value ≠ .symbol Expr.trueName) ∨
      ∀ index, ∃ asked outcome, Decides files scope index m clause asked outcome := by
  rcases clause_cases clause with ⟨predicate, result, rfl⟩ | ⟨items, rfl, hlen⟩ | hother
  · by_cases hends : ∃ r m₁, Ends files (fun ev => ev predicate scope) m r m₁
    · obtain ⟨error | value, m₁, hpredicate⟩ := hends
      · exact Or.inr fun index => ⟨_, _, .fails hpredicate⟩
      by_cases hvalue : value = .symbol Expr.trueName
      · obtain rfl := hvalue
        exact Or.inr fun index => ⟨_, _, .selects hpredicate⟩
      · exact Or.inl ⟨(predicate, result), value, m₁, rfl, hpredicate, hvalue⟩
    · exact Or.inr fun index => ⟨_, _, .endless fun r m₁ h => hends ⟨r, m₁, h⟩⟩
  · exact Or.inr fun index => ⟨_, _, .noPair hlen⟩
  · exact Or.inr fun index => ⟨_, _, .noClause hother⟩

/-- All clauses are passed over, or one is the first that is not. -/
theorem passes_or_decides (files : FileSystem) (scope : ScopeId) (clauses : List Expr)
    (m : Machine) : ∃ before m₁, Passes files scope before m m₁ ∧
      (clauses = before.map clauseOf ∨
        ∃ clause after, clauses = before.map clauseOf ++ clause :: after ∧
          ∀ index, ∃ asked outcome, Decides files scope index m₁ clause asked outcome) := by
  induction clauses generalizing m with
  | nil => exact ⟨[], m, .nil, Or.inl rfl⟩
  | cons clause rest ih =>
      rcases exists_decides files scope clause m with ⟨c, value, m₁, rfl, hends, hvalue⟩ | hdecides
      · obtain ⟨before, m₂, hpasses, hrest⟩ := ih m₁
        refine ⟨c :: before, m₂, .cons hends hvalue hpasses, ?_⟩
        rcases hrest with rfl | ⟨clause', after, rfl, hdecides⟩
        · exact Or.inl rfl
        · exact Or.inr ⟨clause', after, rfl, hdecides⟩
      · exact ⟨[], m, .nil, Or.inr ⟨clause, rest, rfl, hdecides⟩⟩

/-! ### How the form ends -/

theorem ends_case_iff {clauses : List Expr} :
    Ends files (fun ev => ev (Keyword.case.form clauses) scope) m r m' ↔
      Ends files (fun ev => evalClauses ev (Keyword.case.form clauses).text scope 0 clauses)
        m r m' := by
  refine ends_eval_iff.trans ?_
  simp only [Keyword.form, step_form files _ (keyword?_eq_some_iff.mpr rfl)]
  rfl

section

variable {whole : String} {index : Nat}

/-- What a `case` does after the predicate of a clause with this result has got a value. -/
def afterPredicate (ev : Evaluator) (whole : String) (scope : ScopeId) (index : Nat)
    (result : Expr) (rest : List Expr) (value : Expr) : Run EvalError Expr :=
  if value.isTrue then ev result scope else evalClauses ev whole scope (index + 1) rest

theorem evalClauses_clauseOf (ev : Evaluator) (predicate result : Expr) (rest : List Expr) :
    evalClauses ev whole scope index (clauseOf (predicate, result) :: rest) =
      ev predicate scope >>= afterPredicate ev whole scope index result rest := rfl

theorem steady_afterPredicate (result value : Expr) (rest : List Expr) :
    Steady fun ev => afterPredicate ev whole scope index result rest value :=
  (steady_eval result scope).ite (steady_evalClauses _ _ _ _)

/-- What is passed over only leaves its state. -/
theorem Passes.ends_iff {before : List (Expr × Expr)} (h : Passes files scope before m m₁)
    (rest : List Expr) :
    Ends files (fun ev => evalClauses ev whole scope index (before.map clauseOf ++ rest)) m r m' ↔
      Ends files (fun ev => evalClauses ev whole scope (index + before.length) rest) m₁ r m' := by
  induction h generalizing index with
  | nil => exact Iff.rfl
  | @cons predicate result value before m m₁ m₂ hpredicate hvalue _ ih =>
      have hfalse : ¬ value.isTrue := fun htrue => hvalue (Expr.isTrue_iff.mp htrue)
      simp only [List.map_cons, List.cons_append, evalClauses_clauseOf]
      refine (Ends.bind_iff_of_ok (steady_eval predicate scope)
        (steady_afterPredicate result · (before.map clauseOf ++ rest)) hpredicate).trans ?_
      simp only [afterPredicate, if_neg hfalse]
      refine ih.trans ?_
      rw [List.length_cons, Nat.add_right_comm, Nat.add_assoc]

/-- If all clauses are passed over there is none to select. -/
theorem Passes.ends_of_all {before : List (Expr × Expr)} (h : Passes files scope before m m₁) :
    Ends files (fun ev => evalClauses ev whole scope index (before.map clauseOf)) m r m' ↔
      r = .error (.noMatchingCase whole) ∧ m' = m₁ := by
  have hnone : Ends files (fun ev =>
      evalClauses ev whole scope index (before.map clauseOf ++ [])) m r m' ↔ _ := h.ends_iff []
  rw [List.append_nil] at hnone
  exact hnone.trans ends_fail_iff

/-- What a clause decides does not depend on the clauses after it. -/
theorem Decides.ends_iff {clause : Expr} {asked : List Expr}
    {outcome : Except EvalError Expr → Machine → Prop}
    (h : Decides files scope index m clause asked outcome) (after : List Expr) :
    Ends files (fun ev => evalClauses ev whole scope index (clause :: after)) m r m' ↔
      outcome r m' := by
  cases h with
  | noClause hother =>
      simp only [evalClauses_of_not_list hother]
      exact ends_fail_iff
  | noPair hlen =>
      simp only [evalClauses_of_length_ne hlen]
      exact ends_fail_iff
  | @endless predicate result hnever =>
      simp only [evalClauses_clauseOf]
      refine (Ends.bind_iff (steady_eval predicate scope)
        (steady_afterPredicate result · after)).trans ?_
      constructor
      · rintro (⟨e, h, -⟩ | ⟨value, m₁, h, -⟩)
        · exact hnever _ _ h
        · exact hnever _ _ h
      · exact False.elim
  | @fails predicate result error m₁ hpredicate =>
      simp only [evalClauses_clauseOf]
      exact Ends.bind_iff_of_error (steady_eval predicate scope)
        (steady_afterPredicate result · after) hpredicate
  | @selects predicate result m₁ hpredicate =>
      simp only [evalClauses_clauseOf]
      refine (Ends.bind_iff_of_ok (steady_eval predicate scope)
        (steady_afterPredicate result · after) hpredicate).trans ?_
      simp only [afterPredicate, if_pos (Expr.isTrue_iff.mpr rfl)]

end

/-! ### What is evaluated on the way -/

section

variable {n : Nat} {tr : Tracer} {loads : List Files.Path}

theorem evalMoments_case (clauses : List Expr) :
    evalMoments files (n + 1) loads (Keyword.case.form clauses) scope m =
      ⟨.evaluating (Keyword.case.form clauses) scope, loads, m⟩ ::
        clauseMoments (eval files n) (evalMoments files n) loads scope clauses m := by
  rw [evalMoments, Keyword.form, stepMoments_form _ _ _ _ (keyword?_eq_some_iff.mpr rfl)]
  rfl

/-- In a clause as in a sequence the predicate is evaluated first, and what follows depends on
its value. -/
theorem clauseMoments_clauseOf {predicate result : Expr} {rest asked : List Expr}
    (h : ∀ value m₁, Ends files (fun ev => ev predicate scope) m (.ok value) m₁ →
      (if value.isTrue then tr loads result scope
        else clauseMoments (eval files n) tr loads scope rest) m₁ =
        sequenceMoments (eval files n) tr loads scope asked m₁) :
    clauseMoments (eval files n) tr loads scope (clauseOf (predicate, result) :: rest) m =
      sequenceMoments (eval files n) tr loads scope (predicate :: asked) m := by
  show tr loads predicate scope m ++ _ = tr loads predicate scope m ++ _
  exact congrArg _ (Run.thenMoments_congr fun value m₁ hvalue => h value m₁ ⟨n, hvalue⟩)

/-- Of what is passed over the predicates are evaluated. -/
theorem Passes.clauseMoments_eq {before : List (Expr × Expr)}
    (h : Passes files scope before m m₁) {rest asked : List Expr}
    (hrest : clauseMoments (eval files n) tr loads scope rest m₁ =
      sequenceMoments (eval files n) tr loads scope asked m₁) :
    clauseMoments (eval files n) tr loads scope (before.map clauseOf ++ rest) m =
      sequenceMoments (eval files n) tr loads scope (before.map Prod.fst ++ asked) m := by
  induction h with
  | nil => exact hrest
  | @cons predicate result value before m m₁ m₂ hpredicate hvalue _ ih =>
      refine clauseMoments_clauseOf fun value' m₁' h => ?_
      obtain ⟨heq, rfl⟩ := hpredicate.unique (steady_eval predicate scope) h
      obtain rfl := Except.ok.inj heq
      rw [if_neg fun htrue => hvalue (Expr.isTrue_iff.mp htrue)]
      exact ih hrest

theorem Decides.clauseMoments_eq {index : Nat} {clause : Expr} {asked : List Expr}
    {outcome : Except EvalError Expr → Machine → Prop}
    (h : Decides files scope index m clause asked outcome) (after : List Expr) :
    clauseMoments (eval files n) tr loads scope (clause :: after) m =
      sequenceMoments (eval files n) tr loads scope asked m := by
  cases h with
  | @noClause other hother =>
      cases clause with
      | list items => exact absurd rfl (hother items)
      | symbol | number | string | closure => rfl
  | @noPair items hlen =>
      rw [clauseMoments, clausePair?_of_length_ne hlen]
      rfl
  | @endless predicate result hnever =>
      exact clauseMoments_clauseOf fun value m₁ h => absurd h (hnever _ _)
  | @fails predicate result error m₁ hpredicate =>
      refine clauseMoments_clauseOf fun value m₁ h => ?_
      cases (hpredicate.unique (steady_eval predicate scope) h).1
  | @selects predicate result m₁ hpredicate =>
      refine clauseMoments_clauseOf fun value m₁ h => ?_
      obtain ⟨heq, rfl⟩ := hpredicate.unique (steady_eval predicate scope) h
      obtain rfl := Except.ok.inj heq
      rw [if_pos (Expr.isTrue_iff.mpr rfl)]
      simp only [sequenceMoments, Run.thenMoments_nil, List.append_nil]

end

/-- **A `case` takes the first true clause and ignores the rest.** Its clauses are all passed over,
or there is a first one that decides. If all are passed over, no predicate is true, and that is
reported with the whole form, in the state that the last predicate has left. A clause that decides
does so whatever comes after it: if it is no pair it is reported as such; if its predicate does not
end or fails, so does the form; and if its predicate gives the symbol `true`, the form ends as the
result does that stands beside it, in the state that the predicate has left. Either way the moments
of the run are those of a sequence of expressions: the predicates up to the clause that decides
and, if it is selected, its result. -/
theorem case_takes_first_true (files : FileSystem) (scope : ScopeId) (m : Machine) :
    (∀ clauses, ∃ before m₁, Passes files scope before m m₁ ∧
      (clauses = before.map clauseOf ∨
        ∃ clause after asked outcome, clauses = before.map clauseOf ++ clause :: after ∧
          Decides files scope before.length m₁ clause asked outcome)) ∧
    ∀ before m₁, Passes files scope before m m₁ →
      (let form := Keyword.case.form (before.map clauseOf);
        (∀ r m', Ends files (fun ev => ev form scope) m r m' ↔
          r = .error (.noMatchingCase form.text) ∧ m' = m₁) ∧
        ∀ n loads, evalMoments files (n + 1) loads form scope m =
          ⟨.evaluating form scope, loads, m⟩ ::
            sequenceMoments (eval files n) (evalMoments files n) loads scope
              (before.map Prod.fst) m) ∧
      ∀ clause asked outcome, Decides files scope before.length m₁ clause asked outcome →
        ∀ after,
          let form := Keyword.case.form (before.map clauseOf ++ clause :: after);
          (∀ r m', Ends files (fun ev => ev form scope) m r m' ↔ outcome r m') ∧
          ∀ n loads, evalMoments files (n + 1) loads form scope m =
            ⟨.evaluating form scope, loads, m⟩ ::
              sequenceMoments (eval files n) (evalMoments files n) loads scope
                (before.map Prod.fst ++ asked) m := by
  refine ⟨fun clauses => ?_, fun before m₁ hpasses => ⟨⟨fun r m' => ?_, fun n loads => ?_⟩, ?_⟩⟩
  · obtain ⟨before, m₁, hpasses, hall | ⟨clause, after, heq, hdecides⟩⟩ :=
      passes_or_decides files scope clauses m
    · exact ⟨before, m₁, hpasses, Or.inl hall⟩
    · obtain ⟨asked, outcome, hdecides⟩ := hdecides before.length
      exact ⟨before, m₁, hpasses, Or.inr ⟨clause, after, asked, outcome, heq, hdecides⟩⟩
  · exact ends_case_iff.trans hpasses.ends_of_all
  · have hnone : clauseMoments (eval files n) (evalMoments files n) loads scope
        (before.map clauseOf ++ []) m = sequenceMoments (eval files n) (evalMoments files n) loads
          scope (before.map Prod.fst ++ []) m := hpasses.clauseMoments_eq rfl
    rw [List.append_nil, List.append_nil] at hnone
    exact (evalMoments_case _).trans (congrArg _ hnone)
  · intro clause asked outcome hdecides after
    refine ⟨fun r m' => ?_, fun n loads => ?_⟩
    · refine ends_case_iff.trans ((hpasses.ends_iff (clause :: after)).trans ?_)
      rw [Nat.zero_add]
      exact hdecides.ends_iff after
    · exact (evalMoments_case _).trans
        (congrArg _ (hpasses.clauseMoments_eq (hdecides.clauseMoments_eq after)))

/-- The string is no true value, and the definition has none; but it makes the third predicate
true. The last clause is none, and is not looked at. -/
theorem case_takes_first_true_afterDefinition :
    let define := Keyword.define.form [.symbol "x", .symbol "true"]
    let before : List (Expr × Expr) := [(.string "true", .symbol "y"), (define, .symbol "y")]
    let clause := clauseOf (.symbol "x", .string "v")
    let m : Machine := ⟨Store.empty.addPrelude, []⟩
    let m₁ : Machine := ⟨m.store.define ⟨0⟩ "x" (.symbol "true"), []⟩
    Passes ⟨[], []⟩ ⟨0⟩ before m m₁ ∧
      Ends ⟨[], []⟩ (fun ev => ev (Keyword.case.form
        (before.map clauseOf ++ [clause, .symbol "z"])) ⟨0⟩) m (.ok (.string "v")) m₁ := by
  intro define before clause m m₁
  have htrue : m.store.lookup ⟨0⟩ "true" = some (.symbol "true") := by cbv
  have hbound : m₁.store.lookup ⟨0⟩ "x" = some (.symbol "true") := by cbv
  have hpasses : Passes ⟨[], []⟩ ⟨0⟩ before m m₁ := by
    refine .cons (ends_of_evaluates .string) (fun heq => by cases heq) ?_
    exact .cons (ends_of_evaluates (.define (.bound htrue))) (fun heq => by cases heq) .nil
  have hselects : Ends ⟨[], []⟩ (fun ev => ev (.symbol "x") ⟨0⟩) m₁ (.ok (.symbol "true")) m₁ :=
    ends_of_evaluates (.bound hbound)
  obtain ⟨-, htake⟩ := case_takes_first_true ⟨[], []⟩ ⟨0⟩ m
  obtain ⟨-, hdecided⟩ := htake before m₁ hpasses
  obtain ⟨hends, -⟩ := hdecided clause _ _ (.selects hselects) [.symbol "z"]
  exact ⟨hpasses, (hends _ _).mpr ⟨1, rfl⟩⟩

end Eval

end ModularLisp
