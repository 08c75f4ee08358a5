import ModularLisp.Proofs.RuleSteps

/-!
# ModularLisp.Proofs.RulesAgree

**Evaluation follows the rules, and the rules are followed.** What an evaluation ends with is
what the rules derive, and everything they derive is what some evaluation ends with
(`Eval.evaluation_by_rules`). So no derivation is for an evaluation that runs for ever, and
where there is no derivation, evaluation does not end.

One direction goes through the functions that evaluate, one lemma for each, and is an induction
on fuel (`Eval.evaluates_of_eval`). The other direction goes through the derivation
(`Eval.ends_of_evaluates`): each rule puts runs together that end, with as much fuel as the
hungrier one needs (`Eval.Ends.bind`).
-/

namespace ModularLisp

open Files (FileSystem)

namespace Eval

variable {files : FileSystem}

/-! ### Evaluation follows the rules -/

section

variable {n : Nat} {scope : ScopeId} {m m' : Machine}
  (hev : ∀ {e scope m r m'}, eval files n e scope m = some (r, m') →
    Evaluates files e scope m r m')

theorem evaluates_symbol {name : String} {r : Except EvalError Expr}
    (h : symbolValue name scope m = some (r, m')) :
    Evaluates files (.symbol name) scope m r m' := by
  cases hv : m.store.lookup scope name with
  | none =>
      rw [symbolValue_of_none hv] at h
      obtain ⟨rfl, rfl⟩ := Run.outcome_inj h
      exact .unbound hv
  | some value =>
      rw [symbolValue_of_some hv] at h
      obtain ⟨rfl, rfl⟩ := Run.outcome_inj h
      exact .bound hv

include hev

theorem evaluatesEach_of_evalAll {es : List Expr} {r : Except EvalError (List Expr)}
    (h : evalAll (eval files n) scope es m = some (r, m')) :
    EvaluatesEach files es scope m r m' := by
  induction es generalizing m r with
  | nil =>
      obtain ⟨rfl, rfl⟩ := Run.outcome_inj h
      exact .nil
  | cons e es ih =>
      rcases Run.bind_eq_some_iff.mp h with ⟨error, he, rfl⟩ | ⟨value, m₁, he, hrest⟩
      · exact .fails (hev he)
      rcases Run.bind_eq_some_iff.mp hrest with ⟨error, hes, rfl⟩ | ⟨values, m₂, hes, hpure⟩
      · exact .cons (hev he) (ih hes)
      · obtain ⟨rfl, rfl⟩ := Run.outcome_inj hpure
        exact .cons (hev he) (ih hes)

theorem evaluates_application {head : Expr} {arguments : List Expr} {r : Except EvalError Expr}
    (hhead : ∀ k : Keyword, head ≠ .symbol k.name)
    (h : application (eval files n) head arguments scope m = some (r, m')) :
    Evaluates files (.list (head :: arguments)) scope m r m' := by
  rcases Run.bind_eq_some_iff.mp h with ⟨error, hh, rfl⟩ | ⟨value, m₁, hh, hrest⟩
  · exact .headFails hhead (hev hh)
  cases value with
  | closure params body captured =>
      rcases Run.bind_eq_some_iff.mp hrest with ⟨error, ha, rfl⟩ | ⟨values, m₂, ha, hbody⟩
      · exact .argumentFails hhead (hev hh) (evaluatesEach_of_evalAll hev ha)
      have hvalues := evaluatesEach_of_evalAll hev ha
      unfold Eval.apply at hbody
      split at hbody
      · next hlen =>
          refine .call hhead (hev hh) hvalues hlen ?_
          rw [Store.defineEach_addEmpty]
          exact hev hbody
      · next hlen =>
          obtain ⟨rfl, rfl⟩ := Run.outcome_inj hbody
          exact .arity hhead (hev hh) hvalues hlen
  | symbol | number | string | list =>
      obtain ⟨rfl, rfl⟩ := Run.outcome_inj hrest
      exact .notCallable hhead (hev hh) fun _ _ _ heq => by cases heq

theorem evaluates_define {name : String} {e : Expr} {r : Except EvalError Expr}
    (h : evalDef (eval files n) [.symbol name, e] scope m = some (r, m')) :
    Evaluates files (Keyword.define.form [.symbol name, e]) scope m r m' := by
  rcases Run.bind_eq_some_iff.mp h with ⟨error, he, rfl⟩ | ⟨value, m₁, he, hdef⟩
  · exact .defineFails (hev he)
  · obtain ⟨rfl, rfl⟩ := Run.outcome_inj hdef
    exact .define (hev he)

theorem selects_of_evalClauses {whole : Expr} {index : Nat} {clauses : List Expr}
    {r : Except EvalError Expr}
    (h : evalClauses (eval files n) whole.text scope index clauses m = some (r, m')) :
    Selects files whole index clauses scope m r m' := by
  induction clauses generalizing index m with
  | nil =>
      obtain ⟨rfl, rfl⟩ := Run.outcome_inj h
      exact .exhausted
  | cons clause rest ih =>
      rcases clause_cases clause with ⟨predicate, result, rfl⟩ | ⟨items, rfl, hlen⟩ | hother
      · rcases Run.bind_eq_some_iff.mp h with ⟨error, hp, rfl⟩ | ⟨value, m₁, hp, hrest⟩
        · exact .predicateFails (hev hp)
        by_cases htrue : value.isTrue
        · rw [if_pos htrue] at hrest
          obtain rfl := Expr.isTrue_iff.mp htrue
          exact .chosen (hev hp) (hev hrest)
        · rw [if_neg htrue] at hrest
          exact .passed (hev hp) (fun heq => htrue (Expr.isTrue_iff.mpr heq)) (ih hrest)
      · rw [evalClauses_of_length_ne hlen] at h
        obtain ⟨rfl, rfl⟩ := Run.outcome_inj h
        exact .noPair hlen
      · rw [evalClauses_of_not_list hother] at h
        obtain ⟨rfl, rfl⟩ := Run.outcome_inj h
        exact .noClause hother

/-- The forms of a file, taken one by one. -/
theorem evaluatesEach_of_runForms {forms : List Expr} {r : Except EvalError (Option Expr)}
    (h : runForms (eval files n) scope forms m = some (r, m')) :
    ∃ r₀ : Except EvalError (List Expr), EvaluatesEach files forms scope m r₀ m' ∧
      r = r₀.map List.getLast? := by
  rw [runForms_eq_evalAll] at h
  rcases Run.bind_eq_some_iff.mp h with ⟨error, hes, rfl⟩ | ⟨values, m₁, hes, hpure⟩
  · exact ⟨_, evaluatesEach_of_evalAll hev hes, rfl⟩
  · obtain ⟨rfl, rfl⟩ := Run.outcome_inj hpure
    exact ⟨_, evaluatesEach_of_evalAll hev hes, rfl⟩

theorem imports_of_importExports {path : String}
    {r : Except ProgramError (List (String × Expr))}
    (h : importExports files (eval files n) path m = some (r, m')) :
    Imports files path m r m' := by
  rcases Run.bind_eq_some_iff.mp h with ⟨cause, hload, rfl⟩ | ⟨root, m₁, hload, hexports⟩
  · rw [loadProgram_eq] at hload
    generalize hr : Except.error cause = r₀ at hload
    cases (withProgram_eq_some_iff files).mp hload with
    | lost hc =>
        obtain rfl := Except.error.inj hr
        exact .lost hc
    | cycle hc hmem =>
        obtain rfl := Except.error.inj hr
        exact .cycle hc hmem
    | unread hc hmem hforms =>
        obtain rfl := Except.error.inj hr
        rcases fileForms_error hforms with ⟨e, hread, rfl⟩ | ⟨source, e, hread, hparse, rfl⟩
        · exact .unreadable hc hmem hread
        · exact .noProgram hc hmem hread hparse
    | run hc hmem hforms hrun =>
        obtain ⟨source, hread, hparse⟩ := exists_parse_of_fileForms files hforms
        obtain ⟨r₁, heach, rfl⟩ := evaluatesEach_of_runForms hev hrun
        rw [afterLoading_eq (loading_of_runForms hrun)]
        cases r₁ with
        | error e =>
            obtain rfl := Except.error.inj hr
            exact .formFails hc hmem hread hparse heach
        | ok values => cases hr
  · -- The path is taken off the list before the exports are looked up, which does not matter.
    obtain ⟨c, forms, value, m₂, hc, hmem, hforms, rfl, hrun, rfl⟩ := loadProgram_ok files hload
    obtain ⟨r₀, hbindings, rfl⟩ := Run.mapError_eq_some_iff.mp hexports
    obtain ⟨hcollect, rfl⟩ := Run.outcome_inj hbindings
    obtain ⟨source, hread, hparse⟩ := exists_parse_of_fileForms files hforms
    obtain ⟨r₁, heach, hr₁⟩ := evaluatesEach_of_runForms hev hrun
    obtain ⟨s, hs⟩ := exists_root_of_runForms hrun
    rw [afterLoading_eq (loading_of_runForms hrun)] at hcollect ⊢
    cases r₁ with
    | error e => cases hr₁
    | ok values =>
        exact .collects hc hmem hread hparse heach hs ((Store.exposes_iff hs).mpr hcollect)

theorem evaluates_import {path : String} {r : Except EvalError Expr}
    (h : evalImport files (eval files n) [.string path] scope m = some (r, m')) :
    Evaluates files (Keyword.importing.form [.string path]) scope m r m' := by
  rcases Run.bind_eq_some_iff.mp h with ⟨error, hfile, rfl⟩ | ⟨bindings, m₁, hfile, hrest⟩
  · obtain ⟨r₀, himport, hr₀⟩ := Run.mapError_eq_some_iff.mp hfile
    cases r₀ with
    | ok bindings => cases hr₀
    | error cause =>
        obtain rfl := Except.error.inj hr₀
        exact .importFails (imports_of_importExports hev himport)
  · obtain ⟨r₀, himport, hr₀⟩ := Run.mapError_eq_some_iff.mp hfile
    rw [Run.bind_apply, Run.defineAll_apply] at hrest
    obtain ⟨rfl, rfl⟩ := Run.outcome_inj hrest
    cases r₀ with
    | error cause => cases hr₀
    | ok bindings' =>
        obtain rfl := Except.ok.inj hr₀
        rw [← Store.defineEach_eq_modify]
        exact .imports (imports_of_importExports hev himport)

theorem evaluates_keyword {k : Keyword} {arguments : List Expr} {r : Except EvalError Expr}
    (h : evalKeyword files (eval files n) k arguments scope m = some (r, m')) :
    Evaluates files (k.form arguments) scope m r m' := by
  rcases malformed_or_shaped k arguments with ⟨error, hshape⟩ | hshape
  · rw [evalKeyword_of_malformed _ hshape] at h
    obtain ⟨rfl, rfl⟩ := Run.outcome_inj h
    exact .malformed hshape
  cases hshape with
  | define => exact evaluates_define hev h
  | function =>
      obtain ⟨rfl, rfl⟩ := Run.outcome_inj ((evalFn_symbols _ _ _ _).symm.trans h)
      exact .function
  | literal =>
      obtain ⟨rfl, rfl⟩ := Run.outcome_inj h
      exact .literal
  | case => exact .case (selects_of_evalClauses hev h)
  | importing => exact evaluates_import hev h
  | exporting =>
      obtain ⟨rfl, rfl⟩ := Run.outcome_inj h
      exact .exports

theorem evaluates_step {e : Expr} {r : Except EvalError Expr}
    (h : step files (eval files n) e scope m = some (r, m')) :
    Evaluates files e scope m r m' := by
  cases e with
  | symbol name => exact evaluates_symbol h
  | number | string | closure =>
      obtain ⟨rfl, rfl⟩ := Run.outcome_inj h
      constructor
  | list items =>
      cases items with
      | nil =>
          obtain ⟨rfl, rfl⟩ := Run.outcome_inj h
          exact .empty
      | cons head arguments =>
          cases hk : keyword? head with
          | none =>
              rw [step_application files _ hk] at h
              exact evaluates_application hev (keyword?_eq_none_iff.mp hk) h
          | some k =>
              rw [step_form files _ hk] at h
              obtain rfl := keyword?_eq_some_iff.mp hk
              exact evaluates_keyword hev h

end

/-- What an evaluation ends with is derived by the rules, whatever the fuel. -/
theorem evaluates_of_eval {fuel : Nat} {e : Expr} {scope : ScopeId} {m m' : Machine}
    {r : Except EvalError Expr} (h : eval files fuel e scope m = some (r, m')) :
    Evaluates files e scope m r m' := by
  induction fuel generalizing e scope m r m' with
  | zero => cases h
  | succ fuel ih => exact evaluates_step ih h

/-! ### The rules are followed -/

section

variable {α : Type} {scope : ScopeId} {m m₁ m' : Machine}

theorem Ends.of_keyword {k : Keyword} {arguments : List Expr} {r : Except EvalError Expr}
    (h : Ends files (fun ev => evalKeyword files ev k arguments scope) m r m') :
    Ends files (fun ev => ev (k.form arguments) scope) m r m' := by
  refine ends_eval_iff.mpr ?_
  simpa only [Keyword.form, step_form files _ (keyword?_eq_some_iff.mpr rfl)] using h

theorem Ends.of_application {head : Expr} {arguments : List Expr} {r : Except EvalError Expr}
    (hhead : ∀ k : Keyword, head ≠ .symbol k.name)
    (h : Ends files (fun ev => application ev head arguments scope) m r m') :
    Ends files (fun ev => ev (.list (head :: arguments)) scope) m r m' := by
  refine ends_eval_iff.mpr ?_
  simpa only [step_application files _ (keyword?_eq_none_iff.mpr hhead)] using h

/-- An application ends as soon as its head turns out to be no closure. -/
theorem Ends.of_noClosure {head value : Expr} {arguments : List Expr}
    (hhead : ∀ k : Keyword, head ≠ .symbol k.name)
    (h : Ends files (fun ev => ev head scope) m (.ok value) m')
    (hvalue : ∀ params body captured, value ≠ .closure params body captured) :
    Ends files (fun ev => ev (.list (head :: arguments)) scope) m
      (.error (.notCallable head.text value.description)) m' := by
  refine .of_application hhead ?_
  cases value with
  | closure params body captured => exact absurd rfl (hvalue params body captured)
  | symbol | number | string | list =>
      exact Ends.bind (steady_eval head scope) (steady_const _) h (.of_eq (fun _ => rfl) rfl)

/-- A call evaluates its arguments and then the body. -/
theorem Ends.of_closure {head body : Expr} {params : List String} {captured : ScopeId}
    {arguments : List Expr} {r : Except EvalError Expr}
    (hhead : ∀ k : Keyword, head ≠ .symbol k.name)
    (h : Ends files (fun ev => ev head scope) m (.ok (.closure params body captured)) m₁)
    (h' : Ends files (fun ev => evalAll ev scope arguments >>= fun values =>
      Eval.apply ev params body captured values) m₁ r m') :
    Ends files (fun ev => ev (.list (head :: arguments)) scope) m r m' := by
  refine .of_application hhead (Ends.bind (steady_eval head scope) ?_ h h')
  exact (steady_evalAll scope arguments).bind fun _ => steady_apply _ _ _ _

/-- A call that has the right number of arguments ends as its body does in the new scope. -/
theorem Ends.apply {params : List String} {body : Expr} {captured : ScopeId}
    {values : List Expr} {r : Except EvalError Expr} (hlen : values.length = params.length)
    (h : Ends files (fun ev => ev body m.store.nextId)
      { m with
        store := (m.store.addEmpty (some captured)).defineEach m.store.nextId
          (params.zip values) } r m') :
    Ends files (fun ev => Eval.apply ev params body captured values) m r m' := by
  rw [Store.defineEach_addEmpty] at h
  simp only [Eval.apply, if_pos hlen]
  exact h

/-- Values are collected from left to right. -/
theorem Ends.evalAll_cons {e value : Expr} {es : List Expr}
    {r : Except EvalError (List Expr)}
    (h : Ends files (fun ev => ev e scope) m (.ok value) m₁)
    (h' : Ends files (fun ev => evalAll ev scope es) m₁ r m') :
    Ends files (fun ev => evalAll ev scope (e :: es)) m (r.map (value :: ·)) m' := by
  refine Ends.bind (steady_eval e scope) ((steady_evalAll scope es).bind fun _ => steady_const _)
    h ?_
  cases r with
  | error error => exact h'.bind_error
  | ok values =>
      exact Ends.bind (steady_evalAll scope es) (steady_const _) h' (.of_eq (fun _ => rfl) rfl)

/-- The clauses of a `case` end as the rest of them does after the predicate. -/
theorem Ends.of_predicate {whole : String} {index : Nat} {predicate result value : Expr}
    {rest : List Expr} {r : Except EvalError Expr}
    (h : Ends files (fun ev => ev predicate scope) m (.ok value) m₁)
    (h' : Ends files (fun ev => if value.isTrue then ev result scope
      else evalClauses ev whole scope (index + 1) rest) m₁ r m') :
    Ends files (fun ev => evalClauses ev whole scope index (.list [predicate, result] :: rest))
      m r m' :=
  Ends.bind (steady_eval predicate scope)
    ((steady_eval result scope).ite (steady_evalClauses _ _ _ _)) h h'

theorem Ends.evalImport {path : String} {bindings : List (String × Expr)}
    (h : Ends files (fun ev => importExports files ev path) m (.ok bindings) m₁) :
    Ends files (fun ev => Eval.evalImport files ev [.string path] scope) m (.ok .empty)
      { m₁ with store := m₁.store.defineEach scope bindings } := by
  refine Ends.bind (steady_importExports files path).mapError (steady_const _) h.mapError
    (.of_eq (fun _ => rfl) ?_)
  rw [Run.bind_apply, Run.defineAll_apply, Store.defineEach_eq_modify]
  rfl

/-- Nothing is exported by a file whose load fails before anything is evaluated. -/
theorem Ends.importExports_refused {path : String} {cause : ProgramError}
    (h : LoadEnds files (eval files 0) (fun root _ => root) path m (.error cause) m') :
    Ends files (fun ev => importExports files ev path) m (.error cause) m' := by
  refine Ends.bind_error ⟨0, ?_⟩
  exact (withProgram_eq_some_iff files).mpr h

/-- A load whose forms are evaluated makes `g` of the root scope and the last value. -/
theorem Ends.load {path source : String} {c : Files.Path} {forms : List Expr}
    {r : Except EvalError (List Expr)} (g : ScopeId → Option Expr → α)
    (hc : files.canonical? path = .ok c) (hmem : c ∉ m.loading)
    (hread : files.readText path = .ok source) (hparse : parse source = .ok forms)
    (h : Ends files (fun ev => evalAll ev m.store.nextId forms) (fileStart c m) r m₁) :
    Ends files (fun ev => withProgram files path (runAs ev g)) m
      ((r.map fun values => g m.store.nextId values.getLast?).mapError .eval)
      { m₁ with loading := m.loading } := by
  obtain ⟨n, h⟩ := h
  have hrun : runForms (eval files n) m.store.nextId forms (fileStart c m) =
      some (r.map List.getLast?, m₁) := by
    rw [runForms_eq_evalAll, Run.bind_apply]
    simp only at h
    cases r <;> simp only [h] <;> rfl
  have hends := (withProgram_eq_some_iff (g := g) files).mpr
    (.run hc hmem (fileForms_of_parse hread hparse) hrun)
  rw [afterLoading_eq (loading_of_runForms hrun)] at hends
  refine ⟨n, ?_⟩
  cases r <;> exact hends

end

mutual

/-- What the rules derive for an expression is what its evaluation ends with. -/
theorem ends_of_evaluates {e : Expr} {scope : ScopeId} {m : Machine}
    {r : Except EvalError Expr} {m' : Machine} (h : Evaluates files e scope m r m') :
    Ends files (fun ev => ev e scope) m r m' :=
  match h with
  | .bound hv => ends_eval_iff.mpr (.of_eq (fun _ => rfl) (symbolValue_of_some hv))
  | .unbound hv => ends_eval_iff.mpr (.of_eq (fun _ => rfl) (symbolValue_of_none hv))
  | .number | .string | .closure | .empty => ends_eval_iff.mpr ⟨0, rfl⟩
  | .malformed hshape =>
      .of_keyword (.of_eq (fun ev => evalKeyword_of_malformed ev hshape _) rfl)
  | .define he =>
      .of_keyword (Ends.bind (steady_eval _ _) (steady_const _) (ends_of_evaluates he)
        (.of_eq (fun _ => rfl) rfl))
  | .defineFails he => .of_keyword (ends_of_evaluates he).bind_error
  | .function => .of_keyword (.of_eq (fun _ => rfl) (evalFn_symbols _ _ _ _))
  | .literal => .of_keyword ⟨0, rfl⟩
  | .case hselects => .of_keyword (ends_of_selects hselects)
  | .imports himports => .of_keyword (.evalImport (ends_of_imports himports))
  | .importFails himports => .of_keyword (ends_of_imports himports).mapError.bind_error
  | .exports => .of_keyword ⟨0, rfl⟩
  | .headFails hhead he => .of_application hhead (ends_of_evaluates he).bind_error
  | .notCallable hhead he hvalue => .of_noClosure hhead (ends_of_evaluates he) hvalue
  | .argumentFails hhead he hes =>
      .of_closure hhead (ends_of_evaluates he) (ends_of_each hes).bind_error
  | .arity hhead he hes hlen =>
      .of_closure hhead (ends_of_evaluates he)
        (Ends.bind (steady_evalAll _ _) (steady_apply _ _ _ _) (ends_of_each hes)
          (.of_eq (fun _ => if_neg hlen) rfl))
  | .call hhead he hes hlen hbody =>
      .of_closure hhead (ends_of_evaluates he)
        (Ends.bind (steady_evalAll _ _) (steady_apply _ _ _ _) (ends_of_each hes)
          (.apply hlen (ends_of_evaluates hbody)))

theorem ends_of_each {es : List Expr} {scope : ScopeId} {m : Machine}
    {r : Except EvalError (List Expr)} {m' : Machine} (h : EvaluatesEach files es scope m r m') :
    Ends files (fun ev => evalAll ev scope es) m r m' :=
  match h with
  | .nil => .of_eq (fun _ => rfl) rfl
  | .fails he => (ends_of_evaluates he).bind_error
  | .cons he hes => .evalAll_cons (ends_of_evaluates he) (ends_of_each hes)

theorem ends_of_selects {whole : Expr} {index : Nat} {clauses : List Expr} {scope : ScopeId}
    {m : Machine} {r : Except EvalError Expr} {m' : Machine}
    (h : Selects files whole index clauses scope m r m') :
    Ends files (fun ev => evalClauses ev whole.text scope index clauses) m r m' :=
  match h with
  | .exhausted => .of_eq (fun _ => rfl) rfl
  | .noClause hother => .of_eq (fun _ => evalClauses_of_not_list hother) rfl
  | .noPair hlen => .of_eq (fun _ => evalClauses_of_length_ne hlen) rfl
  | .predicateFails hp => (ends_of_evaluates hp).bind_error
  | .chosen hp hresult => by
      refine .of_predicate (ends_of_evaluates hp) ?_
      simpa only [if_pos (Expr.isTrue_iff.mpr rfl)] using ends_of_evaluates hresult
  | .passed hp hvalue hrest => by
      refine .of_predicate (ends_of_evaluates hp) ?_
      simpa only [if_neg (mt Expr.isTrue_iff.mp hvalue)] using ends_of_selects hrest

theorem ends_of_imports {path : String} {m : Machine}
    {r : Except ProgramError (List (String × Expr))} {m' : Machine}
    (h : Imports files path m r m') :
    Ends files (fun ev => importExports files ev path) m r m' :=
  match h with
  | .lost hc => .importExports_refused (.lost hc)
  | .cycle hc hmem => .importExports_refused (.cycle hc hmem)
  | .unreadable hc hmem hread =>
      .importExports_refused (.unread hc hmem (fileForms_of_unreadable hread))
  | .noProgram hc hmem hread hparse =>
      .importExports_refused (.unread hc hmem (fileForms_of_parse_error hread hparse))
  | .formFails hc hmem hread hparse heach =>
      (Ends.load (fun root _ => root) hc hmem hread hparse (ends_of_each heach)).bind_error
  | .collects hc hmem hread hparse heach hs hexposes =>
      Ends.bind (steady_loadProgram files _) (steady_const _)
        (Ends.load (fun root _ => root) hc hmem hread hparse (ends_of_each heach))
        (.of_eq (fun _ => rfl) (mapError_exportedBindings hs hexposes))

end

/-- Forms are run as the rules say, and the last value counts. -/
theorem ends_of_forms {forms : List Expr} {scope : ScopeId} {m m' : Machine}
    {r : Except EvalError (List Expr)} (h : EvaluatesEach files forms scope m r m') :
    Ends files (fun ev => runForms ev scope forms) m (r.map List.getLast?) m' := by
  simp only [runForms_eq_evalAll]
  cases r with
  | error error => exact (ends_of_each h).bind_error
  | ok values =>
      exact Ends.bind (steady_evalAll _ _) (steady_const _) (ends_of_each h)
        (.of_eq (fun _ => rfl) rfl)

/-- A text is run as the rules say for its forms. -/
theorem ends_of_source {source : String} {forms : List Expr} {scope : ScopeId} {m m' : Machine}
    {r : Except EvalError (List Expr)} (hparse : parse source = .ok forms)
    (h : EvaluatesEach files forms scope m r m') :
    Ends files (fun ev => evaluateSource ev source scope) m
      ((r.map List.getLast?).mapError .eval) m' := by
  have hforms : ∀ ev, evaluateSource ev source scope =
      Run.mapError .eval (runForms ev scope forms) := by
    intro ev
    funext m
    rw [evaluateSource_apply, hparse]
  simp only [hforms]
  exact (ends_of_forms h).mapError

/-! ### The law of evaluation -/

/-- **Evaluation is what the rules say.** In every state, scope by scope and expression by
expression, evaluation ends with a result and leaves a state exactly if the rules derive that
result and that state. And in a well-formed store the rules for symbols are about the way
outwards: a symbol stands for what its name is bound to in the first scope that binds it, and
is unbound if there is none up to a scope that lies in no other. -/
theorem evaluation_by_rules (files : FileSystem) :
    (∀ e scope m r m', Ends files (fun ev => ev e scope) m r m' ↔ Evaluates files e scope m r m') ∧
    (∀ m : Machine, m.store.WellFormed → ∀ scope : ScopeId, scope.index < m.store.size →
      ∀ name r m', Evaluates files (.symbol name) scope m r m' ↔
        m' = m ∧ ((∃ v, m.store.Finds name scope (some v) ∧ r = .ok v) ∨
          (m.store.Finds name scope none ∧ r = .error (.unboundSymbol name)))) := by
  constructor
  · intro e scope m r m'
    constructor
    · rintro ⟨fuel, h⟩
      exact evaluates_of_eval h
    · exact ends_of_evaluates
  · intro m hm scope hscope name r m'
    have hfinds : ∀ {found}, m.store.Finds name scope found ↔ m.store.lookup scope name = found :=
      fun {_} => hm.finds_iff hscope
    constructor
    · intro h
      cases h with
      | bound hv => exact ⟨rfl, Or.inl ⟨_, hfinds.mpr hv, rfl⟩⟩
      | unbound hv => exact ⟨rfl, Or.inr ⟨hfinds.mpr hv, rfl⟩⟩
    · rintro ⟨rfl, ⟨v, hv, rfl⟩ | ⟨hnone, rfl⟩⟩
      · exact .bound (hfinds.mp hv)
      · exact .unbound (hfinds.mp hnone)

/-- A `literal` form in a scope that binds the name `literal`, and a symbol there that is bound
in the scope around. -/
theorem evaluation_by_rules_boundKeyword :
    let inner := Store.empty.addPrelude.addEmpty (some ⟨0⟩)
    let m : Machine := ⟨inner.define ⟨1⟩ "literal" .empty, []⟩
    m.store.WellFormed ∧
      Evaluates ⟨[], []⟩ (Keyword.literal.form [.symbol "x"]) ⟨1⟩ m (.ok (.symbol "x")) m ∧
      Ends ⟨[], []⟩ (fun ev => ev (.symbol "true") ⟨1⟩) m (.ok (.symbol "true")) m := by
  intro inner m
  have hcourse : FitCourse ⟨[], []⟩ .whole Machine.start [.scope ⟨0⟩, .scope ⟨1⟩, .nothing] m := by
    refine .cons (o := .newProgram) trivial ⟨0, rfl⟩ ?_
    refine .cons (o := .enclose ⟨0⟩) ⟨Nat.zero_le _, by decide⟩ ⟨0, rfl⟩ ?_
    refine .cons (o := .define ⟨1⟩ "literal" .empty) ?_ ⟨0, rfl⟩ (.nil _)
    exact ⟨⟨Nat.zero_le _, by decide⟩, .empty⟩
  obtain ⟨hm, -⟩ := hcourse.stays Realm.reads_whole Store.wellFormed_empty
  obtain ⟨hrules, hsymbols⟩ := evaluation_by_rules ⟨[], []⟩
  have htrue : m.store.Finds "true" ⟨1⟩ (some (.symbol "true")) :=
    .around rfl rfl rfl (.here rfl rfl)
  refine ⟨hm, (hrules _ _ _ _ _).mp ⟨1, rfl⟩, (hrules _ _ _ _ _).mpr ?_⟩
  exact (hsymbols m hm ⟨1⟩ (by decide) "true" _ _).mpr ⟨rfl, Or.inl ⟨_, htrue, rfl⟩⟩

end Eval

end ModularLisp
