import Mathlib
import ModularLisp.Eval.Basic

/-!
# ModularLisp.Proofs.Ends

**Ending.** Evaluation is given fuel, but what it means that a run ends must not
mention any: a run ends with a result and a state if it does so with *some* amount of
fuel (`Eval.Ends`). This is a function of the state the run starts in, because more
fuel changes nothing about a run that has ended (`Eval.eval_below`,
`Eval.Ends.unique`).

The module also gives the two ways in which all later proofs take a run apart:
`Run.bind_eq_some_iff` for what is done in sequence, and `Eval.withProgram_eq_some_iff` for
what happens between asking for a file and the end of its forms.
-/

namespace ModularLisp

namespace Run

variable {ε δ α β : Type}

/-! ### Taking runs apart -/

/-- Runs that come to the same have the same result and leave the same state. -/
theorem outcome_inj {r r' : Except ε α} {m m' : Machine} (h : some (r, m) = some (r', m')) :
    r = r' ∧ m = m' :=
  Prod.mk.inj (Option.some.inj h)

/-- A sequence ends where its first part fails, or where the second part ends after the
first one gave a value. -/
theorem bind_eq_some_iff {x : Run ε α} {f : α → Run ε β} {m m' : Machine} {r : Except ε β} :
    (x >>= f) m = some (r, m') ↔
      (∃ e, x m = some (.error e, m') ∧ r = .error e) ∨
        ∃ a m₁, x m = some (.ok a, m₁) ∧ f a m₁ = some (r, m') := by
  rw [bind_apply]
  rcases x m with _ | ⟨e | a, m₁⟩
  · simp
  · constructor
    · intro h
      obtain ⟨rfl, rfl⟩ := outcome_inj h
      exact Or.inl ⟨e, rfl, rfl⟩
    · intro h
      rcases h with ⟨e', h, rfl⟩ | ⟨a, m₂, h, -⟩
      · simpa using h
      · simp at h
  · constructor
    · exact fun h => Or.inr ⟨a, m₁, rfl, h⟩
    · intro h
      rcases h with ⟨e, h, -⟩ | ⟨a', m₂, h, h'⟩
      · simp at h
      · obtain ⟨h₁, rfl⟩ := outcome_inj h
        obtain rfl := Except.ok.inj h₁
        exact h'

/-- Rewording an error changes neither when a run ends nor the state it leaves. -/
theorem mapError_eq_some_iff {f : ε → δ} {x : Run ε α} {m m' : Machine} {r : Except δ α} :
    mapError f x m = some (r, m') ↔ ∃ r₀, x m = some (r₀, m') ∧ r = r₀.mapError f := by
  unfold mapError
  rcases x m with _ | ⟨e | a, m₁⟩
  · simp
  all_goals
    constructor
    · intro h
      obtain ⟨rfl, rfl⟩ := outcome_inj h
      exact ⟨_, rfl, rfl⟩
    · intro h
      obtain ⟨r₀, h, rfl⟩ := h
      obtain ⟨rfl, rfl⟩ := outcome_inj h
      rfl

/-! ### Runs that end more often -/

/-- `y` ends wherever `x` does, and in the same way. -/
def Below (x y : Run ε α) : Prop :=
  ∀ m o, x m = some o → y m = some o

theorem Below.refl (x : Run ε α) : x.Below x :=
  fun _ _ h => h

theorem Below.bind {x y : Run ε α} {f g : α → Run ε β} (hxy : x.Below y)
    (hfg : ∀ a, (f a).Below (g a)) : (x >>= f).Below (y >>= g) := by
  intro m o h
  obtain ⟨r, m'⟩ := o
  rcases bind_eq_some_iff.mp h with ⟨e, hx, rfl⟩ | ⟨a, m₁, hx, hf⟩
  · exact bind_eq_some_iff.mpr (Or.inl ⟨e, hxy _ _ hx, rfl⟩)
  · exact bind_eq_some_iff.mpr (Or.inr ⟨a, m₁, hxy _ _ hx, hfg a _ _ hf⟩)

theorem Below.mapError {f : ε → δ} {x y : Run ε α} (hxy : x.Below y) :
    (mapError f x).Below (mapError f y) := by
  intro m o h
  obtain ⟨r, m'⟩ := o
  obtain ⟨r₀, hx, rfl⟩ := mapError_eq_some_iff.mp h
  exact mapError_eq_some_iff.mpr ⟨r₀, hxy _ _ hx, rfl⟩

end Run

/-- `ev'` ends wherever `ev` does, and in the same way. -/
def Evaluator.Below (ev ev' : Evaluator) : Prop :=
  ∀ e scope, (ev e scope).Below (ev' e scope)

namespace Eval

open Files (FileSystem)

variable {ε α : Type} (files : FileSystem)

/-! ### Forms -/

/-- The form `(export name)` -/
def exportForm (name : String) : Expr :=
  .list [.symbol Keyword.exporting.name, .symbol name]

/-- The form `(import "path")` -/
def importForm (path : String) : Expr :=
  .list [.symbol Keyword.importing.name, .string path]

theorem step_importForm (ev : Evaluator) (path : String) (scope : ScopeId) :
    step files ev (importForm path) scope = evalImport files ev [.string path] scope := rfl

/-- An import fails as the run of the file does. -/
theorem step_importForm_error {ev : Evaluator} {path : String} {cause : ProgramError}
    {m m' : Machine} (h : importExports files ev path m = some (.error cause, m'))
    (scope : ScopeId) :
    step files ev (importForm path) scope m = some (.error (.importFailed path cause), m') := by
  rw [step_importForm, evalImport]
  refine Run.bind_eq_some_iff.mpr (Or.inl ⟨_, ?_, rfl⟩)
  exact Run.mapError_eq_some_iff.mpr ⟨_, h, rfl⟩

theorem step_form (ev : Evaluator) {head : Expr} {k : Keyword} (h : keyword? head = some k)
    (arguments : List Expr) (scope : ScopeId) :
    step files ev (.list (head :: arguments)) scope = evalKeyword files ev k arguments scope := by
  simp only [step, h]

theorem step_application (ev : Evaluator) {head : Expr} (h : keyword? head = none)
    (arguments : List Expr) (scope : ScopeId) :
    step files ev (.list (head :: arguments)) scope = application ev head arguments scope := by
  simp only [step, h]

/-- The predicate and the result of a clause, if it is a pair. -/
def clausePair? : Expr → Option (Expr × Expr)
  | .list [predicate, result] => some (predicate, result)
  | _ => none

/-- What is wrong with the clause counted `index` that is no pair. -/
def clauseError (index : Nat) : Expr → FormError
  | .list items => .casePair index (Expr.list items).text
  | other => .caseClause index other.description

theorem evalClauses_cons (ev : Evaluator) (whole : String) (scope : ScopeId) (index : Nat)
    (clause : Expr) (rest : List Expr) :
    evalClauses ev whole scope index (clause :: rest) =
      match clausePair? clause with
      | some (predicate, result) => do
          let value ← ev predicate scope
          if value.isTrue then ev result scope else evalClauses ev whole scope (index + 1) rest
      | none => malformed (clauseError index clause) := by
  cases clause with
  | list items =>
      match items with
      | [] => rfl
      | [_] => rfl
      | [_, _] => rfl
      | _ :: _ :: _ :: _ => rfl
  | symbol | number | string | closure => rfl

/-! ### Files as programs -/

/-- The forms of the file that a written path leads to, or why there are none. -/
def fileForms (path : String) : Except ProgramError (List Expr) :=
  match files.readText path with
  | .error e => .error (.io e)
  | .ok source => (parse source).mapError .parse

theorem fileForms_ne_cycle (path text : String) : fileForms files path ≠ .error (.cycle text) := by
  unfold fileForms
  rcases files.readText path with e | source
  · simp
  · show (parse source).mapError ProgramError.parse ≠ _
    rcases parse source with e | forms <;> simp [Except.mapError]

/-- The forms of a file are read from its text. -/
theorem exists_parse_of_fileForms {path : String} {forms : List Expr}
    (h : fileForms files path = .ok forms) :
    ∃ source, files.readText path = .ok source ∧ parse source = .ok forms := by
  unfold fileForms at h
  rcases hr : files.readText path with e | source
  · simp [hr] at h
  · simp only [hr] at h
    refine ⟨source, rfl, ?_⟩
    rcases hp : parse source with e | forms'
    · rw [hp] at h
      cases h
    · rw [hp] at h
      exact congrArg Except.ok (Except.ok.inj h)

/-- The state when the path of a file has been added, in which the file is read and run. -/
def whileLoading (path : Files.Path) (m : Machine) : Machine :=
  { m with loading := m.loading ++ [path] }

/-- The state when the path that was added last has been taken off. -/
def afterLoading (m : Machine) : Machine :=
  { m with loading := m.loading.dropLast }

@[simp] theorem loading_afterLoading (m : Machine) :
    (afterLoading m).loading = m.loading.dropLast := rfl

/-- What a load comes to: four ways to fail before any form is evaluated, all of which
leave the state as it was, and otherwise the outcome of running the forms. -/
theorem withProgram_apply (path : String) (body : List Expr → Run EvalError α) (m : Machine) :
    withProgram files path body m =
      match files.canonical? path with
      | .error e => some (.error (.io e), m)
      | .ok c =>
          if c ∈ m.loading then some (.error (.cycle (Files.Path.text c)), m)
          else
            match fileForms files path with
            | .error e => some (.error e, m)
            | .ok forms =>
                (body forms (whileLoading c m)).map fun o =>
                  (o.1.mapError .eval, afterLoading o.2) := by
  rw [withProgram, Run.bind_apply]
  rcases files.canonical? path with e | c
  · rfl
  simp only [Run.mapError, Run.ofExcept, loading]
  split
  · rfl
  unfold fileForms
  simp only [Run.bind_apply, Run.mapError, Run.ofExcept]
  rcases files.readText path with e | source
  · simp
  simp only
  rcases parse source with e | forms
  · simp [Except.mapError]
  simp only [Except.mapError, whileLoading]
  rcases body forms _ with _ | ⟨e | a, m'⟩ <;> rfl

/-- The state in which the first form of a file is evaluated, in a new root scope. -/
def fileStart (path : Files.Path) (m : Machine) : Machine :=
  { whileLoading path m with store := m.store.addPrelude }

@[simp] theorem store_fileStart (path : Files.Path) (m : Machine) :
    (fileStart path m).store = m.store.addPrelude := rfl

@[simp] theorem loading_fileStart (path : Files.Path) (m : Machine) :
    (fileStart path m).loading = m.loading ++ [path] := rfl

theorem runForms_append (ev : Evaluator) (scope : ScopeId) (before : List Expr) (e : Expr)
    (after : List Expr) :
    runForms ev scope (before ++ e :: after) =
      runForms ev scope before >>= fun _ => runForms ev scope (e :: after) := by
  induction before with
  | nil => rfl
  | cons first before ih =>
      cases before with
      | nil => simp only [runForms, List.cons_append, List.nil_append, bind_assoc, pure_bind]
      | cons second before =>
          simp only [List.cons_append, runForms, bind_assoc] at ih ⊢
          rw [ih]

theorem runForms_cons_error {ev : Evaluator} {scope : ScopeId} {e : Expr} {error : EvalError}
    {m m' : Machine} (h : ev e scope m = some (.error error, m')) (after : List Expr) :
    runForms ev scope (e :: after) m = some (.error error, m') := by
  cases after with
  | nil => exact Run.bind_eq_some_iff.mpr (Or.inl ⟨error, h, rfl⟩)
  | cons e' after => exact Run.bind_eq_some_iff.mpr (Or.inl ⟨error, h, rfl⟩)

/-- Runs forms as a program of its own and makes `g` of its root scope and its value. -/
def runAs (ev : Evaluator) (g : ScopeId → Option Expr → α) (forms : List Expr) :
    Run EvalError α := do
  let scope ← Run.addPrelude
  let value ← runForms ev scope forms
  pure (g scope value)

theorem loadProgram_eq (ev : Evaluator) (path : String) :
    loadProgram files ev path = withProgram files path (runAs ev fun scope _ => scope) := rfl

theorem runFile_eq (ev : Evaluator) (path : String) :
    runFile files ev path = withProgram files path (runAs ev fun _ value => value) := by
  unfold runFile runAs
  simp only [bind_pure]

/-- A load, in terms of the forms of the file. -/
theorem withProgram_runAs_apply (ev : Evaluator) (g : ScopeId → Option Expr → α) (path : String)
    (m : Machine) :
    withProgram files path (runAs ev g) m =
      match files.canonical? path with
      | .error e => some (.error (.io e), m)
      | .ok c =>
          if c ∈ m.loading then some (.error (.cycle (Files.Path.text c)), m)
          else
            match fileForms files path with
            | .error e => some (.error e, m)
            | .ok forms =>
                (runForms ev m.store.nextId forms (fileStart c m)).map fun o =>
                  ((o.1.map (g m.store.nextId)).mapError .eval, afterLoading o.2) := by
  rw [withProgram_apply]
  rcases files.canonical? path with e | c
  · rfl
  simp only
  split
  · rfl
  rcases fileForms files path with e | forms
  · rfl
  have hrun : runAs ev g forms (whileLoading c m) =
      (runForms ev m.store.nextId forms (fileStart c m)).map fun o =>
        (o.1.map (g m.store.nextId), o.2) := by
    show (runForms ev m.store.nextId forms >>= fun v => pure (g m.store.nextId v))
      (fileStart c m) = _
    rw [Run.bind_apply]
    rcases runForms ev m.store.nextId forms (fileStart c m) with _ | ⟨e | v, m'⟩ <;> rfl
  simp only [hrun, Option.map_map]
  rfl

/-- The ways in which a load can end that makes `g` of the root scope and of the value of the
last form: three before anything is evaluated, which leave the state as it was, and one in
which the forms are run. -/
inductive LoadEnds (files : FileSystem) (ev : Evaluator) (g : ScopeId → Option Expr → α)
    (path : String) (m : Machine) : Except ProgramError α → Machine → Prop
  | lost {e : Files.IoError} : files.canonical? path = .error e →
      LoadEnds files ev g path m (.error (.io e)) m
  | cycle {c : Files.Path} : files.canonical? path = .ok c → c ∈ m.loading →
      LoadEnds files ev g path m (.error (.cycle c.text)) m
  | unread {c : Files.Path} {e : ProgramError} : files.canonical? path = .ok c →
      c ∉ m.loading → fileForms files path = .error e → LoadEnds files ev g path m (.error e) m
  | run {c : Files.Path} {forms : List Expr} {r : Except EvalError (Option Expr)}
      {m₁ : Machine} : files.canonical? path = .ok c → c ∉ m.loading →
      fileForms files path = .ok forms →
      runForms ev m.store.nextId forms (fileStart c m) = some (r, m₁) →
      LoadEnds files ev g path m ((r.map (g m.store.nextId)).mapError .eval) (afterLoading m₁)

/-- Every proof about a load takes it apart in this way. -/
theorem withProgram_eq_some_iff {ev : Evaluator} {g : ScopeId → Option Expr → α} {path : String}
    {m m' : Machine} {r : Except ProgramError α} :
    withProgram files path (runAs ev g) m = some (r, m') ↔ LoadEnds files ev g path m r m' := by
  rw [withProgram_runAs_apply]
  constructor
  · intro h
    cases hc : files.canonical? path with
    | error e =>
        simp only [hc] at h
        obtain ⟨rfl, rfl⟩ := Run.outcome_inj h
        exact .lost hc
    | ok c =>
        simp only [hc] at h
        by_cases hmem : c ∈ m.loading
        · rw [if_pos hmem] at h
          obtain ⟨rfl, rfl⟩ := Run.outcome_inj h
          exact .cycle hc hmem
        rw [if_neg hmem] at h
        cases hforms : fileForms files path with
        | error e =>
            simp only [hforms] at h
            obtain ⟨rfl, rfl⟩ := Run.outcome_inj h
            exact .unread hc hmem hforms
        | ok forms =>
            simp only [hforms, Option.map_eq_some_iff] at h
            obtain ⟨⟨r₁, m₁⟩, hrun, heq⟩ := h
            obtain ⟨rfl, rfl⟩ := Prod.mk.inj heq
            exact .run hc hmem hforms hrun
  · intro h
    cases h with
    | lost hc => simp only [hc]
    | cycle hc hmem => simp only [hc, if_pos hmem]
    | unread hc hmem hforms => simp only [hc, if_neg hmem, hforms]
    | run hc hmem hforms hrun => simp only [hc, if_neg hmem, hforms, hrun, Option.map_some]

/-- A load that succeeds has run all forms of a file that was not being loaded already. -/
theorem loadProgram_ok {ev : Evaluator} {path : String} {m m' : Machine} {root : ScopeId}
    (h : loadProgram files ev path m = some (.ok root, m')) :
    ∃ c forms value m₁, files.canonical? path = .ok c ∧ c ∉ m.loading ∧
      fileForms files path = .ok forms ∧ root = m.store.nextId ∧
      runForms ev root forms (fileStart c m) = some (.ok value, m₁) ∧ m' = afterLoading m₁ := by
  rw [loadProgram_eq] at h
  generalize hr : Except.ok root = r₀ at h
  cases (withProgram_eq_some_iff files).mp h with
  | lost | cycle | unread => cases hr
  | @run c forms r m₁ hc hmem hforms hrun =>
      cases r with
      | error e => cases hr
      | ok value =>
          obtain rfl := Except.ok.inj hr
          exact ⟨c, forms, value, m₁, hc, hmem, hforms, rfl, hrun, rfl⟩

/-- A text is run in the scope at hand, and nothing happens if it is no program. -/
theorem evaluateSource_apply (ev : Evaluator) (source : String) (scope : ScopeId)
    (m : Machine) :
    evaluateSource ev source scope m =
      match parse source with
      | .error e => some (.error (.parse e), m)
      | .ok forms => Run.mapError .eval (runForms ev scope forms) m := by
  rw [evaluateSource, Run.bind_apply]
  rcases parse source with e | forms <;> rfl

/-! ### More fuel -/

/-- An operation that ends more often over an evaluator that ends more often. -/
def Steady (x : Evaluator → Run ε α) : Prop :=
  ∀ ⦃ev ev' : Evaluator⦄, ev.Below ev' → (x ev).Below (x ev')

theorem steady_const (x : Run ε α) : Steady fun _ => x :=
  fun _ _ _ => .refl x

theorem steady_eval (e : Expr) (scope : ScopeId) : Steady fun ev => ev e scope :=
  fun _ _ h => h e scope

theorem Steady.bind {β : Type} {x : Evaluator → Run ε α} {f : Evaluator → α → Run ε β}
    (hx : Steady x) (hf : ∀ a, Steady fun ev => f ev a) : Steady fun ev => x ev >>= f ev :=
  fun _ _ h => (hx h).bind fun a => hf a h

theorem Steady.mapError {δ : Type} {f : ε → δ} {x : Evaluator → Run ε α} (hx : Steady x) :
    Steady fun ev => Run.mapError f (x ev) :=
  fun _ _ h => (hx h).mapError

theorem Steady.ite {p : Prop} [Decidable p] {x y : Evaluator → Run ε α} (hx : Steady x)
    (hy : Steady y) : Steady fun ev => if p then x ev else y ev := by
  split
  · exact hx
  · exact hy

theorem steady_evalAll (scope : ScopeId) (es : List Expr) :
    Steady fun ev => evalAll ev scope es := by
  induction es with
  | nil => exact steady_const _
  | cons e es ih =>
      exact (steady_eval e scope).bind fun _ => ih.bind fun _ => steady_const _

theorem steady_runForms (scope : ScopeId) (forms : List Expr) :
    Steady fun ev => runForms ev scope forms := by
  induction forms with
  | nil => exact steady_const _
  | cons e es ih =>
      cases es with
      | nil => exact (steady_eval e scope).bind fun _ => steady_const _
      | cons e' es => exact (steady_eval e scope).bind fun _ => ih

theorem steady_apply (params : List String) (body : Expr) (captured : ScopeId)
    (arguments : List Expr) : Steady fun ev => apply ev params body captured arguments := by
  unfold apply
  exact ((steady_const _).bind fun _ => steady_eval _ _).ite (steady_const _)

theorem steady_application (head : Expr) (arguments : List Expr) (scope : ScopeId) :
    Steady fun ev => application ev head arguments scope := by
  refine (steady_eval head scope).bind fun value => ?_
  cases value with
  | closure params body captured =>
      exact (steady_evalAll scope arguments).bind fun _ => steady_apply _ _ _ _
  | symbol | number | string | list => exact steady_const _

theorem steady_evalDef (arguments : List Expr) (scope : ScopeId) :
    Steady fun ev => evalDef ev arguments scope := by
  unfold evalDef
  split
  · exact (steady_eval _ _).bind fun _ => steady_const _
  · exact steady_const _
  · exact steady_const _

theorem steady_evalClauses (whole : String) (scope : ScopeId) (index : Nat)
    (clauses : List Expr) : Steady fun ev => evalClauses ev whole scope index clauses := by
  induction clauses generalizing index with
  | nil => exact steady_const _
  | cons clause rest ih =>
      simp only [evalClauses_cons]
      cases clausePair? clause with
      | none => exact steady_const _
      | some pair =>
          exact (steady_eval pair.1 scope).bind fun _ =>
            (steady_eval pair.2 scope).ite (ih (index + 1))

theorem steady_withProgram (g : ScopeId → Option Expr → α) (path : String) :
    Steady fun ev => withProgram files path (runAs ev g) := by
  intro ev ev' hev m o h
  obtain ⟨r, m'⟩ := o
  refine (withProgram_eq_some_iff files).mpr ?_
  cases (withProgram_eq_some_iff files).mp h with
  | lost hc => exact .lost hc
  | cycle hc hmem => exact .cycle hc hmem
  | unread hc hmem hforms => exact .unread hc hmem hforms
  | run hc hmem hforms hrun => exact .run hc hmem hforms (steady_runForms _ _ hev _ _ hrun)

theorem steady_loadProgram (path : String) : Steady fun ev => loadProgram files ev path :=
  steady_withProgram files _ path

theorem steady_runFile (path : String) : Steady fun ev => runFile files ev path := by
  simp only [runFile_eq]
  exact steady_withProgram files _ path

theorem steady_importExports (path : String) : Steady fun ev => importExports files ev path :=
  (steady_loadProgram files path).bind fun _ => steady_const _

theorem steady_evaluateSource (source : String) (scope : ScopeId) :
    Steady fun ev => evaluateSource ev source scope :=
  (steady_const _).bind fun forms => (steady_runForms scope forms).mapError

theorem steady_evalImport (arguments : List Expr) (scope : ScopeId) :
    Steady fun ev => evalImport files ev arguments scope := by
  unfold evalImport
  split
  · exact (steady_importExports files _).mapError.bind fun _ => steady_const _
  · exact steady_const _

theorem steady_evalKeyword (k : Keyword) (arguments : List Expr) (scope : ScopeId) :
    Steady fun ev => evalKeyword files ev k arguments scope := by
  cases k with
  | define => exact steady_evalDef _ _
  | function => exact steady_const _
  | literal => exact steady_const _
  | case => exact steady_evalClauses _ _ _ _
  | importing => exact steady_evalImport files _ _
  | exporting => exact steady_const _

theorem steady_step (e : Expr) (scope : ScopeId) : Steady fun ev => step files ev e scope := by
  unfold step
  split
  · exact steady_const _
  · exact steady_const _
  · split
    · exact steady_evalKeyword files _ _ _
    · exact steady_application _ _ _
  · exact steady_const _

/-- More fuel changes nothing about an evaluation that has ended. -/
theorem eval_below {fuel fuel' : Nat} (h : fuel ≤ fuel') :
    (eval files fuel).Below (eval files fuel') := by
  induction fuel generalizing fuel' with
  | zero => exact fun e scope m o h => by cases h
  | succ n ih =>
      cases fuel' with
      | zero => omega
      | succ n' => exact fun e scope => steady_step files e scope (ih (by omega))

/-! ### Ending -/

/-- The operation `x`, started in `m`, ends with the result `r` and leaves the state
`m'`. -/
def Ends (x : Evaluator → Run ε α) (m : Machine) (r : Except ε α) (m' : Machine) : Prop :=
  ∃ fuel, x (eval files fuel) m = some (r, m')

variable {files}

/-- What an evaluation comes to, by the rules. -/
theorem ends_eval_iff {e : Expr} {scope : ScopeId} {m m' : Machine} {r : Except EvalError Expr} :
    Ends files (fun ev => ev e scope) m r m' ↔
      Ends files (fun ev => step files ev e scope) m r m' := by
  constructor
  · intro h
    obtain ⟨fuel, h⟩ := h
    cases fuel with
    | zero => cases h
    | succ fuel => exact ⟨fuel, h⟩
  · intro h
    obtain ⟨fuel, h⟩ := h
    exact ⟨fuel + 1, h⟩

/-- A sequence ends if its first part gives a value and its second part ends from there. -/
theorem Ends.bind {β : Type} {x : Evaluator → Run ε α} {f : Evaluator → α → Run ε β}
    {m m₁ m' : Machine} {a : α} {r : Except ε β} (hx : Steady x)
    (hf : Steady fun ev => f ev a) (h : Ends files x m (.ok a) m₁)
    (h' : Ends files (fun ev => f ev a) m₁ r m') :
    Ends files (fun ev => x ev >>= f ev) m r m' := by
  obtain ⟨n, h⟩ := h
  obtain ⟨n', h'⟩ := h'
  refine ⟨max n n', Run.bind_eq_some_iff.mpr (Or.inr ⟨a, m₁, ?_, ?_⟩)⟩
  · exact hx (eval_below files (Nat.le_max_left n n')) _ _ h
  · exact hf (eval_below files (Nat.le_max_right n n')) _ _ h'

/-- What is the same over every evaluator ends at once. -/
theorem Ends.of_eq {x : Evaluator → Run ε α} {y : Run ε α} {m m' : Machine} {r : Except ε α}
    (hx : ∀ ev, x ev = y) (h : y m = some (r, m')) : Ends files x m r m' :=
  ⟨0, (congrFun (hx _) m).trans h⟩

/-- A sequence ends where its first part fails. -/
theorem Ends.bind_error {β : Type} {x : Evaluator → Run ε α} {f : Evaluator → α → Run ε β}
    {m m' : Machine} {error : ε} (h : Ends files x m (.error error) m') :
    Ends files (fun ev => x ev >>= f ev) m (.error error) m' := by
  obtain ⟨n, h⟩ := h
  exact ⟨n, Run.bind_eq_some_iff.mpr (Or.inl ⟨error, h, rfl⟩)⟩

theorem Ends.mapError {δ : Type} {f : ε → δ} {x : Evaluator → Run ε α} {m m' : Machine}
    {r : Except ε α} (h : Ends files x m r m') :
    Ends files (fun ev => Run.mapError f (x ev)) m (r.mapError f) m' := by
  obtain ⟨n, h⟩ := h
  exact ⟨n, Run.mapError_eq_some_iff.mpr ⟨r, h, rfl⟩⟩

/-- A run that ends does so in one way only. -/
theorem Ends.unique {x : Evaluator → Run ε α} (hx : Steady x) {m m₁ m₂ : Machine}
    {r₁ r₂ : Except ε α} (h₁ : Ends files x m r₁ m₁) (h₂ : Ends files x m r₂ m₂) :
    r₁ = r₂ ∧ m₁ = m₂ := by
  obtain ⟨n₁, h₁⟩ := h₁
  obtain ⟨n₂, h₂⟩ := h₂
  have h₁' := hx (eval_below files (Nat.le_max_left n₁ n₂)) _ _ h₁
  have h₂' := hx (eval_below files (Nat.le_max_right n₁ n₂)) _ _ h₂
  exact Prod.mk.inj (Option.some.inj (h₁'.symm.trans h₂'))

/-- A failure ends at once, in the state at hand. -/
theorem ends_fail_iff {e : ε} {m m' : Machine} {r : Except ε α} :
    Ends files (fun _ => .fail e) m r m' ↔ r = .error e ∧ m' = m := by
  constructor
  · rintro ⟨_, h⟩
    obtain ⟨rfl, rfl⟩ := Run.outcome_inj h
    exact ⟨rfl, rfl⟩
  · rintro ⟨rfl, rfl⟩
    exact .of_eq (fun _ => rfl) rfl

section

variable {β : Type} {x : Evaluator → Run ε α} {f : Evaluator → α → Run ε β}
  {m m₁ m' : Machine} {r : Except ε β}

/-- A sequence ends where its first part fails, or where the second part ends after the first one
gave a value. -/
theorem Ends.bind_iff (hx : Steady x) (hf : ∀ a, Steady fun ev => f ev a) :
    Ends files (fun ev => x ev >>= f ev) m r m' ↔
      (∃ e, Ends files x m (.error e) m' ∧ r = .error e) ∨
        ∃ a m₁, Ends files x m (.ok a) m₁ ∧ Ends files (fun ev => f ev a) m₁ r m' := by
  constructor
  · rintro ⟨n, h⟩
    rcases Run.bind_eq_some_iff.mp h with ⟨e, hx, rfl⟩ | ⟨a, m₁, hx, hrest⟩
    · exact Or.inl ⟨e, ⟨n, hx⟩, rfl⟩
    · exact Or.inr ⟨a, m₁, ⟨n, hx⟩, ⟨n, hrest⟩⟩
  · rintro (⟨e, h, rfl⟩ | ⟨a, m₁, h, h'⟩)
    · exact h.bind_error
    · exact Ends.bind hx (hf a) h h'

/-- After a first part that gives a value a sequence ends as the second part does. -/
theorem Ends.bind_iff_of_ok (hx : Steady x) (hf : ∀ a, Steady fun ev => f ev a) {a : α}
    (h : Ends files x m (.ok a) m₁) :
    Ends files (fun ev => x ev >>= f ev) m r m' ↔ Ends files (fun ev => f ev a) m₁ r m' := by
  rw [Ends.bind_iff hx hf]
  constructor
  · rintro (⟨e, h', -⟩ | ⟨a', m₁', h', hrest⟩)
    · cases (h.unique hx h').1
    · obtain ⟨heq, rfl⟩ := h.unique hx h'
      obtain rfl := Except.ok.inj heq
      exact hrest
  · exact fun h' => Or.inr ⟨a, m₁, h, h'⟩

/-- After a first part that fails a sequence has failed. -/
theorem Ends.bind_iff_of_error (hx : Steady x) (hf : ∀ a, Steady fun ev => f ev a) {e : ε}
    (h : Ends files x m (.error e) m₁) :
    Ends files (fun ev => x ev >>= f ev) m r m' ↔ r = .error e ∧ m' = m₁ := by
  rw [Ends.bind_iff hx hf]
  constructor
  · rintro (⟨e', h', rfl⟩ | ⟨a, m₁', h', -⟩)
    · obtain ⟨heq, rfl⟩ := h'.unique hx h
      exact ⟨congrArg Except.error (Except.error.inj heq), rfl⟩
    · cases (h'.unique hx h).1
  · rintro ⟨rfl, rfl⟩
    exact Or.inl ⟨e, h, rfl⟩

end

end Eval

end ModularLisp
