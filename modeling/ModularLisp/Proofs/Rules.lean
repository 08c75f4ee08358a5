import ModularLisp.Proofs.Ends

/-!
# ModularLisp.Proofs.Rules

**The rules of the language**, as a relation. `Evaluates` derives, for an expression in a scope
and a state, with which value or error its evaluation ends and which state it leaves. The rules
know nothing of fuel or of the functions that evaluate: a rule names what is evaluated, from
which state on, and what comes of it. Where two rules are about one form they exclude each
other, so that which error is reported, and what has happened before, is decided by the rules
and not by the order in which they stand.

A special form is recognized by the name at its head alone (`Keyword.form`): no rule evaluates
that name, and the rules of application are for lists with another head.
-/

namespace ModularLisp

open Files (FileSystem)

/-- The special form of a keyword with the given parts. -/
def Keyword.form (k : Keyword) (arguments : List Expr) : Expr :=
  .list (.symbol k.name :: arguments)

/-- Binds each name to the value beside it in one scope, in order. -/
def Store.defineEach (st : Store) (id : ScopeId) (bindings : List (String × Expr)) : Store :=
  bindings.foldl (fun st b => st.define id b.1 b.2) st

/-- The names have these values as seen from the scope, or this is the first that has none. -/
inductive Store.Exposes (st : Store) (id : ScopeId) :
    List String → Except String (List (String × Expr)) → Prop
  | nil : Exposes st id [] (.ok [])
  | unbound {name : String} {names : List String} :
      st.lookup id name = none → Exposes st id (name :: names) (.error name)
  | bound {name : String} {names : List String} {value : Expr}
      {r : Except String (List (String × Expr))} :
      st.lookup id name = some value → Exposes st id names r →
        Exposes st id (name :: names) (r.map ((name, value) :: ·))

/-! ### Shapes -/

/-- Special forms that are rejected for their shape before anything in them is evaluated.
Clauses of a `case` are not among them: they are judged when their turn comes. -/
inductive Malformed : Keyword → List Expr → FormError → Prop
  | defArguments {arguments : List Expr} : arguments.length ≠ 2 →
      Malformed .define arguments (.defArguments arguments.length)
  | defName {other value : Expr} : (∀ name, other ≠ .symbol name) →
      Malformed .define [other, value] (.defName other.description)
  | fnArguments {arguments : List Expr} : arguments.length ≠ 2 →
      Malformed .function arguments (.fnArguments arguments.length)
  | fnParams {other body : Expr} : (∀ params, other ≠ .list params) →
      Malformed .function [other, body] (.fnParams other.description)
  /-- The first parameter that is no symbol is reported. -/
  | fnParam {names : List String} {other body : Expr} {rest : List Expr} :
      (∀ name, other ≠ .symbol name) →
      Malformed .function [.list (names.map .symbol ++ other :: rest), body]
        (.fnParam other.description)
  | literalArguments {arguments : List Expr} : arguments.length ≠ 1 →
      Malformed .literal arguments (.literalArguments arguments.length)
  | importArguments {arguments : List Expr} : (∀ path, arguments ≠ [.string path]) →
      Malformed .importing arguments .importArguments
  | exportArguments {arguments : List Expr} : arguments.length ≠ 1 →
      Malformed .exporting arguments (.exportArguments arguments.length)
  | exportName {other : Expr} : (∀ name, other ≠ .symbol name) →
      Malformed .exporting [other] (.exportName other.description)

/-- Special forms of the right shape. -/
inductive Shaped : Keyword → List Expr → Prop
  | define {name : String} {value : Expr} : Shaped .define [.symbol name, value]
  | function {names : List String} {body : Expr} :
      Shaped .function [.list (names.map .symbol), body]
  | literal {e : Expr} : Shaped .literal [e]
  | case {clauses : List Expr} : Shaped .case clauses
  | importing {path : String} : Shaped .importing [.string path]
  | exporting {name : String} : Shaped .exporting [.symbol name]

/-- All parameters are names, or one is the first that is not. -/
theorem params_cases (params : List Expr) :
    (∃ names : List String, params = names.map .symbol) ∨
      ∃ (names : List String) (other : Expr) (rest : List Expr),
        params = names.map .symbol ++ other :: rest ∧ ∀ name, other ≠ .symbol name := by
  induction params with
  | nil => exact Or.inl ⟨[], rfl⟩
  | cons param rest ih =>
      by_cases hparam : ∃ name, param = .symbol name
      · obtain ⟨name, rfl⟩ := hparam
        rcases ih with ⟨names, rfl⟩ | ⟨names, other, rest', rfl, hother⟩
        · exact Or.inl ⟨name :: names, rfl⟩
        · exact Or.inr ⟨name :: names, other, rest', rfl, hother⟩
      · exact Or.inr ⟨[], param, rest, rfl, fun name h => hparam ⟨name, h⟩⟩

/-- There is something wrong with the shape of a form, or nothing. -/
theorem malformed_or_shaped (k : Keyword) (arguments : List Expr) :
    (∃ error, Malformed k arguments error) ∨ Shaped k arguments := by
  cases k with
  | define =>
      by_cases hlen : arguments.length = 2
      · obtain ⟨other, value, rfl⟩ := List.length_eq_two.mp hlen
        cases other with
        | symbol name => exact Or.inr .define
        | number | string | list | closure =>
            exact Or.inl ⟨_, .defName fun name heq => by cases heq⟩
      · exact Or.inl ⟨_, .defArguments hlen⟩
  | function =>
      by_cases hlen : arguments.length = 2
      · obtain ⟨other, body, rfl⟩ := List.length_eq_two.mp hlen
        cases other with
        | list params =>
            rcases params_cases params with ⟨names, rfl⟩ | ⟨names, other, rest, rfl, hother⟩
            · exact Or.inr .function
            · exact Or.inl ⟨_, .fnParam hother⟩
        | symbol | number | string | closure =>
            exact Or.inl ⟨_, .fnParams fun params heq => by cases heq⟩
      · exact Or.inl ⟨_, .fnArguments hlen⟩
  | literal =>
      by_cases hlen : arguments.length = 1
      · obtain ⟨e, rfl⟩ := List.length_eq_one_iff.mp hlen
        exact Or.inr .literal
      · exact Or.inl ⟨_, .literalArguments hlen⟩
  | case => exact Or.inr .case
  | importing =>
      by_cases hpath : ∃ path, arguments = [.string path]
      · obtain ⟨path, rfl⟩ := hpath
        exact Or.inr .importing
      · exact Or.inl ⟨_, .importArguments fun path heq => hpath ⟨path, heq⟩⟩
  | exporting =>
      by_cases hlen : arguments.length = 1
      · obtain ⟨other, rfl⟩ := List.length_eq_one_iff.mp hlen
        cases other with
        | symbol name => exact Or.inr .exporting
        | number | string | list | closure =>
            exact Or.inl ⟨_, .exportName fun name heq => by cases heq⟩
      · exact Or.inl ⟨_, .exportArguments hlen⟩

/-- A clause is a pair, a list of another length, or no list. -/
theorem clause_cases (clause : Expr) :
    (∃ predicate result, clause = .list [predicate, result]) ∨
      (∃ items, clause = .list items ∧ items.length ≠ 2) ∨ ∀ items, clause ≠ .list items := by
  cases clause with
  | list items =>
      by_cases hlen : items.length = 2
      · obtain ⟨predicate, result, rfl⟩ := List.length_eq_two.mp hlen
        exact Or.inl ⟨predicate, result, rfl⟩
      · exact Or.inr (Or.inl ⟨items, rfl, hlen⟩)
  | symbol | number | string | closure =>
      exact Or.inr (Or.inr fun items heq => by cases heq)

/-! ### Evaluation -/

section

variable (files : FileSystem)

mutual

/-- The expression, evaluated in the scope from the state on, ends with the result and leaves
the other state. -/
inductive Evaluates : Expr → ScopeId → Machine → Except EvalError Expr → Machine → Prop
  -- Symbols stand for their values, other atoms and the empty list for themselves.
  | bound {name : String} {scope : ScopeId} {m : Machine} {value : Expr} :
      m.store.lookup scope name = some value →
      Evaluates (.symbol name) scope m (.ok value) m
  | unbound {name : String} {scope : ScopeId} {m : Machine} :
      m.store.lookup scope name = none →
      Evaluates (.symbol name) scope m (.error (.unboundSymbol name)) m
  | number {x : Number} {scope : ScopeId} {m : Machine} :
      Evaluates (.number x) scope m (.ok (.number x)) m
  | string {content : String} {scope : ScopeId} {m : Machine} :
      Evaluates (.string content) scope m (.ok (.string content)) m
  | closure {params : List String} {body : Expr} {captured scope : ScopeId} {m : Machine} :
      Evaluates (.closure params body captured) scope m (.ok (.closure params body captured)) m
  | empty {scope : ScopeId} {m : Machine} :
      Evaluates (.list []) scope m (.ok (.list [])) m
  -- Special forms.
  | malformed {k : Keyword} {arguments : List Expr} {error : FormError} {scope : ScopeId}
      {m : Machine} : Malformed k arguments error →
      Evaluates (k.form arguments) scope m (.error (.invalidForm error)) m
  | define {name : String} {e value : Expr} {scope : ScopeId} {m m₁ : Machine} :
      Evaluates e scope m (.ok value) m₁ →
      Evaluates (Keyword.define.form [.symbol name, e]) scope m (.ok (.list []))
        { m₁ with store := m₁.store.define scope name value }
  /-- Nothing is bound if there is no value. -/
  | defineFails {name : String} {e : Expr} {scope : ScopeId} {m m₁ : Machine}
      {error : EvalError} : Evaluates e scope m (.error error) m₁ →
      Evaluates (Keyword.define.form [.symbol name, e]) scope m (.error error) m₁
  | function {names : List String} {body : Expr} {scope : ScopeId} {m : Machine} :
      Evaluates (Keyword.function.form [.list (names.map .symbol), body]) scope m
        (.ok (.closure names body scope)) m
  | literal {e : Expr} {scope : ScopeId} {m : Machine} :
      Evaluates (Keyword.literal.form [e]) scope m (.ok e) m
  | case {clauses : List Expr} {scope : ScopeId} {m m' : Machine} {r : Except EvalError Expr} :
      Selects (Keyword.case.form clauses) 0 clauses scope m r m' →
      Evaluates (Keyword.case.form clauses) scope m r m'
  | imports {path : String} {bindings : List (String × Expr)} {scope : ScopeId}
      {m m₁ : Machine} : Imports path m (.ok bindings) m₁ →
      Evaluates (Keyword.importing.form [.string path]) scope m (.ok (.list []))
        { m₁ with store := m₁.store.defineEach scope bindings }
  | importFails {path : String} {cause : ProgramError} {scope : ScopeId} {m m₁ : Machine} :
      Imports path m (.error cause) m₁ →
      Evaluates (Keyword.importing.form [.string path]) scope m
        (.error (.importFailed path cause)) m₁
  | exports {name : String} {scope : ScopeId} {m : Machine} :
      Evaluates (Keyword.exporting.form [.symbol name]) scope m (.ok (.list []))
        { m with store := m.store.markExported scope name }
  -- Applications: the head, then the arguments, then their number, then the body.
  | headFails {head : Expr} {arguments : List Expr} {scope : ScopeId} {m m₁ : Machine}
      {error : EvalError} : (∀ k : Keyword, head ≠ .symbol k.name) →
      Evaluates head scope m (.error error) m₁ →
      Evaluates (.list (head :: arguments)) scope m (.error error) m₁
  /-- No argument is evaluated if the head is no closure. -/
  | notCallable {head value : Expr} {arguments : List Expr} {scope : ScopeId}
      {m m₁ : Machine} : (∀ k : Keyword, head ≠ .symbol k.name) →
      Evaluates head scope m (.ok value) m₁ →
      (∀ params body captured, value ≠ .closure params body captured) →
      Evaluates (.list (head :: arguments)) scope m
        (.error (.notCallable head.text value.description)) m₁
  | argumentFails {head body : Expr} {params : List String} {captured scope : ScopeId}
      {arguments : List Expr} {m m₁ m₂ : Machine} {error : EvalError} :
      (∀ k : Keyword, head ≠ .symbol k.name) →
      Evaluates head scope m (.ok (.closure params body captured)) m₁ →
      EvaluatesEach arguments scope m₁ (.error error) m₂ →
      Evaluates (.list (head :: arguments)) scope m (.error error) m₂
  /-- The arguments are counted when all of them have been evaluated. -/
  | arity {head body : Expr} {params : List String} {captured scope : ScopeId}
      {arguments values : List Expr} {m m₁ m₂ : Machine} :
      (∀ k : Keyword, head ≠ .symbol k.name) →
      Evaluates head scope m (.ok (.closure params body captured)) m₁ →
      EvaluatesEach arguments scope m₁ (.ok values) m₂ →
      values.length ≠ params.length →
      Evaluates (.list (head :: arguments)) scope m
        (.error (.arityMismatch params.length values.length)) m₂
  /-- The body is evaluated in a new scope inside the captured one. -/
  | call {head body : Expr} {params : List String} {captured scope : ScopeId}
      {arguments values : List Expr} {m m₁ m₂ m' : Machine} {r : Except EvalError Expr} :
      (∀ k : Keyword, head ≠ .symbol k.name) →
      Evaluates head scope m (.ok (.closure params body captured)) m₁ →
      EvaluatesEach arguments scope m₁ (.ok values) m₂ →
      values.length = params.length →
      Evaluates body m₂.store.nextId
        { m₂ with
          store := (m₂.store.addEmpty (some captured)).defineEach m₂.store.nextId
            (params.zip values) } r m' →
      Evaluates (.list (head :: arguments)) scope m r m'

/-- The expressions, evaluated from left to right, each in the state that the one before has
left, give these values, or the error of the first that fails. -/
inductive EvaluatesEach :
    List Expr → ScopeId → Machine → Except EvalError (List Expr) → Machine → Prop
  | nil {scope : ScopeId} {m : Machine} : EvaluatesEach [] scope m (.ok []) m
  | fails {e : Expr} {es : List Expr} {scope : ScopeId} {m m₁ : Machine} {error : EvalError} :
      Evaluates e scope m (.error error) m₁ → EvaluatesEach (e :: es) scope m (.error error) m₁
  | cons {e value : Expr} {es : List Expr} {scope : ScopeId} {m m₁ m₂ : Machine}
      {r : Except EvalError (List Expr)} :
      Evaluates e scope m (.ok value) m₁ → EvaluatesEach es scope m₁ r m₂ →
      EvaluatesEach (e :: es) scope m (r.map (value :: ·)) m₂

/-- What a `case` comes to whose clauses from the one counted `index` on are left. -/
inductive Selects :
    Expr → Nat → List Expr → ScopeId → Machine → Except EvalError Expr → Machine → Prop
  | exhausted {whole : Expr} {index : Nat} {scope : ScopeId} {m : Machine} :
      Selects whole index [] scope m (.error (.noMatchingCase whole.text)) m
  | noClause {whole other : Expr} {index : Nat} {rest : List Expr} {scope : ScopeId}
      {m : Machine} : (∀ items, other ≠ .list items) →
      Selects whole index (other :: rest) scope m
        (.error (.invalidForm (.caseClause index other.description))) m
  | noPair {whole : Expr} {index : Nat} {items rest : List Expr} {scope : ScopeId}
      {m : Machine} : items.length ≠ 2 →
      Selects whole index (.list items :: rest) scope m
        (.error (.invalidForm (.casePair index (Expr.list items).text))) m
  | predicateFails {whole predicate result : Expr} {index : Nat} {rest : List Expr}
      {scope : ScopeId} {m m₁ : Machine} {error : EvalError} :
      Evaluates predicate scope m (.error error) m₁ →
      Selects whole index (.list [predicate, result] :: rest) scope m (.error error) m₁
  | chosen {whole predicate result : Expr} {index : Nat} {rest : List Expr} {scope : ScopeId}
      {m m₁ m₂ : Machine} {r : Except EvalError Expr} :
      Evaluates predicate scope m (.ok (.symbol Expr.trueName)) m₁ →
      Evaluates result scope m₁ r m₂ →
      Selects whole index (.list [predicate, result] :: rest) scope m r m₂
  | passed {whole predicate result value : Expr} {index : Nat} {rest : List Expr}
      {scope : ScopeId} {m m₁ m₂ : Machine} {r : Except EvalError Expr} :
      Evaluates predicate scope m (.ok value) m₁ → value ≠ .symbol Expr.trueName →
      Selects whole (index + 1) rest scope m₁ r m₂ →
      Selects whole index (.list [predicate, result] :: rest) scope m r m₂

/-- The file that the written path leads to, run as a program of its own, gives the bindings
that it exports, or fails. Its path is on the list of files being loaded while its forms are
evaluated, and only then. -/
inductive Imports :
    String → Machine → Except ProgramError (List (String × Expr)) → Machine → Prop
  | lost {path : String} {m : Machine} {e : Files.IoError} :
      files.canonical? path = .error e → Imports path m (.error (.io e)) m
  | cycle {path : String} {m : Machine} {c : Files.Path} :
      files.canonical? path = .ok c → c ∈ m.loading →
      Imports path m (.error (.cycle c.text)) m
  | unreadable {path : String} {m : Machine} {c : Files.Path} {e : Files.IoError} :
      files.canonical? path = .ok c → c ∉ m.loading → files.readText path = .error e →
      Imports path m (.error (.io e)) m
  | noProgram {path source : String} {m : Machine} {c : Files.Path} {e : Reader.ParseError} :
      files.canonical? path = .ok c → c ∉ m.loading → files.readText path = .ok source →
      parse source = .error e → Imports path m (.error (.parse e)) m
  | formFails {path source : String} {m m₁ : Machine} {c : Files.Path} {forms : List Expr}
      {error : EvalError} :
      files.canonical? path = .ok c → c ∉ m.loading → files.readText path = .ok source →
      parse source = .ok forms →
      EvaluatesEach forms m.store.nextId
        { store := m.store.addPrelude, loading := m.loading ++ [c] } (.error error) m₁ →
      Imports path m (.error (.eval error)) { m₁ with loading := m.loading }
  /-- The exported names are looked up when all forms have been evaluated. -/
  | collects {path source : String} {m m₁ : Machine} {c : Files.Path} {forms values : List Expr}
      {s : Scope} {r : Except String (List (String × Expr))} :
      files.canonical? path = .ok c → c ∉ m.loading → files.readText path = .ok source →
      parse source = .ok forms →
      EvaluatesEach forms m.store.nextId
        { store := m.store.addPrelude, loading := m.loading ++ [c] } (.ok values) m₁ →
      m₁.store.get? m.store.nextId = some s →
      m₁.store.Exposes m.store.nextId s.exports r →
      Imports path m (r.mapError fun name => .eval (.unboundSymbol name))
        { m₁ with loading := m.loading }

end

end

end ModularLisp
