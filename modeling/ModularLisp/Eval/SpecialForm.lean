import ModularLisp.Eval.Program

/-!
# ModularLisp.Eval.SpecialForm

**Special forms**: the lists that are headed by a keyword. What they mean is decided by
the keyword alone, before anything in the list is evaluated and even if the keyword is
bound as a name. Each form says itself which of its parts are evaluated:

* `def` evaluates its second part and binds it in the scope at hand;
* `fn` and `literal` evaluate nothing;
* `case` evaluates predicates up to the first that is true, and the result beside it;
* `import` evaluates nothing here, and binds what another file exports;
* `export` evaluates nothing.

Forms that are evaluated for their effect give the empty list.
-/

namespace ModularLisp

/-! ### Keywords -/

/-- The keywords. -/
inductive Keyword
  | define
  | function
  | literal
  | case
  | importing
  | exporting
  deriving DecidableEq, Repr

namespace Keyword

/-- All keywords. -/
def all : List Keyword := [define, function, literal, case, importing, exporting]

/-- The name that a program writes for a keyword. -/
def name : Keyword → String
  | define => "def"
  | function => "fn"
  | literal => "literal"
  | case => "case"
  | importing => "import"
  | exporting => "export"

/-- The keyword of the given name, if it is one. -/
def ofName? (name : String) : Option Keyword :=
  all.find? fun k => k.name == name

theorem ofName?_name (k : Keyword) : ofName? k.name = some k := by
  cases k <;> decide

theorem name_of_ofName? {name : String} {k : Keyword} (h : ofName? name = some k) :
    k.name = name := by
  have hk := List.find?_some h
  exact eq_of_beq hk

end Keyword

namespace Eval

open Files (FileSystem)

variable (files : FileSystem) (ev : Evaluator)

/-! ### Forms without imports -/

/-- Reports a malformed form. -/
def malformed {α : Type} (e : FormError) : Run EvalError α :=
  .fail (.invalidForm e)

/-- The form `(def name expression)` -/
def evalDef (arguments : List Expr) (scope : ScopeId) : Run EvalError Expr :=
  match arguments with
  | [.symbol name, e] => do
      let value ← ev e scope
      Run.define scope name value
      pure .empty
  | [other, _] => malformed (.defName other.description)
  | _ => malformed (.defArguments arguments.length)

/-- The names in a list of parameters. -/
def paramNames : List Expr → Except FormError (List String)
  | [] => .ok []
  | .symbol name :: rest => (paramNames rest).map (name :: ·)
  | other :: _ => .error (.fnParam other.description)

/-- The form `(fn (parameter …) body)` -/
def evalFn (arguments : List Expr) (scope : ScopeId) : Run EvalError Expr :=
  match arguments with
  | [.list params, body] =>
      match paramNames params with
      | .ok names => pure (.closure names body scope)
      | .error e => malformed e
  | [other, _] => malformed (.fnParams other.description)
  | _ => malformed (.fnArguments arguments.length)

/-- The form `(literal expression)` -/
def evalLiteral (arguments : List Expr) : Run EvalError Expr :=
  match arguments with
  | [e] => pure e
  | _ => malformed (.literalArguments arguments.length)

/-- The clauses of a `case` form from the one counted `index` on; `whole` is the text of
the form. A clause is looked at only if no predicate before it was true. -/
def evalClauses (whole : String) (scope : ScopeId) (index : Nat) :
    List Expr → Run EvalError Expr
  | [] => .fail (.noMatchingCase whole)
  | .list [predicate, result] :: rest => do
      let value ← ev predicate scope
      if value.isTrue then ev result scope else evalClauses whole scope (index + 1) rest
  | .list items :: _ => malformed (.casePair index (Expr.list items).text)
  | other :: _ => malformed (.caseClause index other.description)

/-- The form `(case (predicate result) …)` -/
def evalCase (clauses : List Expr) (scope : ScopeId) : Run EvalError Expr :=
  evalClauses ev (Expr.list (.symbol Keyword.case.name :: clauses)).text scope 0 clauses

/-- The form `(export name)` -/
def evalExport (arguments : List Expr) (scope : ScopeId) : Run EvalError Expr :=
  match arguments with
  | [.symbol name] => do
      Run.markExported scope name
      pure .empty
  | [other] => malformed (.exportName other.description)
  | _ => malformed (.exportArguments arguments.length)

/-! ### Imports -/

/-- The form `(import "path")`. Either all exported bindings are merged or, if anything
goes wrong on the way to them, none. -/
def evalImport (arguments : List Expr) (scope : ScopeId) : Run EvalError Expr :=
  match arguments with
  | [.string path] => do
      let bindings ← Run.mapError (.importFailed path) (importExports files ev path)
      Run.defineAll scope bindings
      pure .empty
  | _ => malformed .importArguments

/-! ### Dispatch -/

/-- Evaluates the form of a keyword. -/
def evalKeyword (k : Keyword) (arguments : List Expr) (scope : ScopeId) :
    Run EvalError Expr :=
  match k with
  | .define => evalDef ev arguments scope
  | .function => evalFn arguments scope
  | .literal => evalLiteral arguments
  | .case => evalCase ev arguments scope
  | .importing => evalImport files ev arguments scope
  | .exporting => evalExport arguments scope

/-- Evaluates a list that has to be a special form. -/
def evalSpecialForm (items : List Expr) (scope : ScopeId) : Run EvalError Expr :=
  match items with
  | .symbol name :: arguments =>
      match Keyword.ofName? name with
      | some k => evalKeyword files ev k arguments scope
      | none => malformed (.unknownKeyword name)
  | _ => malformed .noKeyword

end Eval

end ModularLisp
