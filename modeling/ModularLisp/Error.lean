import ModularLisp.Expr.Printer
import ModularLisp.Files.Basic
import ModularLisp.Reader.Program
import ModularLisp.Text.Inspected

/-!
# ModularLisp.Error

**What can go wrong** when a program runs. An error is its cause; the wording is in
the functions `message`. Where a cause is about an expression it carries the text of
that expression, not the expression, so that errors of two runs can be compared
although the scopes of the runs have different identities.

Importing a file fails with the error of running that file, which may be the failure
of an import again. `ProgramError.chain` unrolls that nesting: one text per import,
outermost first, and the text of what went wrong at the end.
-/

namespace ModularLisp

/-- How an error text refers to an expression: its kind and its text. -/
def Expr.description (e : Expr) : String :=
  e.kind ++ " " ++ e.text

/-! ### Malformed special forms -/

/-- What is wrong with a special form. -/
inductive FormError
  /-- What should be a special form is not headed by a symbol. -/
  | noKeyword
  /-- The symbol at the head is no keyword. -/
  | unknownKeyword (name : String)
  | defArguments (count : Nat)
  | defName (found : String)
  | fnArguments (count : Nat)
  | fnParams (found : String)
  | fnParam (found : String)
  | literalArguments (count : Nat)
  /-- A clause, counted from zero, that is no list. -/
  | caseClause (index : Nat) (found : String)
  /-- A clause, counted from zero, that is a list but no pair. -/
  | casePair (index : Nat) (found : String)
  | importArguments
  | exportArguments (count : Nat)
  | exportName (found : String)
  deriving DecidableEq, Repr

namespace FormError

/-- The name of the form that is malformed. -/
def form : FormError → String
  | noKeyword => "special form"
  | unknownKeyword name => name
  | defArguments _ | defName _ => "def"
  | fnArguments _ | fnParams _ | fnParam _ => "fn"
  | literalArguments _ => "literal"
  | caseClause .. | casePair .. => "case"
  | importArguments => "import"
  | exportArguments _ | exportName _ => "export"

/-- What is wrong, in words. -/
def reason : FormError → String
  | noKeyword => "expected a list headed by a keyword"
  | unknownKeyword _ => "not a special form"
  | defArguments count =>
      "expects a symbol and an expression, got " ++ toString count ++ " arguments"
  | defName found => "first argument must be a symbol, found " ++ found
  | fnArguments count =>
      "expects 2 arguments (parameters list and body), got " ++ toString count
  | fnParams found => "parameters must be a list, found " ++ found
  | fnParam found => "parameters must be symbols, found " ++ found
  | literalArguments count => "expects 1 argument, got " ++ toString count
  | caseClause index found =>
      "clause " ++ toString index ++ " must be a (predicate result) list, found " ++ found
  | casePair index found =>
      "clause " ++ toString index ++ " must pair a predicate with a result, found " ++ found
  | importArguments => "takes a file location as a single string argument"
  | exportArguments count => "expects 1 symbol, got " ++ toString count ++ " arguments"
  | exportName found => "argument must be a symbol, found " ++ found

end FormError

/-! ### Errors of evaluation and of programs -/

mutual

/-- Why an evaluation failed. -/
inductive EvalError
  | unboundSymbol (name : String)
  /-- The head of an application, and the description of what it evaluated to. -/
  | notCallable (head : String) (value : String)
  | arityMismatch (expected got : Nat)
  | invalidForm (error : FormError)
  /-- The text of a `case` form none of whose predicates was true. -/
  | noMatchingCase (form : String)
  /-- The path as the program wrote it, and why that file could not be imported. -/
  | importFailed (path : String) (cause : ProgramError)

/-- Why a program could not be run. -/
inductive ProgramError
  | io (error : Files.IoError)
  | parse (error : Reader.ParseError)
  | eval (error : EvalError)
  /-- The canonical path of a file that is being loaded already. -/
  | cycle (path : String)

end

namespace EvalError

/-- The text of an error of evaluation. -/
def message : EvalError → String
  | unboundSymbol name => "Unbound symbol: " ++ name
  | notCallable head value => "Not callable: " ++ head ++ " evaluated to " ++ value
  | arityMismatch expected got =>
      "Arity mismatch: closure expects " ++ toString expected ++ " arguments, got " ++
        toString got
  | invalidForm error => "Invalid '" ++ error.form ++ "' form: " ++ error.reason
  | noMatchingCase form => "No true predicate in " ++ form
  | importFailed path _ => "Error importing module '" ++ path ++ "'"

end EvalError

namespace ProgramError

/-- The text of an error of a program. -/
def message : ProgramError → String
  | io error => error.message
  | parse error => error.message
  | eval error => error.message
  | cycle path => "Import cycle: " ++ Text.inspect path ++ " is already being loaded"

end ProgramError

/-! ### Chains of causes -/

mutual

/-- The texts of an error of evaluation and of what caused it, outermost first. -/
def EvalError.chain : EvalError → List String
  | .importFailed path cause => (EvalError.importFailed path cause).message :: cause.chain
  | e => [e.message]

/-- The texts of an error of a program and of what caused it, outermost first. An error
of evaluation is told in its own words, so wrapping one adds no text. -/
def ProgramError.chain : ProgramError → List String
  | .eval error => error.chain
  | e => [e.message]

end

end ModularLisp
