import ModularLisp.Reader.Form
import ModularLisp.Text.Position

/-!
# ModularLisp.Reader.Program

**Reading whole texts.** A program is read if nothing but trivia is left after its
last form; otherwise reading reports one error, at the place where it stopped. What is
wrong there can be told from the text that begins at that place: an opening
parenthesis or a double quote is one whose end was not found, a closing parenthesis
is one that nothing opened, and a backslash is one that escapes nothing, because
reading stops at a backslash for no other reason.

`readExpr` reads one expression with the trivia on both sides and leaves the rest.
-/

namespace ModularLisp.Reader

/-! ### Errors -/

/-- What is wrong at the place where reading stopped. -/
inductive Fault
  /-- A backslash that escapes nothing, with the character after it, if any. -/
  | invalidEscape (escape : String)
  | unexpectedClose
  | unclosedList
  | unterminatedString
  | unexpectedChar (c : Char)
  | endOfInput
  deriving DecidableEq, Repr

/-- What is wrong where the text `rest` begins. -/
def Fault.ofRest : List Char → Fault
  | [] => .endOfInput
  | '\\' :: r => .invalidEscape (String.ofList ('\\' :: r.take 1))
  | ')' :: _ => .unexpectedClose
  | '(' :: _ => .unclosedList
  | '"' :: _ => .unterminatedString
  | c :: _ => .unexpectedChar c

/-- The text of a fault. -/
def Fault.message : Fault → String
  | .invalidEscape escape => "invalid escape '" ++ escape ++ "'"
  | .unexpectedClose => "unexpected ')'"
  | .unclosedList => "unclosed '('"
  | .unterminatedString => "unterminated string literal"
  | .unexpectedChar c => "unexpected character '" ++ String.singleton c ++ "'"
  | .endOfInput => "unexpected end of input"

/-- A text that is no program: where reading stopped, and what is wrong there. -/
structure ParseError where
  position : Text.Position
  fault : Fault
  deriving DecidableEq, Repr

namespace ParseError

/-- The error for `source` when reading stopped where its final part `rest` begins. -/
def ofRest (source rest : List Char) : ParseError :=
  ⟨Text.Position.ofRest source rest, Fault.ofRest rest⟩

/-- The text of a parse error. -/
def message (e : ParseError) : String :=
  "Parse error at line " ++ toString e.position.line ++ ", column " ++
    toString e.position.column ++ ": " ++ e.fault.message

end ParseError

/-! ### Whole texts -/

/-- The forms of a program, or the place where reading stopped short of its end. -/
def readProgram (source : List Char) : Except ParseError (List Expr) :=
  match forms? source with
  | .error bad => .error (.ofRest source bad)
  | .ok (es, []) => .ok es
  | .ok (_, rest) => .error (.ofRest source rest)

/-- One expression with the trivia around it, and what follows them; or why there is
none, and the text from the place where reading stopped. An absent expression is
missed where it should have begun. -/
def readExpr (source : List Char) : Except (Stop × List Char) (Expr × List Char) :=
  let start := skipTrivia source
  match form? start with
  | .error .absent => .error (.absent, start)
  | .error (.badEscape bad) => .error (.badEscape bad, bad)
  | .ok (e, rest) => .ok (e, skipTrivia rest)

end ModularLisp.Reader

namespace ModularLisp

/-- The forms of the program whose text is `source`. -/
def parse (source : String) : Except Reader.ParseError (List Expr) :=
  Reader.readProgram source.toList

end ModularLisp
