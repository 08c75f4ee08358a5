import ModularLisp.Error

/-!
# ModularLisp.CommandLine.Report

**What is shown of a result.** A value is shown on a line of its own; the empty list,
which every form gives that is evaluated for its effect, is not shown.

A failure is shown either as a report, which says what was attempted and lists the
causes below it, or, in a session, on one line.
-/

namespace ModularLisp.CommandLine

/-! ### Values -/

/-- The line for the value of a program, if it has one worth showing. -/
def shown (value : Option Expr) : String :=
  match value with
  | none => ""
  | some v => if v.isEmptyList then "" else v.text ++ "\n"

/-! ### Failures -/

/-- Puts `indent` before every line of a text but the first. -/
def indentRest (indent : String) (s : String) : String :=
  String.ofList (s.toList.flatMap fun c => if c = '\n' then '\n' :: indent.toList else [c])

/-- `n` in a column that is five characters wide. -/
def numberColumn (n : Nat) : String :=
  let digits := toString n
  "".pushn ' ' (5 - digits.length) ++ digits

/-- A cause in a list of several, with its number. -/
def numberedCause (n : Nat) (cause : String) : String :=
  numberColumn n ++ ": " ++ indentRest "       " cause ++ "\n"

/-- The list of causes. A single one has no number. -/
def causeList : List String → String
  | [cause] => "    " ++ indentRest "    " cause ++ "\n"
  | causes => String.join (causes.mapIdx numberedCause)

/-- The report of a failure: what was attempted, and the causes, outermost first. -/
def report (attempt : String) (causes : List String) : String :=
  "Error: " ++ attempt ++ "\n\nCaused by:\n" ++ causeList causes

/-- The line for a failure in a session, with its first word in bold red. -/
def failureLine (causes : List String) : String :=
  "\x1b[1m\x1b[31mError\x1b[39m\x1b[0m: " ++ ": ".intercalate causes ++ "\n"

end ModularLisp.CommandLine
