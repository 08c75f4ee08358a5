import ModularLisp.Expr.Basic
import ModularLisp.Number.Numeral
import ModularLisp.Text.Blank
import ModularLisp.Text.Quoted

/-!
# ModularLisp.Reader.Token

**Tokens**: the two kinds of form that contain no others. An *atom* is the longest run
of characters that are neither blank nor one of the four that mean something else,
and is a number if the whole of it is a numeral, otherwise a symbol. A *string* runs
from a double quote to the next one that no backslash precedes.

Reading a string may stop for two reasons, and the difference matters to every form
around it: a string that never ends is a form that is not there, and the form around
it is not there either, while a backslash that escapes nothing stops all reading at
once.
-/

namespace ModularLisp.Reader

open Text (isBlank unescape?)

/-! ### Atoms -/

/-- May `c` stand in an atom? -/
def isAtomChar (c : Char) : Bool :=
  !isBlank c && c != '(' && c != ')' && c != ';' && c != '"'

/-- What an atom of the given characters is. -/
def classify (atom : List Char) : Expr :=
  match Number.ofNumeral? atom with
  | some value => .number value
  | none => .symbol (String.ofList atom)

/-! ### Strings -/

/-- Why reading stopped before the end of a form. -/
inductive Stop
  /-- No complete form begins where one was looked for. -/
  | absent
  /-- A backslash in a string escapes nothing; the text from the backslash on. -/
  | badEscape (rest : List Char)
  deriving DecidableEq, Repr

/-- Puts a character before the content of a string that has been read. -/
def addChar (c : Char) (r : List Char × List Char) : List Char × List Char :=
  (c :: r.1, r.2)

/-- Reads the rest of a string whose opening quote has been read: its content, and the
text after the closing quote. -/
def readString : List Char → Except Stop (List Char × List Char)
  | [] => .error .absent
  | ['\\'] => .error (.badEscape ['\\'])
  | '"' :: r => .ok ([], r)
  | '\\' :: c :: r =>
      match unescape? c with
      | some d => (readString r).map (addChar d)
      | none => .error (.badEscape ('\\' :: c :: r))
  | c :: r => (readString r).map (addChar c)

theorem exists_of_map_addChar {d : Char} {r : Except Stop (List Char × List Char)}
    {content rest : List Char} (h : r.map (addChar d) = .ok (content, rest)) :
    ∃ content', r = .ok (content', rest) := by
  cases r with
  | error e => simp [Except.map] at h
  | ok p =>
      simp only [Except.map, addChar, Except.ok.injEq, Prod.mk.injEq] at h
      exact ⟨p.1, by rw [← h.2]⟩

/-- What is left after a string is shorter than what was there. -/
theorem length_lt_of_readString {s content rest : List Char}
    (h : readString s = .ok (content, rest)) : rest.length < s.length := by
  fun_induction readString s generalizing content with
  | case1 => simp at h
  | case2 => simp at h
  | case3 r => simp at h; simp [h.2]
  | case4 c r d hd ih =>
      obtain ⟨content', h'⟩ := exists_of_map_addChar h
      have := ih h'
      simp only [List.length_cons]; omega
  | case5 => simp at h
  | case6 c r _ _ _ ih =>
      obtain ⟨content', h'⟩ := exists_of_map_addChar h
      have := ih h'
      simp only [List.length_cons]; omega

end ModularLisp.Reader
