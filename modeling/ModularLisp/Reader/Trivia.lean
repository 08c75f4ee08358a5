import ModularLisp.Text.Blank

/-!
# ModularLisp.Reader.Trivia

**Trivia**: what may stand between forms and means nothing, namely blanks and
comments. A comment runs from a semicolon up to, and not including, the line ending
after it, or to the end of the text.

The line ending has to be a line feed or a carriage return with a line feed. When the
first carriage return or line feed after a semicolon is a lone carriage return, the
semicolon opens no comment, and the trivia end before it. `commentCloses` decides
this by looking ahead, so skipping itself is a single pass over the text.
-/

namespace ModularLisp.Reader

open Text (isBlank)

/-! ### Skipping -/

/-- Does the text after a semicolon make it a comment? -/
def commentCloses : List Char → Bool
  | [] => true
  | c :: r =>
      if c = '\n' then true
      else if c = '\r' then r.head? == some '\n'
      else commentCloses r

mutual

/-- What is left of a text after the trivia at its head. -/
def skipTrivia : List Char → List Char
  | [] => []
  | c :: r =>
      if isBlank c then skipTrivia r
      else if c = ';' ∧ commentCloses r then skipComment r
      else c :: r

/-- What is left of a text that starts within a comment, after the comment and the
trivia that follow it. -/
def skipComment : List Char → List Char
  | [] => []
  | c :: r => if c = '\n' ∨ c = '\r' then skipTrivia r else skipComment r

end

/-! ### Skipping takes from the front -/

mutual

theorem skipTrivia_suffix : (s : List Char) → skipTrivia s <:+ s
  | [] => by simp [skipTrivia]
  | c :: r => by
      unfold skipTrivia
      split
      · exact (skipTrivia_suffix r).trans (List.suffix_cons c r)
      · split
        · exact (skipComment_suffix r).trans (List.suffix_cons c r)
        · exact List.suffix_refl _

theorem skipComment_suffix : (s : List Char) → skipComment s <:+ s
  | [] => by simp [skipComment]
  | c :: r => by
      unfold skipComment
      split
      · exact (skipTrivia_suffix r).trans (List.suffix_cons c r)
      · exact (skipComment_suffix r).trans (List.suffix_cons c r)

end

theorem length_skipTrivia_le (s : List Char) : (skipTrivia s).length ≤ s.length :=
  (skipTrivia_suffix s).length_le

end ModularLisp.Reader
