/-!
# ModularLisp.Text.Position

**Places in a text**, as a reader of the text counts them: lines from one, and
characters of the line from one. Only the line feed ends a line here, so a
carriage return counts as a character of its line.
-/

namespace ModularLisp.Text

/-- A place in a text: its line and its column, both counted from one. -/
structure Position where
  line : Nat
  column : Nat
  deriving DecidableEq, Repr

namespace Position

/-- The first place of every text. -/
def start : Position := ⟨1, 1⟩

/-- The place after one more character. -/
def advance (p : Position) (c : Char) : Position :=
  if c = '\n' then ⟨p.line + 1, 1⟩ else ⟨p.line, p.column + 1⟩

/-- The place that follows the text `consumed`. -/
def after (consumed : List Char) : Position :=
  consumed.foldl advance start

/-- The place in `source` at which its final part `rest` begins. -/
def ofRest (source rest : List Char) : Position :=
  after (source.take (source.length - rest.length))

/-- For a split text the place of the second part is the place after the first. -/
theorem ofRest_append (consumed rest : List Char) :
    ofRest (consumed ++ rest) rest = after consumed := by
  simp [ofRest]

/-- The line is one more than the number of line feeds passed. -/
theorem line_foldl_advance (p : Position) (s : List Char) :
    (s.foldl advance p).line = p.line + s.count '\n' := by
  induction s generalizing p with
  | nil => rfl
  | cons c r ih =>
      by_cases hc : c = '\n'
      · simp [ih, advance, hc]; omega
      · simp [ih, advance, hc]

theorem line_after (consumed : List Char) :
    (after consumed).line = 1 + consumed.count '\n' :=
  line_foldl_advance start consumed

/-- On one line the column counts the characters passed. -/
theorem column_foldl_advance (p : Position) {s : List Char} (h : '\n' ∉ s) :
    (s.foldl advance p).column = p.column + s.length := by
  induction s generalizing p with
  | nil => rfl
  | cons c r ih =>
      simp only [List.mem_cons, not_or] at h
      simp [ih _ h.2, advance, Ne.symm h.1]; omega

end Position

end ModularLisp.Text
