/-!
# ModularLisp.Text.Lines

**Lines.** A line ends in a line feed, with or without a carriage return before it, and
what follows the last line feed is a line too unless it is empty. A carriage return
anywhere else belongs to its line.

The symbols are characters where a session reads its input, and bytes where a file is
cut before it is known to be a text; so they are a parameter here. No line holds a line
feed (`not_mem_of_mem_lines`), and what was written as a line is read as one
(`lines_append`).
-/

namespace ModularLisp.Text

variable {α : Type} [DecidableEq α]

/-- The lines of a text whose carriage return is `cr` and whose line feed is `lf`. -/
def lines (cr lf : α) : List α → List (List α)
  | [] => []
  | c :: rest =>
      if c = lf then [] :: lines cr lf rest
      -- The line feed that follows ends the line, so the carriage return is dropped.
      else if c = cr ∧ rest.head? = some lf then lines cr lf rest
      else
        match lines cr lf rest with
        | [] => [[c]]
        | l :: ls => (c :: l) :: ls

/-- No line holds a line feed. -/
theorem not_mem_of_mem_lines {cr lf : α} {s l : List α} (h : l ∈ lines cr lf s) :
    lf ∉ l := by
  induction s generalizing l with
  | nil => simp [lines] at h
  | cons c rest ih =>
      simp only [lines] at h
      split at h
      · rcases List.mem_cons.mp h with rfl | h
        · simp
        · exact ih h
      · next hc =>
        split at h
        · exact ih h
        · split at h
          · simp at h
            subst h
            simpa using Ne.symm hc
          · next first ls hl =>
            rcases List.mem_cons.mp h with rfl | h
            · simpa [Ne.symm hc] using ih (l := first) (by simp [hl])
            · exact ih (by simp [hl, h])

/-- A line that holds neither of the two is read back when a line feed ends it. -/
theorem lines_append {cr lf : α} {l : List α} (hcr : cr ∉ l) (hlf : lf ∉ l)
    (rest : List α) : lines cr lf (l ++ lf :: rest) = l :: lines cr lf rest := by
  induction l with
  | nil => simp [lines]
  | cons c r ih =>
      simp only [List.mem_cons, not_or] at hcr hlf
      simp [lines, Ne.symm hcr.1, Ne.symm hlf.1, ih hcr.2 hlf.2]

end ModularLisp.Text
