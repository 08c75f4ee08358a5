/-!
# ModularLisp.Text.Blank

**Blank characters**: the characters of the Unicode property `White_Space`.
The reader skips them between forms and ends an atom at them, and an interactive
line is trimmed of them, so both use the one predicate of this module.

The table is complete: it lists the property's twenty-five code points as ranges.
Every character that core calls white space is in it (`isBlank_of_isWhitespace`).
-/

namespace ModularLisp.Text

/-! ### The property -/

/-- The code points of `White_Space`, as closed ranges in ascending order. -/
def blankRanges : List (Nat × Nat) :=
  [(0x09, 0x0D), (0x20, 0x20), (0x85, 0x85), (0xA0, 0xA0), (0x1680, 0x1680),
   (0x2000, 0x200A), (0x2028, 0x2029), (0x202F, 0x202F), (0x205F, 0x205F),
   (0x3000, 0x3000)]

/-- Does one of the closed ranges hold the code point `n`? -/
def inRanges (ranges : List (Nat × Nat)) (n : Nat) : Bool :=
  ranges.any fun r => r.1 ≤ n && n ≤ r.2

/-- Is `c` a blank, that is, has it the property `White_Space`? -/
def isBlank (c : Char) : Bool :=
  inRanges blankRanges c.toNat

/-- Core's white space is ASCII only, and all of it is blank. -/
theorem isBlank_of_isWhitespace {c : Char} (h : c.isWhitespace = true) :
    isBlank c = true := by
  simp only [Char.isWhitespace, Bool.or_eq_true, decide_eq_true_eq] at h
  rcases h with ((rfl | rfl) | rfl) | rfl <;> decide

/-! ### Runs of a class -/

/-- A run of a class at the front of a text ends where another class begins. -/
theorem takeWhile_run {p : Char → Bool} {s r : List Char} (hs : ∀ c ∈ s, p c = true)
    (hr : ∀ c ∈ r.head?, p c = false) : (s ++ r).takeWhile p = s := by
  rw [List.takeWhile_append_of_pos hs]
  cases r with
  | nil => simp
  | cons c r => simp [hr c rfl]

theorem dropWhile_run {p : Char → Bool} {s r : List Char} (hs : ∀ c ∈ s, p c = true)
    (hr : ∀ c ∈ r.head?, p c = false) : (s ++ r).dropWhile p = r := by
  rw [List.dropWhile_append_of_pos hs]
  cases r with
  | nil => rfl
  | cons c r => simp [hr c rfl]

/-! ### Trimming -/

/-- `s` without its leading blanks. -/
def trimLeft (s : List Char) : List Char :=
  s.dropWhile isBlank

/-- `s` without its trailing blanks. -/
def trimRight (s : List Char) : List Char :=
  s.reverse.dropWhile isBlank |>.reverse

/-- `s` without the blanks at either end. -/
def trim (s : List Char) : List Char :=
  trimRight (trimLeft s)

end ModularLisp.Text
