/-!
# ModularLisp.Text.Quoted

**Quoted text**: how a string is written between double quotes. Five characters
are written as a backslash and a letter, every other character stands for itself,
line endings that have no letter included. The table that reads
the letters is the inverse of the one that writes them
(`unescape?_eq_some_iff`), so the reader takes back exactly the escapes that the
printer makes.
-/

namespace ModularLisp.Text

/-! ### Single escapes -/

/-- The character written after the backslash for `c`, if `c` has to be escaped. -/
def escapeLetter? : Char → Option Char
  | '"' => some '"'
  | '\\' => some '\\'
  | '\n' => some 'n'
  | '\t' => some 't'
  | '\r' => some 'r'
  | _ => none

/-- The character that a backslash followed by `c` stands for. -/
def unescape? : Char → Option Char
  | '"' => some '"'
  | '\\' => some '\\'
  | 'n' => some '\n'
  | 't' => some '\t'
  | 'r' => some '\r'
  | _ => none

/-- The escapes that are read are the escapes that are written. -/
theorem unescape?_eq_some_iff {c d : Char} :
    unescape? d = some c ↔ escapeLetter? c = some d := by
  constructor <;> intro h
  · unfold unescape? at h
    split at h <;> cases h <;> rfl
  · unfold escapeLetter? at h
    split at h <;> cases h <;> rfl

/-! ### Whole strings -/

/-- `c` as it stands inside quotes. -/
def escape (c : Char) : List Char :=
  match escapeLetter? c with
  | some letter => ['\\', letter]
  | none => [c]

/-- `s` between double quotes, with its special characters escaped. -/
def quote (s : List Char) : List Char :=
  '"' :: s.flatMap escape ++ ['"']

end ModularLisp.Text
