import ModularLisp.Text.Lines

/-!
# ModularLisp.Session.History

**The history of a session**: the lines that were entered, oldest first, across
sessions. A line that repeats the one before it is not entered, and when there are too
many lines the oldest is dropped.

The file that keeps a history begins with a line that names the format; then each line
of the file holds one entry, in which line feeds and backslashes are escaped. A file
without that first line holds entries as they are, from its first line on.
-/

namespace ModularLisp.Session

/-! ### Entries -/

/-- The lines entered, oldest first. -/
structure History where
  entries : List String
  /-- Has a line been entered that the file does not have? -/
  changed : Bool
  deriving DecidableEq, Repr

namespace History

/-- No line has been entered. -/
def empty : History := ⟨[], false⟩

/-- How many lines are kept. -/
def capacity : Nat := 100

/-- Enters a line. -/
def add (h : History) (line : String) : History :=
  if line = "" ∨ h.entries.getLast? = some line then h
  else
    let kept := if h.entries.length < capacity then h.entries else h.entries.drop 1
    ⟨kept ++ [line], true⟩

/-- The history is never longer than it may be. -/
theorem length_add_le {h : History} (hle : h.entries.length ≤ capacity) (line : String) :
    (h.add line).entries.length ≤ capacity := by
  unfold add
  split
  · exact hle
  · simp only [List.length_append, List.length_singleton]
    split
    · omega
    · simp only [List.length_drop, capacity] at *; omega

/-! ### The file -/

/-- The first line of the file. -/
def header : String := "#V2"

/-- An entry as it stands in the file. -/
def escape (entry : List Char) : List Char :=
  entry.flatMap fun c =>
    if c = '\\' then ['\\', '\\'] else if c = '\n' then ['\\', 'n'] else [c]

/-- The entry that a line of the file stands for, if its escapes are the known ones. -/
def unescape? : List Char → Option (List Char)
  | [] => some []
  | '\\' :: '\\' :: r => (unescape? r).map ('\\' :: ·)
  | '\\' :: 'n' :: r => (unescape? r).map ('\n' :: ·)
  | c :: r => if c = '\\' then none else (unescape? r).map (c :: ·)

theorem unescape?_escape (entry : List Char) : unescape? (escape entry) = some entry := by
  induction entry with
  | nil => rfl
  | cons c r ih =>
      have hcons : escape (c :: r) = (if c = '\\' then ['\\', '\\'] else
          if c = '\n' then ['\\', 'n'] else [c]) ++ escape r := rfl
      rw [hcons]
      by_cases hb : c = '\\'
      · subst hb; simp [unescape?, ih]
      · by_cases hn : c = '\n'
        · subst hn; simp [unescape?, ih]
        · simp only [hb, hn, if_false, List.cons_append, List.nil_append]
          rw [unescape?.eq_4] <;> simp_all

/-- The text of the file. -/
def fileText (h : History) : String :=
  header ++ "\n" ++
    String.join (h.entries.map fun e => String.ofList (escape e.toList) ++ "\n")

/-! ### Reading the file -/

/-- The entry that a line of the file stands for. A line with an escape that is none of
the known ones stands for itself, as does every line if there are no escapes. -/
def entryOfLine (escaped : Bool) (line : String) : String :=
  if escaped then ((unescape? line.toList).map String.ofList).getD line else line

/-- Enters lines of a file until one is no text; says whether all of them were. -/
def addLines (escaped : Bool) (h : History) : List (List UInt8) → History × Bool
  | [] => (h, true)
  | l :: ls =>
      match String.fromUTF8? ⟨l.toArray⟩ with
      | none => (h, false)
      | some line => addLines escaped (h.add (entryOfLine escaped line)) ls

/-- The history that a file holds. Lines before one that is no text are kept, and count
as entered since. -/
def ofFile (content : ByteArray) : History :=
  let lines := Text.lines 13 10 content.toList
  let (h, complete) :=
    if lines.head? = some header.toUTF8.toList then addLines true empty (lines.drop 1)
    else addLines false empty lines
  if complete then { h with changed := false } else h

end History

end ModularLisp.Session
