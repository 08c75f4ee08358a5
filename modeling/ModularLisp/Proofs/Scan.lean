import ModularLisp.Proofs.Grammar

/-!
# ModularLisp.Proofs.Scan

**A scan of a text** goes over it once, from the left and one character at a time, and
remembers nothing but what is open (`scan`). It knows no backtracking: it is stuck at the
first character that fits nowhere, or at the end of the text if something is still open there.

The reader does backtrack, and still the two go the same way (`finds_forms`): over what is
read the scan passes without being stuck, a bad escape stops both, and where the reader finds
no form the scan is stuck sooner or later with everything open that was open there.

A place in a text is given by what is left of the text from there on.
-/

namespace ModularLisp

namespace Scan

open Text (isBlank)

/-! ### The scan -/

/-- What can be open: a list or a string. -/
inductive Construct
  | list
  | string
  deriving DecidableEq, Repr

/-- The character that opens a construct. -/
def Construct.opener : Construct → Char
  | .list => '('
  | .string => '"'

/-- A construct that has been opened, and the place of the character that opened it. -/
structure Opening where
  construct : Construct
  place : List Char
  deriving DecidableEq, Repr

/-- What the next character belongs to. -/
inductive Mode
  /-- It begins a form, is part of an atom, or stands between forms. -/
  | forms
  | comment
  | string
  /-- It follows a backslash, and the two are an escape. -/
  | escape
  deriving DecidableEq, Repr

/-- Why a scan is stuck. -/
inductive Obstacle
  | badEscape
  /-- A closing parenthesis with nothing open. -/
  | strayClose
  /-- A semicolon whose line ends with a lone carriage return. -/
  | badComment
  /-- The end of the text with something open. -/
  | textEnds
  deriving DecidableEq, Repr

/-- How a scan ends. The constructs that are open come innermost first. -/
inductive Verdict
  | complete
  | stuck (place : List Char) (opens : List Opening) (obstacle : Obstacle)
  deriving DecidableEq, Repr

/-- Is the first line ending in `s` a carriage return without a line feed? -/
def loneReturn (s : List Char) : Bool :=
  match s.dropWhile fun c => c != '\n' && c != '\r' with
  | '\r' :: '\n' :: _ => false
  | '\r' :: _ => true
  | _ => false

/-- The characters that can follow a backslash. -/
def escapeLetters : List Char := ['"', '\\', 'n', 't', 'r']

/-- One character `c`, before `r`: what is open after it, and what comes next. -/
def next (opens : List Opening) (mode : Mode) (c : Char) (r : List Char) :
    Except Obstacle (List Opening × Mode) :=
  match mode with
  | .forms =>
      if c = '(' then .ok (⟨.list, c :: r⟩ :: opens, .forms)
      else if c = ')' then
        if opens = [] then .error .strayClose else .ok (opens.tail, .forms)
      else if c = '"' then .ok (⟨.string, c :: r⟩ :: opens, .string)
      else if c = ';' then
        if loneReturn r then .error .badComment else .ok (opens, .comment)
      else .ok (opens, .forms)
  | .comment => .ok (opens, if c = '\n' ∨ c = '\r' then .forms else .comment)
  | .string =>
      if c = '"' then .ok (opens.tail, .forms)
      else if c = '\\' then
        if r.head?.any escapeLetters.contains then .ok (opens, .escape) else .error .badEscape
      else .ok (opens, .string)
  | .escape => .ok (opens, .string)

/-- Scans a text from the left. -/
def run (opens : List Opening) (mode : Mode) : List Char → Verdict
  | [] => if opens = [] then .complete else .stuck [] opens .textEnds
  | c :: r =>
      match next opens mode c r with
      | .error obstacle => .stuck (c :: r) opens obstacle
      | .ok (opens', mode') => run opens' mode' r

/-- The scan of a whole text. -/
def scan (s : List Char) : Verdict :=
  run [] .forms s

/-! ### What a scan remembers -/

/-- An opening is remembered with its place in the text `s`. -/
def Opening.In (s : List Char) (o : Opening) : Prop :=
  o.place <:+ s ∧ o.place.head? = some o.construct.opener

theorem Opening.In.cons {s : List Char} {o : Opening} (h : o.In s) (c : Char) : o.In (c :: s) :=
  ⟨h.1.trans (List.suffix_cons c s), h.2⟩

/-- A step opens what its character opens, or closes what was opened last, or leaves what is
open as it is. -/
theorem opens_of_next {opens opens' : List Opening} {mode mode' : Mode} {c : Char}
    {r : List Char} (h : next opens mode c r = .ok (opens', mode')) :
    (∃ construct : Construct, c = construct.opener ∧ opens' = ⟨construct, c :: r⟩ :: opens) ∨
      opens' = opens.tail ∨ opens' = opens := by
  unfold next at h
  split at h <;> grind [Construct.opener]

theorem openings_next {opens opens' : List Opening} {mode mode' : Mode} {c : Char} {r : List Char}
    (h : next opens mode c r = .ok (opens', mode')) :
    ∀ o ∈ opens', o ∈ opens ∨ o.In (c :: r) := by
  intro o ho
  rcases opens_of_next h with ⟨construct, hc, rfl⟩ | rfl | rfl
  · rcases List.mem_cons.mp ho with rfl | ho
    · exact .inr ⟨List.suffix_refl _, by rw [List.head?_cons, hc]⟩
    · exact .inl ho
  · exact .inl (List.mem_of_mem_tail ho)
  · exact .inl ho

/-- A bad escape begins with a backslash. -/
theorem eq_of_next_badEscape {opens : List Opening} {mode : Mode} {c : Char} {r : List Char}
    (h : next opens mode c r = .error .badEscape) : c = '\\' := by
  unfold next at h
  split at h <;> grind

/-- A scan is stuck within its text, and what is open then was open from the beginning or has
been opened in the text. -/
theorem stuck_run {s place : List Char} {opens opens' : List Opening} {mode : Mode}
    {obstacle : Obstacle} (h : run opens mode s = .stuck place opens' obstacle) :
    place <:+ s ∧ (∀ o ∈ opens', o ∈ opens ∨ o.In s) ∧
      (obstacle = .badEscape → place.head? = some '\\') := by
  induction s generalizing opens mode with
  | nil =>
      rw [run] at h
      split at h
      · cases h
      · obtain ⟨rfl, rfl, rfl⟩ := Verdict.stuck.inj h
        exact ⟨List.suffix_refl _, fun o ho => .inl ho, fun h => by cases h⟩
  | cons c r ih =>
      rw [run] at h
      split at h
      · next hnext =>
          obtain ⟨rfl, rfl, rfl⟩ := Verdict.stuck.inj h
          refine ⟨List.suffix_refl _, fun o ho => .inl ho, ?_⟩
          rintro rfl
          rw [List.head?_cons, eq_of_next_badEscape hnext]
      · next opens₁ mode₁ hnext =>
          obtain ⟨hplace, hopens, hescape⟩ := ih h
          refine ⟨hplace.trans (List.suffix_cons c r), fun o ho => ?_, hescape⟩
          rcases hopens o ho with ho | ho
          · exact openings_next hnext o ho
          · exact .inr (ho.cons c)

/-! ### The scan over trivia and strings -/

theorem loneReturn_eq (s : List Char) : loneReturn s = !Reader.commentCloses s := by
  induction s with
  | nil => rfl
  | cons c r ih =>
      rw [Reader.commentCloses]
      by_cases hn : c = '\n'
      · simp [loneReturn, hn]
      by_cases hr : c = '\r'
      · subst hr
        cases r with
        | nil => rfl
        | cons d r => by_cases hd : d = '\n' <;> simp [loneReturn, hd]
      · rw [if_neg hn, if_neg hr, ← ih]
        simp [loneReturn, hn, hr]

theorem run_open (opens : List Opening) (r : List Char) :
    run opens .forms ('(' :: r) = run (⟨.list, '(' :: r⟩ :: opens) .forms r := rfl

theorem run_close (o : Opening) (opens : List Opening) (r : List Char) :
    run (o :: opens) .forms (')' :: r) = run opens .forms r := rfl

theorem run_quote (opens : List Opening) (r : List Char) :
    run opens .forms ('"' :: r) = run (⟨.string, '"' :: r⟩ :: opens) .string r := rfl

theorem run_semicolon (opens : List Opening) (r : List Char) :
    run opens .forms (';' :: r) =
      if loneReturn r then .stuck (';' :: r) opens .badComment else run opens .comment r := by
  cases h : loneReturn r <;> simp [run, next, h]

/-- Blanks and the characters of atoms change nothing. -/
theorem run_other {c : Char} (hc : c ∉ ['(', ')', '"', ';']) (opens : List Opening)
    (r : List Char) : run opens .forms (c :: r) = run opens .forms r := by
  simp only [List.mem_cons, List.not_mem_nil, or_false, not_or] at hc
  simp [run, next, hc]

theorem run_blank {c : Char} (hc : isBlank c = true) (opens : List Opening) (r : List Char) :
    run opens .forms (c :: r) = run opens .forms r := by
  refine run_other (fun hmem => ?_) opens r
  simp only [List.mem_cons, List.not_mem_nil, or_false] at hmem
  rcases hmem with rfl | rfl | rfl | rfl <;> exact absurd hc (by decide)

theorem run_atomChars {t : List Char} (ht : ∀ c ∈ t, Reader.isAtomChar c = true)
    (opens : List Opening) (r : List Char) : run opens .forms (t ++ r) = run opens .forms r := by
  induction t with
  | nil => rfl
  | cons c t ih =>
      have hc := ht c List.mem_cons_self
      rw [List.cons_append, run_other _ opens, ih fun d hd => ht d (List.mem_cons_of_mem _ hd)]
      simp only [Reader.isAtomChar, Bool.and_eq_true, bne_iff_ne, Bool.not_eq_true'] at hc
      simp [hc]

mutual

/-- The scan and the reader pass over the same trivia. -/
theorem run_skipTrivia (opens : List Opening) :
    (s : List Char) → run opens .forms s = run opens .forms (Reader.skipTrivia s)
  | [] => by rw [Reader.skipTrivia]
  | c :: r => by
      rw [Reader.skipTrivia]
      split
      · next hc => rw [run_blank hc, run_skipTrivia opens r]
      split
      · next hc =>
          obtain ⟨rfl, hcloses⟩ := hc
          rw [run_semicolon, loneReturn_eq, hcloses, run_skipComment opens r]
          rfl
      · rfl

theorem run_skipComment (opens : List Opening) :
    (s : List Char) → run opens .comment s = run opens .forms (Reader.skipComment s)
  | [] => by rw [Reader.skipComment]; rfl
  | c :: r => by
      have hrun : run opens .comment (c :: r) =
          run opens (if c = '\n' ∨ c = '\r' then .forms else .comment) r := rfl
      rw [Reader.skipComment, hrun]
      split
      · exact run_skipTrivia opens r
      · exact run_skipComment opens r

end

theorem mem_escapeLetters_iff {c : Char} : c ∈ escapeLetters ↔ ∃ d, Text.unescape? c = some d := by
  unfold Text.unescape? escapeLetters
  split <;> simp_all

theorem run_escape {c : Char} (hc : c ∈ escapeLetters) (opens : List Opening) (r : List Char) :
    run opens .string ('\\' :: c :: r) = run opens .string r := by
  simp [run, next, hc]

theorem run_badEscape {c : Char} (hc : c ∉ escapeLetters) (opens : List Opening)
    (r : List Char) :
    run opens .string ('\\' :: c :: r) = .stuck ('\\' :: c :: r) opens .badEscape := by
  simp [run, next, hc]

/-- In a string the scan goes on where the reader does, and is stuck where the reader is. -/
theorem run_string (opens : List Opening) (s : List Char) : run opens .string s =
    match Reader.readString s with
    | .ok (_, rest) => run opens.tail .forms rest
    | .error .absent => run opens .string []
    | .error (.badEscape bad) => .stuck bad opens .badEscape := by
  fun_induction Reader.readString s with
  | case1 => rfl
  | case2 => rfl
  | case3 r => rfl
  | case4 c r d hd ih =>
      rw [run_escape (mem_escapeLetters_iff.mpr ⟨d, hd⟩), ih]
      rcases Reader.readString r with (_ | _) | _ <;> rfl
  | case5 c r hd => exact run_badEscape (by simp [mem_escapeLetters_iff, hd]) opens r
  | case6 c r hlast hquote hescape ih =>
      have hbackslash : c ≠ '\\' := by
        rintro rfl
        cases r with
        | nil => exact hlast rfl rfl
        | cons d r => exact hescape d r rfl rfl
      have hrun : run opens .string (c :: r) = run opens .string r := by
        simp [run, next, hbackslash, show c ≠ '"' from hquote]
      rw [hrun, ih]
      rcases Reader.readString r with (_ | _) | _ <;> rfl

/-! ### Where the reader finds no form -/

/-- Reading goes back behind all of `opens`: the scan is stuck with `opens` still open, and
not at a bad escape. -/
def StuckIn (opens : List Opening) (v : Verdict) : Prop :=
  ∃ place inner obstacle, v = .stuck place (inner ++ opens) obstacle ∧ obstacle ≠ .badEscape

/-- No form begins at `s`, because of what is there, or because of how the scan goes on from
the list or string that begins there. -/
inductive Blocked (opens : List Opening) : List Char → Prop
  | textEnds : Blocked opens []
  | close (r : List Char) : Blocked opens (')' :: r)
  | badComment {r : List Char} : loneReturn r = true → Blocked opens (';' :: r)
  | unfinished {r : List Char} (construct : Construct) :
      StuckIn (⟨construct, construct.opener :: r⟩ :: opens)
        (run opens .forms (construct.opener :: r)) → Blocked opens (construct.opener :: r)

/-- What the reader finds at `s` is what the scan finds there: where a form ends the scan gets
without being stuck, a bad escape stops both, and where no form begins the scan is blocked. -/
def Finds (opens : List Opening) (s : List Char) :
    Except Reader.Stop (Expr × List Char) → Prop
  | .ok (_, rest) => run opens .forms s = run opens .forms rest
  | .error (.badEscape bad) => ∃ inner, run opens .forms s = .stuck bad inner .badEscape
  | .error .absent => Blocked opens s

/-- The same of a sequence of forms, which ends where no further form begins. -/
def FindsAll (opens : List Opening) (s : List Char) :
    Except (List Char) (List Expr × List Char) → Prop
  | .ok (_, rest) => run opens .forms s = run opens .forms rest ∧ Blocked opens rest
  | .error bad => ∃ inner, run opens .forms s = .stuck bad inner .badEscape

/-- Within a list only its closing parenthesis gets a blocked scan on. -/
theorem Blocked.stuckIn {o : Opening} {opens : List Opening} {s : List Char}
    (h : Blocked (o :: opens) s) (hclose : ∀ r, s ≠ ')' :: r) :
    StuckIn (o :: opens) (run (o :: opens) .forms s) := by
  cases h with
  | textEnds => exact ⟨[], [], .textEnds, rfl, by decide⟩
  | close r => exact absurd rfl (hclose r)
  | badComment hr =>
      rw [run_semicolon, if_pos hr]
      exact ⟨_, [], .badComment, rfl, by decide⟩
  | unfinished construct hstuck =>
      obtain ⟨place, inner, obstacle, hrun, hescape⟩ := hstuck
      exact ⟨place, inner ++ [_], obstacle, by rw [hrun, List.append_assoc]; rfl, hescape⟩

/-- Trivia that cannot be skipped any further are none. -/
theorem blank_or_badComment_of_skipTrivia {c : Char} {r : List Char}
    (h : Reader.skipTrivia (c :: r) = c :: r) :
    isBlank c = false ∧ (c = ';' → loneReturn r = true) := by
  rw [Reader.skipTrivia] at h
  split at h
  · have hle := Reader.length_skipTrivia_le r
    rw [h, List.length_cons] at hle
    omega
  split at h
  · have hle := (Reader.skipComment_suffix r).length_le
    rw [h, List.length_cons] at hle
    omega
  · next hblank hcomment =>
      refine ⟨by simpa using hblank, fun hc => ?_⟩
      rw [loneReturn_eq]
      simpa [hc] using hcomment

theorem finds_string (opens : List Opening) (r : List Char) :
    Finds opens ('"' :: r) (Reader.form? ('"' :: r)) := by
  have hrun := run_string (⟨.string, '"' :: r⟩ :: opens) r
  rw [← run_quote] at hrun
  rw [Reader.form?_quote]
  rcases hstring : Reader.readString r with (_ | bad) | ⟨content, rest⟩
  · rw [hstring] at hrun
    exact .unfinished .string ⟨[], [], .textEnds, hrun, by decide⟩
  · rw [hstring] at hrun
    exact ⟨_, hrun⟩
  · rw [hstring] at hrun
    exact hrun

theorem finds_list {opens : List Opening} {r : List Char}
    (h : FindsAll (⟨.list, '(' :: r⟩ :: opens) r (Reader.forms? r)) :
    Finds opens ('(' :: r) (Reader.form? ('(' :: r)) := by
  rw [Reader.form?_open]
  rcases hforms : Reader.forms? r with bad | ⟨items, rest⟩
  · rw [hforms] at h
    exact h
  · rw [hforms] at h
    obtain ⟨hrun, hblocked⟩ := h
    rw [← run_open] at hrun
    by_cases hclose : ∃ after, rest = ')' :: after
    · obtain ⟨after, rfl⟩ := hclose
      rw [run_close] at hrun
      exact hrun
    · have habsent : Reader.closeList (.ok (items, rest)) = .error .absent := by
        unfold Reader.closeList
        split <;> simp_all
      rw [habsent]
      refine .unfinished .list ?_
      have hstuck := hblocked.stuckIn fun after h => hclose ⟨after, h⟩
      rwa [← hrun] at hstuck

/-- One form, if the scan finds what the reader does in all shorter texts. -/
theorem finds_form {opens : List Opening} {s : List Char} (hskip : Reader.skipTrivia s = s)
    (ih : ∀ t : List Char, t.length < s.length → ∀ opens, FindsAll opens t (Reader.forms? t)) :
    Finds opens s (Reader.form? s) := by
  cases s with
  | nil =>
      rw [Reader.form?_nil]
      exact .textEnds
  | cons c r =>
      by_cases hopen : c = '('
      · subst hopen
        exact finds_list (ih r (by simp) _)
      by_cases hquote : c = '"'
      · subst hquote
        exact finds_string opens r
      by_cases hatom : Reader.isAtomChar c = true
      · rw [Reader.form?_atom hatom]
        have hrun := run_atomChars (Grammar.isAtom_run hatom r).2 opens
          (r.dropWhile Reader.isAtomChar)
        rwa [Grammar.run_append] at hrun
      · rw [Reader.form?_other (by simpa using hatom) hopen hquote]
        obtain ⟨hblank, hcomment⟩ := blank_or_badComment_of_skipTrivia hskip
        -- What is no blank, opens nothing and is no part of an atom is `)` or `;`.
        have hc : c = ')' ∨ c = ';' := by
          simpa [Reader.isAtomChar, hblank, hopen, hquote, or_iff_not_imp_left] using hatom
        rcases hc with rfl | rfl
        · exact .close r
        · exact .badComment (hcomment rfl)

/-- **The scan finds what the reader finds.** -/
theorem finds_forms (opens : List Opening) (s : List Char) :
    FindsAll opens s (Reader.forms? s) := by
  -- A form is shorter than the text it is read from, and what is inside it is shorter still.
  induction hn : s.length using Nat.strongRecOn generalizing s opens with
  | _ n ih =>
    subst hn
    have hle := Reader.length_skipTrivia_le s
    have hfirst : Finds opens (Reader.skipTrivia s) (Reader.form? (Reader.skipTrivia s)) := by
      refine finds_form ?_ fun t ht opens => ih _ (by omega) opens t rfl
      exact (Grammar.skipTrivia_of_trivia (Grammar.trivia_skipTrivia s)).symm
    rw [Reader.forms?_eq]
    rcases hform : Reader.form? (Reader.skipTrivia s) with (_ | bad) | ⟨e, rest⟩
    · rw [hform] at hfirst
      exact ⟨run_skipTrivia opens s, hfirst⟩
    · rw [hform] at hfirst
      obtain ⟨inner, hrun⟩ := hfirst
      exact ⟨inner, by rw [run_skipTrivia opens s, hrun]⟩
    · rw [hform] at hfirst
      have hlt := Reader.length_lt_of_form? hform
      have hrest := ih rest.length (by omega) opens rest rfl
      have hrun : run opens .forms s = run opens .forms rest :=
        (run_skipTrivia opens s).trans hfirst
      change FindsAll opens s ((Reader.forms? rest).map _)
      rcases hforms : Reader.forms? rest with bad | ⟨es, rest'⟩
      · rw [hforms] at hrest
        obtain ⟨inner, hstuck⟩ := hrest
        exact ⟨inner, hrun.trans hstuck⟩
      · rw [hforms] at hrest
        exact ⟨hrun.trans hrest.1, hrest.2⟩

end Scan

end ModularLisp
