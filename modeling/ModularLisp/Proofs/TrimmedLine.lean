import Mathlib.Data.List.DropRight
import ModularLisp.Proofs.LineByLine
import ModularLisp.Proofs.ReportedError

/-!
# ModularLisp.Proofs.TrimmedLine

**What trimming does to a line.** A session runs a line without the blanks at its ends, and
shows the error of that. This module compares it with the line as it was typed
(`Session.trimmed_line_against_typed`).

Blanks in front only move what is behind them. Blanks at the end mean something in two cases. A
backslash that is the last character of a string without an end escapes nothing, and the error
shows the character after it. A comment at the end of the line is ended by the end of the text,
but by no carriage return, so with one among the blanks it is no comment. Apart from that a scan
over the line goes the way it goes over the trimmed line (`Scan.run_append_blanks`).
-/

namespace ModularLisp

open Text (Position)

/-! ### Blanks -/

/-- What can stand at an end of a line: blanks, and no line feed among them. -/
structure Blanks (t : List Char) : Prop where
  isBlank : ∀ c ∈ t, Text.isBlank c = true
  lineFeed : '\n' ∉ t

namespace Blanks

variable {t : List Char}

theorem tail {c : Char} (h : Blanks (c :: t)) : Blanks t :=
  ⟨fun d hd => h.isBlank d (List.mem_cons_of_mem _ hd),
    fun hfeed => h.lineFeed (List.mem_cons_of_mem _ hfeed)⟩

theorem atomEnd (h : Blanks t) : Grammar.AtomEnd t := by
  intro c hc
  have hblank := h.isBlank c (List.mem_of_mem_head? hc)
  simp [Reader.isAtomChar, hblank]

theorem trivia (h : Blanks t) (s : List Char) : Grammar.Trivia (t ++ s) s := by
  induction t with
  | nil => exact .none s
  | cons c t ih => exact .blank (h.isBlank c List.mem_cons_self) (ih h.tail)

end Blanks

/-! ### Comments on one line -/

/-- On one line a carriage return is a lone one, and keeps a comment from being one. -/
theorem Reader.commentCloses_eq_false_iff {s : List Char} (h : '\n' ∉ s) :
    commentCloses s = false ↔ '\r' ∈ s := by
  induction s with
  | nil => simp [commentCloses]
  | cons c r ih =>
      obtain ⟨hc, hr⟩ := List.ne_and_not_mem_of_not_mem_cons h
      rw [commentCloses, if_neg (Ne.symm hc)]
      by_cases hreturn : c = '\r'
      · have hhead : r.head? ≠ some '\n' := fun hhead => hr (List.mem_of_mem_head? hhead)
        simp [hreturn, hhead]
      · rw [if_neg hreturn, ih hr, List.mem_cons, or_iff_right (Ne.symm hreturn)]

namespace Grammar

variable {s t : List Char}

/-- The line `s` ends in a comment, whose semicolon comes after `before`: forms and trivia lead
up to it, and no carriage return comes after it. -/
def EndsInComment (before s : List Char) : Prop :=
  ∃ body es r, s = before ++ ';' :: body ∧ '\r' ∉ body ∧ Forms s es r ∧ Trivia r (';' :: body)

/-- Blanks after trivia are trivia, unless one is a carriage return and the trivia end in a
comment. -/
theorem Trivia.append_blanks {r : List Char} (h : Trivia r []) (ht : Blanks t) :
    Trivia (r ++ t) [] ∨
      '\r' ∈ t ∧ ∃ body, '\r' ∉ body ∧ Trivia r (';' :: body) := by
  rcases h.closed_or_open with hclosed | ⟨body, hbody, hopen⟩
  · have hblanks := ht.trivia []
    rw [List.append_nil] at hblanks
    exact .inl ((hclosed t).trans hblanks)
  by_cases hreturn : '\r' ∈ t
  · exact .inr ⟨hreturn, body, fun hmem => (hbody _ hmem).2 rfl, hopen⟩
  · have hline : ∀ c ∈ body ++ t, c ≠ '\n' ∧ c ≠ '\r' := by
      intro c hc
      rcases List.mem_append.mp hc with hc | hc
      · exact hbody c hc
      · exact ⟨fun h => ht.lineFeed (h ▸ hc), fun h => hreturn (h ▸ hc)⟩
    have hcomment := Trivia.comment hline .text (.none [])
    rw [List.append_nil] at hcomment
    exact .inl ((hopen.append (List.cons_ne_nil _ _) t).trans hcomment)

theorem stopsAt_of_blanks (ht : Blanks t) {x : List Char} (h : Reader.StopsAt s x) :
    Reader.StopsAt (t ++ s) x := by
  unfold Reader.StopsAt at h ⊢
  rwa [Reader.forms?_of_trivia (ht.trivia s)]

/-- The forms of a line are the forms of the line with blanks after it, as far as no comment
is concerned. -/
theorem program_append_blanks {es : List Expr} (h : Program s es) (ht : Blanks t)
    (hcomment : '\r' ∈ t → ∀ before, ¬ EndsInComment before s) :
    Program (s ++ t) es := by
  obtain ⟨r, hforms, htrivia⟩ := h
  refine ⟨r ++ t, hforms.append_of_atomEnd ht.atomEnd, ?_⟩
  refine (htrivia.append_blanks ht).resolve_right ?_
  rintro ⟨hreturn, body, hbody, hopen⟩
  obtain ⟨before, hsplit⟩ := hopen.suffix.trans hforms.suffix
  exact hcomment hreturn before ⟨body, es, r, hsplit.symm, hbody, hforms, hopen⟩

/-- A comment at the end of a line is none if there is a carriage return among the blanks after
it, and reading stops at its semicolon. -/
theorem EndsInComment.stopsAt {before : List Char} (h : EndsInComment before s) (hs : '\n' ∉ s)
    (ht : Blanks t) (hreturn : '\r' ∈ t) :
    ∃ body, s = before ++ ';' :: body ∧ Reader.StopsAt (s ++ t) (';' :: (body ++ t)) := by
  obtain ⟨body, es, r, hsplit, -, hforms, htrivia⟩ := h
  have hrest : '\n' ∉ body ++ t := by
    have hbody : '\n' ∉ body := fun hfeed => hs (by simp [hsplit, hfeed])
    simp [hbody, ht.lineFeed]
  refine ⟨body, hsplit, .inr ⟨es, ?_⟩⟩
  have hopen := htrivia.append (List.cons_ne_nil _ _) t
  have hnone := (Reader.commentCloses_eq_false_iff hrest).mpr (List.mem_append_right _ hreturn)
  rw [forms?_of_forms (hforms.append_of_atomEnd ht.atomEnd), Reader.forms?_of_trivia hopen,
    List.cons_append, forms?_semicolon hnone]
  simp [Except.map]

end Grammar

namespace Scan

variable {t : List Char}

/-! ### A scan with blanks behind it -/

/-- An opening in a text that goes on with `t`. -/
def Opening.before (t : List Char) (o : Opening) : Opening :=
  { o with place := o.place ++ t }

theorem loneReturn_eq_true_iff {s : List Char} (h : '\n' ∉ s) : loneReturn s = true ↔ '\r' ∈ s := by
  rw [loneReturn_eq, Bool.not_eq_true', Reader.commentCloses_eq_false_iff h]

/-- Blanks at the end leave a scan where it is. -/
theorem run_blanks (ht : Blanks t) (opens : List Opening) {mode : Mode} (hmode : mode ≠ .escape) :
    run opens mode t = run opens .forms [] := by
  induction t generalizing mode with
  | nil => rfl
  | cons c t ih =>
      have hc := ht.isBlank c List.mem_cons_self
      cases mode with
      | forms => rw [run_blank hc, ih ht.tail (by decide)]
      | comment =>
          refine ih ht.tail ?_
          split <;> decide
      | string =>
          have hquote : c ≠ '"' := by rintro rfl; exact absurd hc (by decide)
          have hbackslash : c ≠ '\\' := by rintro rfl; exact absurd hc (by decide)
          have hstep : run opens .string (c :: t) = run opens .string t := by
            simp [run, next, hquote, hbackslash]
          rw [hstep, ih ht.tail (by decide)]
      | escape => exact absurd rfl hmode

/-- A scan goes through a comment up to the end of its line. -/
theorem run_comment {body : List Char} (hn : '\n' ∉ body) (hr : '\r' ∉ body)
    (opens : List Opening) : run opens .comment body = run opens .forms [] := by
  induction body with
  | nil => rfl
  | cons c body ih =>
      obtain ⟨hnc, hn⟩ := List.ne_and_not_mem_of_not_mem_cons hn
      obtain ⟨hrc, hr⟩ := List.ne_and_not_mem_of_not_mem_cons hr
      rw [← ih hn hr]
      simp [run, next, Ne.symm hnc, Ne.symm hrc]

theorem not_blank_of_mem_escapeLetters {c : Char} (h : c ∈ escapeLetters) :
    Text.isBlank c = false := by
  simp only [escapeLetters, List.mem_cons, List.not_mem_nil, or_false] at h
  rcases h with rfl | rfl | rfl | rfl | rfl <;> decide

/-- Blanks behind a text change nothing of what a step does, unless it is the step into a comment
that one of them keeps from being one. -/
theorem next_append_blanks (ht : Blanks t) {r : List Char} (hr : '\n' ∉ r) (opens : List Opening)
    (mode : Mode) (c : Char) :
    next (opens.map (.before t)) mode c (r ++ t) =
        (next opens mode c r).map (fun p => (p.1.map (.before t), p.2)) ∨
      mode = .forms ∧ c = ';' ∧ '\r' ∉ r ∧ '\r' ∈ t := by
  have hrt : '\n' ∉ r ++ t := by simp [hr, ht.lineFeed]
  cases mode with
  | comment | escape => exact .inl rfl
  | string =>
      have hhead : (r ++ t).head?.any escapeLetters.contains =
          r.head?.any escapeLetters.contains := by
        cases r with
        | cons d r => rfl
        | nil =>
            cases t with
            | nil => rfl
            | cons d t =>
                have hd : d ∉ escapeLetters := fun hmem => by
                  have hblank := not_blank_of_mem_escapeLetters hmem
                  rw [ht.isBlank d List.mem_cons_self] at hblank
                  cases hblank
                simpa using hd
      left
      simp only [next, hhead, ← List.map_tail]
      split
      · rfl
      split
      · split <;> rfl
      · rfl
  | forms =>
      by_cases hsemicolon : c = ';'
      · subst hsemicolon
        by_cases hreturn : '\r' ∈ t ∧ '\r' ∉ r
        · exact .inr ⟨rfl, rfl, hreturn.2, hreturn.1⟩
        · have hlone : loneReturn (r ++ t) = loneReturn r := by
            rw [Bool.eq_iff_iff, loneReturn_eq_true_iff hrt, loneReturn_eq_true_iff hr,
              List.mem_append]
            tauto
          left
          simp only [next, hlone, Char.reduceEq, if_false, if_true]
          split <;> rfl
      · left
        simp only [next, hsemicolon, if_false, List.map_eq_nil_iff, ← List.map_tail]
        split
        · rfl
        split
        · split <;> rfl
        split <;> rfl

/-- An escape has a letter. -/
theorem ne_nil_of_next_escape {opens opens' : List Opening} {mode : Mode} {c : Char}
    {r : List Char} (h : next opens mode c r = .ok (opens', .escape)) : r ≠ [] := by
  rintro rfl
  unfold next at h
  split at h <;> grind

theorem reported_append_blanks (place : List Char) (opens : List Opening) (obstacle : Obstacle) :
    reported (place ++ t) (opens.map (.before t)) obstacle =
      reported place opens obstacle ++ t := by
  have hlast : ((opens.map (Opening.before t)).getLast?.map Opening.place).getD (place ++ t) =
      (opens.getLast?.map Opening.place).getD place ++ t := by
    rw [List.getLast?_map]
    cases opens.getLast? <;> rfl
  cases obstacle with
  | badEscape => rfl
  | strayClose | badComment | textEnds => exact hlast

/-- With something open it matters neither where a scan is stuck nor why, if it is not for an
escape. -/
theorem reported_of_opens {opens : List Opening} (hopens : opens ≠ []) (place : List Char)
    {obstacle : Obstacle} (hescape : obstacle ≠ .badEscape) :
    reported place (opens.map (.before t)) obstacle = reported [] opens .textEnds ++ t := by
  have hlast := List.getLast?_eq_getLast_of_ne_nil hopens
  cases obstacle with
  | badEscape => exact absurd rfl hescape
  | strayClose | badComment | textEnds =>
      simp only [reported, List.getLast?_map, hlast, Option.map_some, Option.getD_some,
        Opening.before]

theorem stuck_at_end {opens opens' : List Opening} {mode : Mode} {place : List Char}
    {obstacle : Obstacle} (h : run opens mode [] = .stuck place opens' obstacle) :
    opens ≠ [] ∧ place = [] ∧ opens = opens' ∧ obstacle = .textEnds := by
  rw [run] at h
  split at h
  · cases h
  · next hopens =>
      obtain ⟨rfl, rfl, rfl⟩ := Verdict.stuck.inj h
      exact ⟨hopens, rfl, rfl, rfl⟩

/-- A scan of a line that is stuck is stuck with blanks behind the line too, and the same place is
to be reported. -/
theorem run_append_blanks (ht : Blanks t) {s : List Char} (hs : '\n' ∉ s)
    {opens opens' : List Opening} {mode : Mode} (hmode : mode = .escape → s ≠ [])
    {place : List Char} {obstacle : Obstacle}
    (h : run opens mode s = .stuck place opens' obstacle) : ∃ place' obstacle',
      run (opens.map (.before t)) mode (s ++ t) =
        .stuck place' (opens'.map (.before t)) obstacle' ∧
      reported place' (opens'.map (.before t)) obstacle' = reported place opens' obstacle ++ t := by
  induction s generalizing opens mode with
  | nil =>
      obtain ⟨hopens, rfl, rfl, rfl⟩ := stuck_at_end h
      have hmap : opens.map (Opening.before t) ≠ [] := by simpa using hopens
      refine ⟨[], .textEnds, ?_, reported_of_opens hopens _ (by decide)⟩
      rw [List.nil_append, run_blanks ht _ (fun hescape => hmode hescape rfl), run, if_neg hmap]
  | cons c r ih =>
      obtain ⟨-, hr⟩ := List.ne_and_not_mem_of_not_mem_cons hs
      rcases next_append_blanks ht hr opens mode c with hnext | ⟨rfl, rfl, hreturn, hblank⟩
      · rw [run] at h
        rw [List.cons_append, run, hnext]
        cases hstep : next opens mode c r with
        | error obstacle₁ =>
            rw [hstep] at h
            obtain ⟨rfl, rfl, rfl⟩ := Verdict.stuck.inj h
            exact ⟨_, _, rfl, reported_append_blanks (c :: r) opens obstacle₁⟩
        | ok p =>
            obtain ⟨opens₁, mode₁⟩ := p
            rw [hstep] at h
            refine ih hr ?_ h
            rintro rfl
            exact ne_nil_of_next_escape hstep
      -- The comment is none, but with something open the place to report is the same.
      · have hlone : loneReturn (r ++ t) = true :=
          (loneReturn_eq_true_iff (by simp [hr, ht.lineFeed])).mpr
            (List.mem_append_right _ hblank)
        have hopen : ¬ loneReturn r = true := (loneReturn_eq_true_iff hr).not.mpr hreturn
        rw [run_semicolon, if_neg hopen, run_comment hr hreturn] at h
        obtain ⟨hopens, rfl, rfl, rfl⟩ := stuck_at_end h
        refine ⟨';' :: (r ++ t), .badComment, ?_, reported_of_opens hopens _ (by decide)⟩
        rw [List.cons_append, run_semicolon, if_pos hlone]

theorem scan_of_trivia {s r : List Char} (h : Grammar.Trivia s r) : scan s = scan r := by
  rw [scan, run_skipTrivia, Grammar.skipTrivia_of_trivia h, ← run_skipTrivia, ← scan]

/-- Where a scan is stuck a program is in error. -/
theorem parse_of_stuck {source : String} {place : List Char} {opens : List Opening}
    {obstacle : Obstacle} (h : scan source.toList = .stuck place opens obstacle) :
    parse source = .error (.ofRest source.toList (reported place opens obstacle)) := by
  cases hparse : parse source with
  | ok forms =>
      rw [scan_of_parse_ok hparse] at h
      cases h
  | error e =>
      obtain ⟨_, _, _, hstuck, rfl, -⟩ := scan_of_parse_error hparse
      obtain ⟨rfl, rfl, rfl⟩ := Verdict.stuck.inj (h.symm.trans hstuck)
      rfl

end Scan

/-! ### A text between blanks -/

namespace Reader

/-- The fault of a text that goes on with the blanks `t`. Only a backslash at its end is told with
the character that follows. -/
def Fault.before (t : List Char) : Fault → Fault
  | .invalidEscape escape =>
      .invalidEscape (if escape = "\\" then "\\" ++ String.ofList (t.take 1) else escape)
  | fault => fault

/-- The error of a text that is written between the blanks `l` and `t`. -/
def ParseError.between (l t : List Char) (e : ParseError) : ParseError :=
  ⟨⟨e.position.line, e.position.column + l.length⟩, e.fault.before t⟩

theorem Fault.ofRest_append {x : List Char} {text : String} (h : Scan.Message x text)
    (t : List Char) : ofRest (x ++ t) = (ofRest x).before t := by
  cases h with
  | unexpectedClose | unclosedList | unterminatedString | unexpectedSemicolon => rfl
  | invalidEscape r =>
      cases r with
      | nil => simp [ofRest, before]
      | cons c r =>
          have hne : String.ofList ['\\', c] ≠ "\\" := by simp [← String.toList_inj]
          exact congrArg invalidEscape (if_neg hne).symm

theorem Fault.before_eq_self_iff {t : List Char} {fault : Fault} :
    fault.before t = fault ↔ (fault = .invalidEscape "\\" → t = []) := by
  cases fault with
  | unexpectedClose | unclosedList | unterminatedString | unexpectedChar | endOfInput =>
      simp [before]
  | invalidEscape escape =>
      by_cases hescape : escape = "\\"
      · simp [before, hescape]
      · simp [before, hescape]

theorem ParseError.between_eq_self_iff {l t : List Char} {e : ParseError} :
    e.between l t = e ↔ l = [] ∧ (e.fault = .invalidEscape "\\" → t = []) := by
  obtain ⟨⟨line, column⟩, fault⟩ := e
  simp [between, Fault.before_eq_self_iff]

end Reader

/-- On the first line the column counts the characters passed. -/
theorem Text.Position.after_of_not_mem {consumed : List Char} (h : '\n' ∉ consumed) :
    after consumed = ⟨1, 1 + consumed.length⟩ := by
  have hline := line_after consumed
  rw [List.count_eq_zero.mpr h] at hline
  have hcolumn := column_foldl_advance start h
  exact congrArg₂ Position.mk hline hcolumn

/-- The line `source` is the text `core` between the blanks `l` and `t`. -/
structure Between (source : String) (l : List Char) (core : String) (t : List Char) : Prop where
  split : source.toList = l ++ core.toList ++ t
  front : Blanks l
  back : Blanks t
  lineFeed : '\n' ∉ core.toList

namespace Between

variable {source core : String} {l t : List Char} (hsource : Between source l core t)
include hsource

theorem parse_ok {es : List Expr} (h : parse core = .ok es)
    (hcomment : '\r' ∈ t → ∀ before, ¬ Grammar.EndsInComment before core.toList) :
    parse source = .ok es := by
  rw [Grammar.parse_eq_ok_iff] at h ⊢
  have hprogram := Grammar.program_append_blanks h hsource.back hcomment
  rw [Grammar.program_iff] at hprogram ⊢
  rw [hsource.split, List.append_assoc, Reader.forms?_of_trivia (hsource.front.trivia _), hprogram]

theorem parse_comment {before : List Char} (h : Grammar.EndsInComment before core.toList)
    (hreturn : '\r' ∈ t) :
    parse source = .error ⟨⟨1, 1 + l.length + before.length⟩, .unexpectedChar ';'⟩ := by
  obtain ⟨body, hsplit, hstop⟩ := h.stopsAt hsource.lineFeed hsource.back hreturn
  have hbefore : '\n' ∉ l ++ before := by
    have : '\n' ∉ before := fun hfeed => hsource.lineFeed (by simp [hsplit, hfeed])
    simp [hsource.front.lineFeed, this]
  have hline : source.toList = (l ++ before) ++ ';' :: (body ++ t) := by
    rw [hsource.split, hsplit]
    simp
  rw [parse, Reader.readProgram_eq_error_iff]
  refine ⟨';' :: (body ++ t), ?_, List.cons_ne_nil _ _, ?_⟩
  · rw [hsource.split, List.append_assoc]
    exact Grammar.stopsAt_of_blanks hsource.front hstop
  · rw [hline, Reader.ParseError.ofRest, Position.ofRest_append,
      Position.after_of_not_mem hbefore, List.length_append, ← Nat.add_assoc]
    rfl

theorem parse_error {e : Reader.ParseError} (h : parse core = .error e) :
    parse source = .error (e.between l t) := by
  obtain ⟨place, opens, obstacle, hstuck, rfl, hmessage⟩ := Scan.scan_of_parse_error h
  obtain ⟨consumed, hsplit⟩ := Scan.reported_suffix hstuck
  obtain ⟨place', obstacle', hstuck', hreported⟩ :=
    Scan.run_append_blanks hsource.back hsource.lineFeed (by simp) hstuck
  have hscan : Scan.scan source.toList = .stuck place' (opens.map (.before t)) obstacle' := by
    rw [hsource.split, List.append_assoc, Scan.scan_of_trivia (hsource.front.trivia _)]
    exact hstuck'
  have hconsumed : '\n' ∉ consumed := fun hfeed => hsource.lineFeed (by simp [← hsplit, hfeed])
  have hbefore : '\n' ∉ l ++ consumed := by simp [hsource.front.lineFeed, hconsumed]
  rw [Scan.parse_of_stuck hscan, hreported]
  generalize Scan.reported place opens obstacle = x at hsplit hmessage
  have hline : source.toList = (l ++ consumed) ++ (x ++ t) := by
    rw [hsource.split, ← hsplit]
    simp
  rw [hline, ← hsplit]
  simp only [Reader.ParseError.ofRest, Reader.ParseError.between, Position.ofRest_append,
    Position.after_of_not_mem hbefore, Position.after_of_not_mem hconsumed,
    Reader.Fault.ofRest_append hmessage, List.length_append]
  congr 3
  omega

end Between

/-! ### Lines of a session -/

namespace Session

open Files (FileSystem)
open Reader (ParseError)

/-- The blanks that a line begins with. -/
def leading (line : String) : List Char :=
  line.toList.takeWhile Text.isBlank

/-- The blanks that are left at the end of a line without those in front. -/
def trailing (line : String) : List Char :=
  (Text.trimLeft line.toList).rtakeWhile Text.isBlank

theorem toList_eq (line : String) :
    line.toList = leading line ++ (trimmed line).toList ++ trailing line := by
  have hleft : leading line ++ Text.trimLeft line.toList = line.toList :=
    List.takeWhile_append_dropWhile
  have hright : Text.trim line.toList ++ trailing line = Text.trimLeft line.toList :=
    List.rdropWhile_append_rtakeWhile
  rw [trimmed, String.toList_ofList, List.append_assoc, hright, hleft]

variable {line : String}

theorem between_blanks (h : '\n' ∉ line.toList) :
    Between line (leading line) (trimmed line) (trailing line) := by
  have hfeed := h
  simp only [toList_eq line, List.mem_append, not_or] at hfeed
  obtain ⟨⟨hleading, htrimmed⟩, htrailing⟩ := hfeed
  exact ⟨toList_eq line, ⟨fun _ => List.mem_takeWhile_imp, hleading⟩,
    ⟨fun _ => List.mem_rtakeWhile_imp, htrailing⟩, htrimmed⟩

/-- No line that is taken has a line feed. -/
theorem not_mem_of_leaves {input typed : String} (hinput : typed ∈ lines input)
    (h : Leaves typed line) : '\n' ∉ line.toList := by
  intro hfeed
  obtain ⟨l, hl, rfl⟩ := List.mem_map.mp hinput
  have htyped := mem_of_erase? h hfeed
  rw [String.toList_ofList] at htyped
  exact Text.not_mem_of_mem_lines hl htyped

/-- Trimming leaves the program that a line is, or the error that is in it, as it is: no carriage
return is taken from behind a comment, and if there is an error, then nothing is taken from the
front of the line and nothing from behind a backslash that is told. -/
def TrimsHarmlessly (line : String) : Prop :=
  match parse (trimmed line) with
  | .ok _ => '\r' ∈ trailing line → ∀ before, ¬ Grammar.EndsInComment before (trimmed line).toList
  | .error e => leading line = [] ∧ (e.fault = .invalidEscape "\\" → trailing line = [])

theorem parse_eq_iff_trimsHarmlessly (h : '\n' ∉ line.toList) :
    parse line = parse (trimmed line) ↔ TrimsHarmlessly line := by
  have hline := between_blanks h
  unfold TrimsHarmlessly
  cases hparse : parse (trimmed line) with
  | ok es =>
      constructor
      · intro hsame hreturn before hcomment
        rw [hline.parse_comment hcomment hreturn] at hsame
        cases hsame
      · exact hline.parse_ok hparse
  | error e =>
      rw [hline.parse_error hparse, Except.error.injEq, ParseError.between_eq_self_iff]

/-- A text is run into its parse error exactly if it has that error. -/
theorem evaluateSource_eq_parse_error_iff {ev : Evaluator} {source : String} {scope : ScopeId}
    {m : Machine} {e : ParseError} :
    Eval.evaluateSource ev source scope m = some (.error (.parse e), m) ↔
      parse source = .error e := by
  rw [Eval.evaluateSource_apply]
  cases hparse : parse source with
  | error e' => simp
  | ok es =>
      simp only [reduceCtorEq, iff_false]
      intro hrun
      obtain ⟨r, -, hr⟩ := Run.mapError_eq_some_iff.mp hrun
      cases r <;> cases hr

theorem run_of_parse_error {source : String} {e : ParseError} (h : parse source = .error e)
    (files : FileSystem) (fuel : Nat) (s : State) : s.run files fuel source =
      some ⟨"", CommandLine.failureLine [e.message], s, .running⟩ := by
  rw [State.run, evaluateSource_eq_parse_error_iff.mpr h]
  rfl

/-- The outcome tells whether trimming was harmless, whatever the program does. -/
theorem evaluateSource_eq_iff (h : '\n' ∉ line.toList) {ev : Evaluator} {scope : ScopeId}
    {m : Machine} :
    Eval.evaluateSource ev (trimmed line) scope m = Eval.evaluateSource ev line scope m ↔
      TrimsHarmlessly line := by
  rw [← parse_eq_iff_trimsHarmlessly h]
  constructor
  · intro hsame
    cases hline : parse line with
    | error e =>
        exact (evaluateSource_eq_parse_error_iff.mp
          (hsame.trans (evaluateSource_eq_parse_error_iff.mpr hline))).symm
    | ok es' =>
        cases htrimmed : parse (trimmed line) with
        | error e =>
            have herror := evaluateSource_eq_parse_error_iff.mp
              (hsame.symm.trans (evaluateSource_eq_parse_error_iff.mpr htrimmed))
            rw [hline] at herror
            cases herror
        | ok es =>
            rw [← hline, ← htrimmed, parse_eq_iff_trimsHarmlessly h, TrimsHarmlessly, htrimmed]
            intro hreturn before hcomment
            rw [(between_blanks h).parse_comment hcomment hreturn] at hline
            cases hline
  · intro hsame
    rw [Eval.evaluateSource_apply, Eval.evaluateSource_apply, hsame]

/-! ### The law of the trimmed line -/

/-- **A session runs the trimmed line, and tells where its error is in that.** A line, which is
its leading blanks, the trimmed line and its trailing blanks, is entered as it is and run trimmed.
If the trimmed line is a program then the line is the same program, except that a comment it ends
in is an error at its semicolon with a carriage return among the trailing blanks. If the trimmed
line is in error, so is the line, further right by the number of leading blanks and otherwise in
the same way, except that a backslash at the end of the trimmed line is told with the blank
after it. So the outcome is that of the line as it was typed exactly if trimming is harmless, in
every state and whatever evaluation does. -/
theorem trimmed_line_against_typed {input typed line : String} (hinput : typed ∈ lines input)
    (h : Leaves typed line) (hblank : trimmed line ≠ "") (hexit : trimmed line ≠ ".exit") :
    line.toList = leading line ++ (trimmed line).toList ++ trailing line ∧
    (∀ files fuel (s : State), s.take files fuel typed =
      { s with line := s.line + 1, history := s.history.add line }.run files fuel (trimmed line)) ∧
    (∀ forms, parse (trimmed line) = .ok forms →
      ('\r' ∈ trailing line → ∀ before, ¬ Grammar.EndsInComment before (trimmed line).toList) →
      parse line = .ok forms) ∧
    (∀ before, Grammar.EndsInComment before (trimmed line).toList → '\r' ∈ trailing line →
      parse line =
        .error ⟨⟨1, 1 + (leading line).length + before.length⟩, .unexpectedChar ';'⟩) ∧
    (∀ e, parse (trimmed line) = .error e →
      (∀ files fuel (s : State), s.take files fuel typed =
        some ⟨"", CommandLine.failureLine [e.message],
          { s with line := s.line + 1, history := s.history.add line }, .running⟩) ∧
      parse line = .error (e.between (leading line) (trailing line))) ∧
    ∀ ev scope m,
      Eval.evaluateSource ev (trimmed line) scope m = Eval.evaluateSource ev line scope m ↔
        TrimsHarmlessly line := by
  have hline := not_mem_of_leaves hinput h
  have hbetween := between_blanks hline
  refine ⟨toList_eq line, fun files fuel s => take_eq_run h hblank hexit s, ?_, ?_, ?_,
    fun ev scope m => evaluateSource_eq_iff hline⟩
  · intro forms hforms hcomment
    exact hbetween.parse_ok hforms hcomment
  · intro before hcomment hreturn
    exact hbetween.parse_comment hcomment hreturn
  · intro e he
    refine ⟨?_, hbetween.parse_error he⟩
    intro files fuel s
    rw [take_eq_run h hblank hexit, run_of_parse_error he]

/-- A line with a tab in front and a wide space behind a backslash that escapes nothing. -/
theorem trimmed_line_against_typed_backslash :
    ∃ reply, (State.start .empty).take ⟨[], []⟩ 0 "\t(\"\\\u3000" = some reply ∧
      reply.errors = "\x1b[1m\x1b[31mError\x1b[39m\x1b[0m: Parse error at line 1, column 3: " ++
        "invalid escape '\\'\n" ∧
      parse "\t(\"\\\u3000" = .error ⟨⟨1, 4⟩, .invalidEscape "\\\u3000"⟩ := by
  have htyped : "\t(\"\\\u3000" ∈ lines "\t(\"\\\u3000\n" := by decide +kernel
  have hleaves : Leaves "\t(\"\\\u3000" "\t(\"\\\u3000" := by decide +kernel
  have hparse : parse (trimmed "\t(\"\\\u3000") = .error ⟨⟨1, 3⟩, .invalidEscape "\\"⟩ := by
    cbv
  have h := trimmed_line_against_typed htyped hleaves (by cbv) (by cbv)
  obtain ⟨htake, herror⟩ := h.2.2.2.2.1 _ hparse
  refine ⟨_, htake _ _ _, ?_, herror.trans ?_⟩
  · rfl
  · cbv

/-- A parenthesis that nothing opened is in the third column of the line, and is told to be in the
first. -/
theorem indented_close_told_in_first_column :
    lines "  )\n" = ["  )"] ∧
      ((State.start .empty).take ⟨[], []⟩ 0 "  )").map Reply.errors =
        some ("\x1b[1m\x1b[31mError\x1b[39m\x1b[0m: Parse error at line 1, column 1: " ++
          "unexpected ')'\n") ∧
      ((State.start .empty).run ⟨[], []⟩ 0 "  )").map Reply.errors =
        some ("\x1b[1m\x1b[31mError\x1b[39m\x1b[0m: Parse error at line 1, column 3: " ++
          "unexpected ')'\n") := by
  have hleaves : Leaves "  )" "  )" := by decide +kernel
  have htrimmed : parse (trimmed "  )") = .error ⟨⟨1, 1⟩, .unexpectedClose⟩ := by cbv
  have htyped : parse "  )" = .error ⟨⟨1, 3⟩, .unexpectedClose⟩ := by cbv
  refine ⟨by decide +kernel, ?_, ?_⟩
  · rw [take_eq_run hleaves (by cbv) (by cbv), run_of_parse_error htrimmed]
    rfl
  · rw [run_of_parse_error htyped]
    rfl

end Session

end ModularLisp
