import ModularLisp.Proofs.Scan

/-!
# ModularLisp.Proofs.FormByForm

**Two ways to read a text.** A program is read in one go (`readProgram`), or one expression
after the other (`readExpr`), each call with the text the call before left. The two skip
trivia at different times: the first before every form and once at the end, the second on
both sides of every form. It makes no difference, because trivia skipped are not there to be
skipped again: what is read after a form is read after its trivia (`forms?_of_readExpr`).

A failure is compared by its place. What an error tells is a line, a column and what is wrong
there, and that determines the place in the text (`Text.Position.eq_of_after_eq`), so two
programs of which one ends with the other can fail at the same place (`FailsAt`).
-/

namespace ModularLisp

/-! ### Places -/

namespace Text.Position

/-- Passing a character changes the place. -/
theorem eq_nil_of_foldl_advance_eq {p : Position} {s : List Char}
    (h : s.foldl advance p = p) : s = [] := by
  have hline := line_foldl_advance p s
  rw [h] at hline
  have hfeed : '\n' ∉ s := List.count_eq_zero.mp (by omega)
  have hcolumn := column_foldl_advance p hfeed
  rw [h] at hcolumn
  exact List.eq_nil_of_length_eq_zero (by omega)

/-- Two beginnings of a text after which the place is the same are the same. -/
theorem eq_of_after_eq {consumed consumed' s : List Char} (hs : consumed <+: s)
    (hs' : consumed' <+: s) (h : after consumed = after consumed') : consumed = consumed' := by
  wlog hlength : consumed.length ≤ consumed'.length generalizing consumed consumed'
  · exact (this hs' hs h.symm (by omega)).symm
  obtain ⟨passed, rfl⟩ := List.prefix_of_prefix_length_le hs hs' hlength
  simp only [after, List.foldl_append] at h
  simp [eq_nil_of_foldl_advance_eq h.symm]

end Text.Position

/-! ### What is read leaves the end of the text -/

namespace Grammar

theorem Trivia.suffix {s r : List Char} (h : Trivia s r) : r <:+ s := by
  induction h with
  | none => exact List.suffix_refl _
  | blank _ _ ih => exact ih.trans (List.suffix_cons _ _)
  | comment _ _ _ ih => exact (ih.trans (List.suffix_append _ _)).trans (List.suffix_cons _ _)

theorem Content.suffix {s content r : List Char} (h : Content s content r) : r <:+ s := by
  induction h with
  | close r => exact List.suffix_cons _ _
  | plain _ _ _ ih => exact ih.trans (List.suffix_cons _ _)
  | escaped _ _ ih => exact (ih.trans (List.suffix_cons _ _)).trans (List.suffix_cons _ _)

mutual

theorem Form.suffix {s r : List Char} {e : Expr} (h : Form s e r) : r <:+ s := by
  cases h with
  | list hitems htrivia =>
      have hinner := (List.suffix_cons _ _).trans (htrivia.suffix.trans hitems.suffix)
      exact hinner.trans (List.suffix_cons _ _)
  | string hcontent => exact hcontent.suffix.trans (List.suffix_cons _ _)
  | atom => exact List.suffix_append _ _

theorem Forms.suffix {s r : List Char} {es : List Expr} (h : Forms s es r) : r <:+ s := by
  cases h with
  | nil => exact List.suffix_refl _
  | cons htrivia hform hforms => exact hforms.suffix.trans (hform.suffix.trans htrivia.suffix)

end

end Grammar

namespace Reader

open Text (Position)

/-- A bad escape is in the text, and there is a backslash there. -/
theorem badEscape_of_forms? {s bad : List Char} (h : forms? s = .error bad) :
    bad <:+ s ∧ bad.head? = some '\\' := by
  have hfinds := Scan.finds_forms [] s
  rw [h] at hfinds
  obtain ⟨inner, hstuck⟩ := hfinds
  obtain ⟨hsuffix, -, hbackslash⟩ := Scan.stuck_run hstuck
  exact ⟨hsuffix, hbackslash rfl⟩

/-- Where reading a program stops: behind its last form and the trivia there, or at a bad
escape. -/
def StopsAt (s x : List Char) : Prop :=
  forms? s = .error x ∨ ∃ es, forms? s = .ok (es, x)

theorem StopsAt.suffix {s x : List Char} (h : StopsAt s x) : x <:+ s := by
  rcases h with h | ⟨es, h⟩
  · exact (badEscape_of_forms? h).1
  · obtain ⟨r, hforms, htrivia⟩ := Grammar.forms_of_forms? h
    exact htrivia.suffix.trans hforms.suffix

theorem StopsAt.unique {s x y : List Char} (hx : StopsAt s x) (hy : StopsAt s y) : x = y := by
  rcases hx with hx | ⟨es, hx⟩ <;> rcases hy with hy | ⟨es', hy⟩ <;> simp_all

theorem readProgram_eq_ok_iff {s : List Char} {es : List Expr} :
    readProgram s = .ok es ↔ forms? s = .ok (es, []) := by
  rw [readProgram]
  split <;> simp_all

/-- A program is in error exactly if reading stops before the end of the text. -/
theorem readProgram_eq_error_iff {s : List Char} {err : ParseError} :
    readProgram s = .error err ↔ ∃ x, StopsAt s x ∧ x ≠ [] ∧ err = .ofRest s x := by
  constructor
  · intro h
    rw [readProgram] at h
    split at h
    · next bad hbad =>
        have hne : bad ≠ [] := by
          rintro rfl
          cases (badEscape_of_forms? hbad).2
        exact ⟨bad, .inl hbad, hne, (Except.error.inj h).symm⟩
    · cases h
    · next es rest hne hforms => exact ⟨rest, .inr ⟨es, hforms⟩, hne, (Except.error.inj h).symm⟩
  · rintro ⟨x, hx | ⟨es, hx⟩, hne, rfl⟩
    · rw [readProgram, hx]
    · rw [readProgram, hx]
      split <;> simp_all

/-! ### Where a program fails -/

/-- The program `s` fails at its final part `x`: it is in error, with the line and the column
where `x` begins in `s`, and with what is wrong at the beginning of `x`. -/
def FailsAt (s x : List Char) : Prop :=
  x ≠ [] ∧ ∃ consumed, s = consumed ++ x ∧
    readProgram s = .error ⟨Position.after consumed, Fault.ofRest x⟩

/-- A program fails where reading it stops before the end of the text. -/
theorem failsAt_iff {s x : List Char} : FailsAt s x ↔ x ≠ [] ∧ StopsAt s x := by
  refine and_congr_right fun hne => ⟨?_, ?_⟩
  · rintro ⟨consumed, rfl, herror⟩
    obtain ⟨y, hy, -, heq⟩ := readProgram_eq_error_iff.mp herror
    obtain ⟨consumed', hsplit⟩ := hy.suffix
    -- The position tells where `y` begins, and so that it is `x`.
    have hposition : Position.after consumed = Position.after consumed' := by
      rw [ParseError.ofRest, ← hsplit, Position.ofRest_append] at heq
      exact (ParseError.mk.inj heq).1
    obtain rfl := Position.eq_of_after_eq (List.prefix_append _ _) ⟨y, hsplit⟩ hposition
    obtain rfl := List.append_cancel_left hsplit
    exact hy
  · intro hstop
    obtain ⟨consumed, hsplit⟩ := hstop.suffix
    refine ⟨consumed, hsplit.symm, readProgram_eq_error_iff.mpr ⟨x, hstop, hne, ?_⟩⟩
    rw [ParseError.ofRest, ← hsplit, Position.ofRest_append]

/-! ### One expression, and then the others -/

theorem skipTrivia_skipTrivia (s : List Char) : skipTrivia (skipTrivia s) = skipTrivia s :=
  (Grammar.skipTrivia_of_trivia (Grammar.trivia_skipTrivia s)).symm

/-- Skipping trivia before reading forms changes nothing. -/
theorem forms?_skipTrivia (s : List Char) : forms? (skipTrivia s) = forms? s := by
  rw [forms?_eq, skipTrivia_skipTrivia, ← forms?_eq]

theorem forms?_of_trivia {s r : List Char} (h : Grammar.Trivia s r) : forms? s = forms? r := by
  rw [← forms?_skipTrivia s, Grammar.skipTrivia_of_trivia h, forms?_skipTrivia]

theorem readExpr_eq_ok_iff {s r : List Char} {e : Expr} : readExpr s = .ok (e, r) ↔
    ∃ after, form? (skipTrivia s) = .ok (e, after) ∧ r = skipTrivia after := by
  rcases h : form? (skipTrivia s) with (_ | bad) | ⟨e', after⟩ <;> simp [readExpr, h, eq_comm]

/-- The forms of a text are the first expression and the forms of what is left. -/
theorem forms?_of_readExpr {s r : List Char} {e : Expr} (h : readExpr s = .ok (e, r)) :
    forms? s = (forms? r).map fun p => (e :: p.1, p.2) := by
  obtain ⟨after, hform, rfl⟩ := readExpr_eq_ok_iff.mp h
  rw [forms?_eq, hform, forms?_skipTrivia]

theorem suffix_of_readExpr {s r : List Char} {e : Expr} (h : readExpr s = .ok (e, r)) :
    r <:+ s ∧ r ≠ s := by
  obtain ⟨after, hform, rfl⟩ := readExpr_eq_ok_iff.mp h
  have hsuffix := (Grammar.form_iff.mpr hform).suffix
  refine ⟨(skipTrivia_suffix after).trans (hsuffix.trans (skipTrivia_suffix s)), ?_⟩
  intro heq
  have hshorter := length_lt_of_form? hform
  have hskipped := length_skipTrivia_le after
  have hstart := length_skipTrivia_le s
  rw [heq] at hskipped
  omega

theorem stopsAt_iff_of_readExpr {s r x : List Char} {e : Expr} (h : readExpr s = .ok (e, r)) :
    StopsAt s x ↔ StopsAt r x := by
  unfold StopsAt
  rw [forms?_of_readExpr h]
  rcases forms? r with bad | ⟨es, rest⟩ <;> simp [Except.map]

/-- Where no expression begins there are no forms, and a bad escape is one for both. -/
theorem forms?_of_readExpr_error {s r : List Char} {stop : Stop} :
    readExpr s = .error (stop, r) → forms? s = match stop with
      | .absent => .ok ([], r)
      | .badEscape _ => .error r := by
  intro h
  rw [forms?_eq]
  rcases hform : form? (skipTrivia s) with (_ | bad) | ⟨e, after⟩
  · simp only [readExpr, hform, Except.error.injEq, Prod.mk.injEq] at h
    obtain ⟨rfl, rfl⟩ := h
    rfl
  · simp only [readExpr, hform, Except.error.injEq, Prod.mk.injEq] at h
    obtain ⟨rfl, rfl⟩ := h
    rfl
  · simp [readExpr, hform] at h

theorem stopsAt_of_readExpr {s r : List Char} {stop : Stop} (h : readExpr s = .error (stop, r)) :
    StopsAt s r := by
  cases stop with
  | absent => exact .inr ⟨[], forms?_of_readExpr_error h⟩
  | badEscape bad => exact .inl (forms?_of_readExpr_error h)

/-! ### Call after call -/

/-- `readExpr` is called with `s` and then each time with what the call before left, until a
call fails: the expressions that are read, why the last call failed, and at what place. -/
inductive Calls : List Char → List Expr → Stop → List Char → Prop
  | fails {s r : List Char} {stop : Stop} : readExpr s = .error (stop, r) → Calls s [] stop r
  | reads {s s' r : List Char} {e : Expr} {es : List Expr} {stop : Stop} :
      readExpr s = .ok (e, s') → Calls s' es stop r → Calls s (e :: es) stop r

theorem exists_calls (s : List Char) : ∃ es stop r, Calls s es stop r := by
  -- Each call leaves less of the text than the one before.
  induction hn : s.length using Nat.strongRecOn generalizing s with
  | _ n ih =>
    subst hn
    rcases h : readExpr s with ⟨stop, r⟩ | ⟨e, s'⟩
    · exact ⟨[], stop, r, .fails h⟩
    · obtain ⟨hsuffix, hne⟩ := suffix_of_readExpr h
      have hshorter : s'.length < s.length :=
        Nat.lt_of_le_of_ne hsuffix.length_le fun heq => hne (hsuffix.eq_of_length heq)
      obtain ⟨es, stop, r, hcalls⟩ := ih _ hshorter s' rfl
      exact ⟨e :: es, stop, r, .reads h hcalls⟩

/-- The calls come to where reading the program stops. -/
theorem Calls.stopsAt {s r : List Char} {es : List Expr} {stop : Stop}
    (h : Calls s es stop r) : StopsAt s r := by
  induction h with
  | fails h => exact stopsAt_of_readExpr h
  | reads h _ ih => exact (stopsAt_iff_of_readExpr h).mpr ih

/-- If the calls come to the end of the text, they have read the forms of the program. -/
theorem Calls.forms? {s r : List Char} {es : List Expr} {stop : Stop} (h : Calls s es stop r)
    (hr : r = []) : Reader.forms? s = .ok (es, []) := by
  induction h with
  | @fails s r stop h =>
      subst hr
      cases stop with
      | absent => exact forms?_of_readExpr_error h
      | badEscape bad => cases (badEscape_of_forms? (forms?_of_readExpr_error h)).2
  | reads h _ ih =>
      rw [forms?_of_readExpr h, ih hr]
      rfl

theorem Calls.readProgram_eq_ok_iff {s r : List Char} {es fs : List Expr} {stop : Stop}
    (h : Calls s es stop r) : readProgram s = .ok fs ↔ fs = es ∧ r = [] := by
  rw [Reader.readProgram_eq_ok_iff]
  constructor
  · intro hforms
    obtain rfl := h.stopsAt.unique (.inr ⟨fs, hforms⟩)
    have heq := hforms.symm.trans (h.forms? rfl)
    exact ⟨(Prod.mk.inj (Except.ok.inj heq)).1, rfl⟩
  · rintro ⟨rfl, hr⟩
    exact h.forms? hr

theorem Calls.failsAt_iff {s r x : List Char} {es : List Expr} {stop : Stop}
    (h : Calls s es stop r) : FailsAt s x ↔ x = r ∧ r ≠ [] := by
  rw [Reader.failsAt_iff]
  constructor
  · rintro ⟨hne, hx⟩
    obtain rfl := h.stopsAt.unique hx
    exact ⟨rfl, hne⟩
  · rintro ⟨rfl, hne⟩
    exact ⟨hne, h.stopsAt⟩

/-- **A text read form by form is the program read in one go**, errors included. The first
expression leaves a proper final part of the text, and the program is that expression and the
program of what is left, or fails where that fails. Without a first expression the program is
empty or fails where the expression was missed, and at a bad escape both fail. So calls of
`readExpr` come to an end, and read the forms of the program and fail where it fails. -/
theorem program_read_form_by_form (s : List Char) :
    (∀ e r, readExpr s = .ok (e, r) →
      (r <:+ s ∧ r ≠ s) ∧
      (∀ fs, readProgram r = .ok fs → readProgram s = .ok (e :: fs)) ∧
      ∀ x, FailsAt r x → FailsAt s x) ∧
    (∀ r, readExpr s = .error (.absent, r) →
      (r = [] → readProgram s = .ok []) ∧ (r ≠ [] → FailsAt s r)) ∧
    (∀ bad r, readExpr s = .error (.badEscape bad, r) → FailsAt s r) ∧
    (∃ es stop r, Calls s es stop r) ∧
    ∀ es stop r, Calls s es stop r →
      (∀ fs, readProgram s = .ok fs ↔ fs = es ∧ r = []) ∧
      ∀ x, FailsAt s x ↔ x = r ∧ r ≠ [] := by
  refine ⟨?_, ?_, ?_, exists_calls s, ?_⟩
  · intro e r h
    refine ⟨suffix_of_readExpr h, ?_, ?_⟩
    · intro fs hfs
      rw [readProgram_eq_ok_iff] at hfs ⊢
      rw [forms?_of_readExpr h, hfs]
      rfl
    · intro x hx
      rw [failsAt_iff] at hx ⊢
      exact ⟨hx.1, (stopsAt_iff_of_readExpr h).mpr hx.2⟩
  · intro r h
    constructor
    · intro hr
      rw [readProgram_eq_ok_iff, forms?_of_readExpr_error h, hr]
    · intro hr
      exact failsAt_iff.mpr ⟨hr, stopsAt_of_readExpr h⟩
  · intro bad r h
    have hbackslash := (badEscape_of_forms? (forms?_of_readExpr_error h)).2
    refine failsAt_iff.mpr ⟨?_, stopsAt_of_readExpr h⟩
    rintro rfl
    cases hbackslash
  · intro es stop r h
    exact ⟨fun fs => h.readProgram_eq_ok_iff, fun x => h.failsAt_iff⟩

/-- An atom and a comment before a list with a bad escape: the list fails at the escape, and so
does the whole text, where the escape is in the second line. -/
theorem program_read_form_by_form_badEscape :
    readExpr "a ;c\n(b \"\\q\")".toList = .ok (.symbol "a", "(b \"\\q\")".toList) ∧
      FailsAt "(b \"\\q\")".toList "\\q\")".toList ∧
      FailsAt "a ;c\n(b \"\\q\")".toList "\\q\")".toList ∧
      readProgram "a ;c\n(b \"\\q\")".toList = .error ⟨⟨2, 5⟩, .invalidEscape "\\q"⟩ := by
  have hread : readExpr "a ;c\n(b \"\\q\")".toList =
      .ok (.symbol "a", "(b \"\\q\")".toList) := by cbv
  have hrest : FailsAt "(b \"\\q\")".toList "\\q\")".toList :=
    (program_read_form_by_form "(b \"\\q\")".toList).2.2.1 "\\q\")".toList _ (by cbv)
  obtain ⟨-, -, hfails⟩ := (program_read_form_by_form _).1 _ _ hread
  exact ⟨hread, hrest, hfails _ hrest, by cbv⟩

end Reader

end ModularLisp
