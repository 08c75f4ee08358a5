import Mathlib
import ModularLisp.Reader.Program

/-!
# ModularLisp.Proofs.Grammar

**The grammar of programs**, as derivations over what is left of a text: `Form s e r` says
that `s` begins with a text of the form `e` and that `r` follows it. What follows has to be
there, because two rules look at it: an atom is not followed by a character that could have
been part of it, and a comment ends where a line or the text does.

A text is read as the forms it derives and as nothing else (`parse_eq_ok_iff`). Whatever is
read is derived (`form_of_form?`), and whatever is derived is read, because no rule leaves
the reader a choice (`form?_of_form`).
-/

namespace ModularLisp.Grammar

open Text (isBlank)
open Reader (isAtomChar classify)

/-! ### The rules -/

/-- May a comment end before `r`? It ends with the line, which a line feed ends, or a
carriage return and a line feed; or it ends with the text. -/
inductive LineEnd : List Char → Prop
  | text : LineEnd []
  | lineFeed (r : List Char) : LineEnd ('\n' :: r)
  | returnLineFeed (r : List Char) : LineEnd ('\r' :: '\n' :: r)

/-- Blanks and comments, in any number. -/
inductive Trivia : List Char → List Char → Prop
  | none (r : List Char) : Trivia r r
  | blank {c : Char} {s r : List Char} : isBlank c = true → Trivia s r → Trivia (c :: s) r
  | comment {body s r : List Char} : (∀ c ∈ body, c ≠ '\n' ∧ c ≠ '\r') → LineEnd s →
      Trivia s r → Trivia (';' :: (body ++ s)) r

/-- The escapes of a string: the letter after the backslash, and what it stands for. -/
inductive Escape : Char → Char → Prop
  | quote : Escape '"' '"'
  | backslash : Escape '\\' '\\'
  | lineFeed : Escape 'n' '\n'
  | tab : Escape 't' '\t'
  | carriageReturn : Escape 'r' '\r'

/-- The rest of a string after its opening quote: its content, and what follows the closing
quote. -/
inductive Content : List Char → List Char → List Char → Prop
  | close (r : List Char) : Content ('"' :: r) [] r
  | plain {c : Char} {s content r : List Char} : c ≠ '"' → c ≠ '\\' → Content s content r →
      Content (c :: s) (c :: content) r
  | escaped {letter c : Char} {s content r : List Char} : Escape letter c →
      Content s content r → Content ('\\' :: letter :: s) (c :: content) r

/-- Is the whole of `t` a run of characters of an atom? -/
def IsAtom (t : List Char) : Prop :=
  t ≠ [] ∧ ∀ c ∈ t, isAtomChar c = true

/-- Can an atom end before `r`? Only if `r` does not go on with a character of an atom. -/
def AtomEnd (r : List Char) : Prop :=
  ∀ c ∈ r.head?, isAtomChar c = false

mutual

/-- A list, a string or an atom. -/
inductive Form : List Char → Expr → List Char → Prop
  | list {s r₁ r : List Char} {items : List Expr} : Forms s items r₁ → Trivia r₁ (')' :: r) →
      Form ('(' :: s) (.list items) r
  | string {s content r : List Char} : Content s content r →
      Form ('"' :: s) (.string (String.ofList content)) r
  | atom {t r : List Char} : IsAtom t → AtomEnd r → Form (t ++ r) (classify t) r

/-- Forms, each after trivia. -/
inductive Forms : List Char → List Expr → List Char → Prop
  | nil (r : List Char) : Forms r [] r
  | cons {s s₁ s₂ r : List Char} {e : Expr} {es : List Expr} : Trivia s s₁ → Form s₁ e s₂ →
      Forms s₂ es r → Forms s (e :: es) r

end

/-- A program: forms, and trivia after the last one. -/
def Program (s : List Char) (forms : List Expr) : Prop :=
  ∃ r, Forms s forms r ∧ Trivia r []

/-! ### Trivia -/

theorem Trivia.trans {s t r : List Char} (hst : Trivia s t) (htr : Trivia t r) : Trivia s r := by
  induction hst with
  | none => exact htr
  | blank hc _ ih => exact .blank hc (ih htr)
  | comment hbody hend _ ih => exact .comment hbody hend (ih htr)

theorem commentCloses_append {body s : List Char} (hbody : ∀ c ∈ body, c ≠ '\n' ∧ c ≠ '\r')
    (hend : LineEnd s) : Reader.commentCloses (body ++ s) = true := by
  induction body with
  | nil => cases hend <;> simp [Reader.commentCloses]
  | cons c body ih =>
      obtain ⟨hn, hr⟩ := hbody c List.mem_cons_self
      rw [List.cons_append, Reader.commentCloses, if_neg hn, if_neg hr]
      exact ih fun d hd => hbody d (List.mem_cons_of_mem _ hd)

theorem exists_of_commentCloses {t : List Char} (h : Reader.commentCloses t = true) :
    ∃ body s, t = body ++ s ∧ (∀ c ∈ body, c ≠ '\n' ∧ c ≠ '\r') ∧ LineEnd s := by
  induction t with
  | nil => exact ⟨[], [], rfl, by simp, .text⟩
  | cons c t ih =>
      rw [Reader.commentCloses] at h
      split at h
      · next hn => exact ⟨[], c :: t, rfl, by simp, hn ▸ .lineFeed t⟩
      split at h
      · next hr =>
          obtain ⟨t', rfl⟩ : ∃ t', t = '\n' :: t' := by
            cases t with
            | nil => simp at h
            | cons d t' => exact ⟨t', by simpa using h⟩
          exact ⟨[], c :: '\n' :: t', rfl, by simp, hr ▸ .returnLineFeed t'⟩
      · next hn hr =>
          obtain ⟨body, s, rfl, hbody, hend⟩ := ih h
          refine ⟨c :: body, s, rfl, ?_, hend⟩
          intro d hd
          rcases List.mem_cons.mp hd with rfl | hd
          · exact ⟨hn, hr⟩
          · exact hbody d hd

theorem skipTrivia_blank {c : Char} (hc : isBlank c = true) (r : List Char) :
    Reader.skipTrivia (c :: r) = Reader.skipTrivia r := by
  rw [Reader.skipTrivia, if_pos hc]

/-- A comment is skipped up to the end of its line, and the line end is a blank. -/
theorem skipComment_append {body s : List Char} (hbody : ∀ c ∈ body, c ≠ '\n' ∧ c ≠ '\r')
    (hend : LineEnd s) : Reader.skipComment (body ++ s) = Reader.skipTrivia s := by
  induction body with
  | nil =>
      cases hend with
      | text => simp [Reader.skipComment, Reader.skipTrivia]
      | lineFeed r =>
          rw [skipTrivia_blank (by decide)]
          simp [Reader.skipComment]
      | returnLineFeed r =>
          rw [skipTrivia_blank (by decide)]
          simp [Reader.skipComment]
  | cons c body ih =>
      obtain ⟨hn, hr⟩ := hbody c List.mem_cons_self
      rw [List.cons_append, Reader.skipComment, if_neg (by simp [hn, hr])]
      exact ih fun d hd => hbody d (List.mem_cons_of_mem _ hd)

theorem skipTrivia_comment {body s : List Char} (hbody : ∀ c ∈ body, c ≠ '\n' ∧ c ≠ '\r')
    (hend : LineEnd s) : Reader.skipTrivia (';' :: (body ++ s)) = Reader.skipTrivia s := by
  rw [Reader.skipTrivia, if_neg (by decide), if_pos ⟨rfl, commentCloses_append hbody hend⟩]
  exact skipComment_append hbody hend

/-- Trivia are skipped. -/
theorem skipTrivia_of_trivia {s r : List Char} (h : Trivia s r) :
    Reader.skipTrivia s = Reader.skipTrivia r := by
  induction h with
  | none => rfl
  | blank hc _ ih => rw [skipTrivia_blank hc, ih]
  | comment hbody hend _ ih => rw [skipTrivia_comment hbody hend, ih]

/-- What is skipped is trivia. -/
theorem trivia_skipTrivia (s : List Char) : Trivia s (Reader.skipTrivia s) := by
  induction hn : s.length using Nat.strongRecOn generalizing s with
  | _ n ih =>
    subst hn
    cases s with
    | nil => exact .none []
    | cons c r =>
        by_cases hc : isBlank c = true
        · rw [skipTrivia_blank hc]
          exact .blank hc (ih r.length (by simp) r rfl)
        by_cases hcomment : c = ';' ∧ Reader.commentCloses r = true
        · obtain ⟨rfl, hcloses⟩ := hcomment
          obtain ⟨body, s, rfl, hbody, hend⟩ := exists_of_commentCloses hcloses
          have hlt : s.length < (';' :: (body ++ s)).length := by
            simp only [List.length_cons, List.length_append]
            omega
          rw [skipTrivia_comment hbody hend]
          exact .comment hbody hend (ih s.length hlt s rfl)
        · rw [Reader.skipTrivia, if_neg hc, if_neg hcomment]
          exact .none _

/-! ### Strings and atoms -/

theorem unescape?_eq_some_iff_escape {letter c : Char} :
    Text.unescape? letter = some c ↔ Escape letter c := by
  constructor
  · intro h
    unfold Text.unescape? at h
    split at h <;> cases h <;> constructor
  · intro h
    cases h <;> rfl

theorem readString_eq_ok_iff {s content r : List Char} :
    Reader.readString s = .ok (content, r) ↔ Content s content r := by
  constructor
  · intro h
    fun_induction Reader.readString s generalizing content with
    | case1 => cases h
    | case2 => cases h
    | case3 r' =>
        obtain ⟨rfl, rfl⟩ := Prod.mk.inj (Except.ok.inj h)
        exact .close r'
    | case4 letter s c hc ih =>
        obtain ⟨content', h'⟩ := Reader.exists_of_map_addChar h
        rw [h'] at h
        obtain ⟨rfl, -⟩ := Prod.mk.inj (Except.ok.inj h)
        exact .escaped (unescape?_eq_some_iff_escape.mp hc) (ih h')
    | case5 => cases h
    | case6 c s hlast hquote hescape ih =>
        obtain ⟨content', h'⟩ := Reader.exists_of_map_addChar h
        rw [h'] at h
        obtain ⟨rfl, -⟩ := Prod.mk.inj (Except.ok.inj h)
        refine .plain hquote ?_ (ih h')
        rintro rfl
        cases s with
        | nil => exact hlast rfl rfl
        | cons d s => exact hescape d s rfl rfl
  · intro h
    induction h with
    | close r => rfl
    | @plain c s content r hquote hescape _ ih =>
        rw [Reader.readString.eq_5 _ _ (fun h _ => hescape h) hquote (fun _ _ h _ => hescape h), ih]
        rfl
    | @escaped letter c s content r hc _ ih =>
        rw [Reader.readString, unescape?_eq_some_iff_escape.mpr hc]
        simp only [ih]
        rfl

theorem isAtom_of_all {t : List Char} (hne : t ≠ []) (hall : t.all isAtomChar = true) :
    IsAtom t :=
  ⟨hne, List.all_eq_true.mp hall⟩

theorem IsAtom.exists_cons {t : List Char} (h : IsAtom t) :
    ∃ c u, t = c :: u ∧ isAtomChar c = true ∧ ∀ d ∈ u, isAtomChar d = true := by
  obtain ⟨hne, hall⟩ := h
  obtain ⟨c, u, rfl⟩ := List.exists_cons_of_ne_nil hne
  exact ⟨c, u, rfl, List.forall_mem_cons.mp hall⟩

/-- The run of atom characters that begins with `c`. -/
theorem isAtom_run {c : Char} (hc : isAtomChar c = true) (r : List Char) :
    IsAtom (c :: r.takeWhile isAtomChar) :=
  ⟨List.cons_ne_nil _ _,
    List.forall_mem_cons.mpr ⟨hc, List.all_eq_true.mp List.all_takeWhile⟩⟩

theorem run_append (c : Char) (r : List Char) :
    (c :: r.takeWhile isAtomChar) ++ r.dropWhile isAtomChar = c :: r := by
  rw [List.cons_append, List.takeWhile_append_dropWhile]

theorem atomEnd_nil : AtomEnd [] :=
  fun _ hc => by cases hc

theorem atomEnd_cons {c : Char} (hc : isAtomChar c = false) (r : List Char) :
    AtomEnd (c :: r) :=
  fun _ hd => Option.mem_some.mp hd ▸ hc

/-- The whole text of an atom is a form. -/
theorem form_of_isAtom {t : List Char} (h : IsAtom t) : Form t (classify t) [] := by
  have := Form.atom h atomEnd_nil
  rwa [List.append_nil] at this

theorem atomEnd_dropWhile (s : List Char) : AtomEnd (s.dropWhile isAtomChar) := by
  intro c hc
  have h := List.head?_dropWhile_not isAtomChar s
  rw [Option.mem_def.mp hc] at h
  exact h

/-! ### What is read is derived -/

theorem closeList_eq_ok_iff {x : Except (List Char) (List Expr × List Char)} {e : Expr}
    {r : List Char} : Reader.closeList x = .ok (e, r) ↔
      ∃ items, x = .ok (items, ')' :: r) ∧ e = .list items := by
  unfold Reader.closeList
  split
  · simp
  · simp only [Except.ok.injEq, Prod.mk.injEq, List.cons.injEq, true_and]
    exact ⟨fun h => ⟨_, ⟨rfl, h.2⟩, h.1.symm⟩, fun ⟨_, h, he⟩ => ⟨by rw [he, h.1], h.2⟩⟩
  · next hother =>
      simp only [reduceCtorEq, false_iff, not_exists, not_and]
      exact fun items h => absurd (Except.ok.inj h) (hother items r)

theorem form_of_form? {s r : List Char} {e : Expr}
    (ih : ∀ t : List Char, t.length < s.length → ∀ es r', Reader.forms? t = .ok (es, r') →
      ∃ r₀, Forms t es r₀ ∧ Trivia r₀ r')
    (h : Reader.form? s = .ok (e, r)) : Form s e r := by
  cases s with
  | nil =>
      rw [Reader.form?_nil] at h
      cases h
  | cons c t =>
      by_cases hopen : c = '('
      · subst hopen
        rw [Reader.form?_open] at h
        obtain ⟨items, hforms, rfl⟩ := closeList_eq_ok_iff.mp h
        obtain ⟨r₀, hitems, htrivia⟩ := ih t (by simp) _ _ hforms
        exact .list hitems htrivia
      by_cases hquote : c = '"'
      · subst hquote
        rw [Reader.form?_quote] at h
        cases hstring : Reader.readString t with
        | error stop =>
            rw [hstring] at h
            cases h
        | ok p =>
            rw [hstring] at h
            obtain ⟨rfl, rfl⟩ := Prod.mk.inj (Except.ok.inj h)
            exact .string (readString_eq_ok_iff.mp hstring)
      by_cases hatom : isAtomChar c = true
      · rw [Reader.form?_atom hatom] at h
        obtain ⟨rfl, rfl⟩ := Prod.mk.inj (Except.ok.inj h)
        have hform := Form.atom (isAtom_run hatom t) (atomEnd_dropWhile t)
        rwa [run_append] at hform
      · rw [Reader.form?_other (by simpa using hatom) hopen hquote] at h
        cases h

/-- What is read as a sequence of forms is one, with the trivia after it. -/
theorem forms_of_forms? {s r : List Char} {es : List Expr} (h : Reader.forms? s = .ok (es, r)) :
    ∃ r₀, Forms s es r₀ ∧ Trivia r₀ r := by
  -- A form is shorter than the text it is read from, and what is inside it is shorter still.
  induction hn : s.length using Nat.strongRecOn generalizing s r es with
  | _ n ih =>
    subst hn
    have hle := Reader.length_skipTrivia_le s
    rw [Reader.forms?_eq] at h
    split at h
    · obtain ⟨rfl, rfl⟩ := Prod.mk.inj (Except.ok.inj h)
      exact ⟨s, .nil s, trivia_skipTrivia s⟩
    · cases h
    · next e after hfirst =>
        have hlt := Reader.length_lt_of_form? hfirst
        cases hafter : Reader.forms? after with
        | error bad =>
            rw [hafter] at h
            cases h
        | ok p =>
            rw [hafter] at h
            obtain ⟨rfl, rfl⟩ := Prod.mk.inj (Except.ok.inj h)
            have hform : Form (Reader.skipTrivia s) e after :=
              form_of_form? (fun t ht es r' h' => ih _ (by omega) h' rfl) hfirst
            obtain ⟨r₀, hforms, htrivia⟩ := ih _ (by omega) hafter rfl
            exact ⟨r₀, .cons (trivia_skipTrivia s) hform hforms, htrivia⟩

/-! ### What is derived is read -/

/-- The first character of a form is no trivia. -/
theorem skipTrivia_of_form {s r : List Char} {e : Expr} (h : Form s e r) :
    Reader.skipTrivia s = s := by
  cases h with
  | list => simp [Reader.skipTrivia, show isBlank '(' = false by decide]
  | string => simp [Reader.skipTrivia, show isBlank '"' = false by decide]
  | atom ht _ =>
      obtain ⟨c, t, rfl, hc, -⟩ := ht.exists_cons
      simp only [isAtomChar, Bool.and_eq_true, Bool.not_eq_true', bne_iff_ne] at hc
      simp [Reader.skipTrivia, hc]

theorem form?_close (r : List Char) : Reader.form? (')' :: r) = .error .absent :=
  Reader.form?_other (by decide) (by decide) (by decide) r

/-- Where a list or the text ends there are no further forms. -/
theorem forms?_of_end {s r : List Char} (h : Trivia s r) (hr : Reader.skipTrivia r = r)
    (habsent : Reader.form? r = .error .absent) : Reader.forms? s = .ok ([], r) := by
  rw [Reader.forms?_eq, skipTrivia_of_trivia h, hr, habsent]

theorem skipTrivia_close (r : List Char) : Reader.skipTrivia (')' :: r) = ')' :: r := by
  simp [Reader.skipTrivia, show isBlank ')' = false by decide]

/-- A semicolon that begins no comment is where no form begins. -/
theorem forms?_semicolon {r : List Char} (h : Reader.commentCloses r = false) :
    Reader.forms? (';' :: r) = .ok ([], ';' :: r) := by
  have hskip : Reader.skipTrivia (';' :: r) = ';' :: r := by
    rw [Reader.skipTrivia, if_neg (by decide), if_neg (by simp [h])]
  exact forms?_of_end (.none _) hskip
    (Reader.form?_other (by decide) (by decide) (by decide) r)

mutual

/-- What is derived as a form is read as it. -/
theorem form?_of_form {s r : List Char} {e : Expr} (h : Form s e r) :
    Reader.form? s = .ok (e, r) := by
  cases h with
  | @list s r₁ _ items hitems htrivia =>
      rw [Reader.form?_open, forms?_of_forms hitems,
        forms?_of_end htrivia (skipTrivia_close r) (form?_close r)]
      simp only [Except.map, List.append_nil, Reader.closeList]
  | string hcontent =>
      rw [Reader.form?_quote, readString_eq_ok_iff.mpr hcontent]
      rfl
  | atom ht hr =>
      obtain ⟨c, t, rfl, hc, ht⟩ := ht.exists_cons
      rw [List.cons_append, Reader.form?_atom hc, Text.takeWhile_run ht hr,
        Text.dropWhile_run ht hr]

/-- What is derived as a sequence of forms is read as it, and what follows is read next. -/
theorem forms?_of_forms {s r : List Char} {es : List Expr} (h : Forms s es r) :
    Reader.forms? s = (Reader.forms? r).map fun p => (es ++ p.1, p.2) := by
  cases h with
  | nil =>
      cases Reader.forms? s <;> rfl
  | @cons _ s₁ s₂ _ e es htrivia hform hforms =>
      rw [Reader.forms?_eq, skipTrivia_of_trivia htrivia, skipTrivia_of_form hform,
        form?_of_form hform]
      simp only [forms?_of_forms hforms]
      cases Reader.forms? r <;> rfl

end

theorem program_iff {s : List Char} {forms : List Expr} :
    Program s forms ↔ Reader.forms? s = .ok (forms, []) := by
  constructor
  · intro h
    obtain ⟨r, hforms, htrivia⟩ := h
    rw [forms?_of_forms hforms, forms?_of_end htrivia (by simp [Reader.skipTrivia]) Reader.form?_nil]
    simp only [Except.map, List.append_nil]
  · exact forms_of_forms?

theorem parse_eq_ok_iff {source : String} {forms : List Expr} :
    parse source = .ok forms ↔ Program source.toList forms := by
  rw [program_iff, parse, Reader.readProgram]
  split <;> simp_all

theorem form_iff {s r : List Char} {e : Expr} : Form s e r ↔ Reader.form? s = .ok (e, r) :=
  ⟨form?_of_form, form_of_form? fun _ _ _ _ => forms_of_forms?⟩

/-- A list holds the forms that are read after its opening parenthesis. -/
theorem list_iff {s r : List Char} {items : List Expr} :
    Form ('(' :: s) (.list items) r ↔ Reader.forms? s = .ok (items, ')' :: r) := by
  rw [form_iff, Reader.form?_open, closeList_eq_ok_iff]
  simp

end ModularLisp.Grammar
