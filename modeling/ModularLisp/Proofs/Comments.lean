import ModularLisp.Proofs.LineByLine

/-!
# ModularLisp.Proofs.Comments

**Comments between forms.** A comment that is written after a form and up to the end of the line
leaves the forms of a text as they are, in the program and in each of its lists
(`comment_between_forms`). Any character can stand in the comment except one: a carriage return
without a line feed after it. With that the semicolon begins no comment, and reading stops.

What comes before the semicolon matters in one way only. It can leave a comment open, one that is
ended by the end of the text and by nothing else (`LeavesOpen`), and then the semicolon and what
follows it belong to that comment. What stands in a list leaves none open, or the parenthesis that
closes the list would be in it. That is not part of what it is to stand in a list (`Elements`), it
follows: what is read before a closing parenthesis is read without it (`Forms.of_close`).
-/

namespace ModularLisp

namespace Grammar

open Text (Position)
open Reader (Fault forms?)

/-! ### The text of a comment -/

/-- Is there a carriage return in the text of a comment that no line feed comes after? Its last
character has one after it, the line feed that ends the line. -/
def HasLoneReturn (c : List Char) : Prop :=
  '\r' ∈ c.dropLast

instance (c : List Char) : Decidable (HasLoneReturn c) :=
  inferInstanceAs (Decidable ('\r' ∈ c.dropLast))

variable {c : List Char}

/-- What is before a semicolon on the same line tells nothing about carriage returns. -/
theorem hasLoneReturn_append {body : List Char} (hbody : ∀ d ∈ body, d ≠ '\n' ∧ d ≠ '\r') :
    HasLoneReturn (body ++ ';' :: c) ↔ HasLoneReturn c := by
  have hreturn : '\r' ∉ body := fun hmem => (hbody _ hmem).2 rfl
  rw [HasLoneReturn, HasLoneReturn, List.dropLast_append_of_ne_nil (List.cons_ne_nil _ _)]
  cases c with
  | nil => simp [hreturn]
  | cons d c => simp [hreturn]

theorem commentCloses_lineFeed_iff (hc : '\n' ∉ c) (t : List Char) :
    Reader.commentCloses (c ++ '\n' :: t) = true ↔ ¬ HasLoneReturn c := by
  induction c with
  | nil => simp [Reader.commentCloses, HasLoneReturn]
  | cons d c ih =>
      obtain ⟨hd, hc⟩ := List.ne_and_not_mem_of_not_mem_cons hc
      rw [List.cons_append, Reader.commentCloses, if_neg (Ne.symm hd)]
      cases c with
      | nil => simp [HasLoneReturn, Reader.commentCloses]
      | cons e c =>
          have he : e ≠ '\n' := Ne.symm (List.ne_and_not_mem_of_not_mem_cons hc).1
          by_cases hreturn : d = '\r'
          · simp [HasLoneReturn, hreturn, he]
          · rw [if_neg hreturn, ih hc, HasLoneReturn, HasLoneReturn, List.dropLast_cons_cons,
              List.mem_cons, or_iff_right (Ne.symm hreturn)]

/-- Without a lone carriage return all up to the end of the line is a comment. -/
theorem trivia_comment (hc : '\n' ∉ c) (hreturns : ¬ HasLoneReturn c) (t : List Char) :
    Trivia (';' :: (c ++ '\n' :: t)) t := by
  have hblank : Trivia ('\n' :: t) t := .blank (by decide) (.none t)
  by_cases hreturn : '\r' ∈ c
  -- The one carriage return is the last character, and ends the line with the line feed.
  · have hne : c ≠ [] := List.ne_nil_of_mem hreturn
    have hsplit := List.dropLast_append_getLast hne
    have hlast : c.getLast hne = '\r' := by
      rw [← hsplit, List.mem_append, List.mem_singleton] at hreturn
      exact (hreturn.resolve_left hreturns).symm
    rw [hlast] at hsplit
    have hbody : ∀ d ∈ c.dropLast, d ≠ '\n' ∧ d ≠ '\r' := by
      intro d hd
      exact ⟨fun h => hc (h ▸ List.dropLast_subset c hd), fun h => hreturns (by rwa [h] at hd)⟩
    rw [← hsplit, List.append_assoc]
    exact .comment hbody (.returnLineFeed t) (.blank (by decide) hblank)
  · have hbody : ∀ d ∈ c, d ≠ '\n' ∧ d ≠ '\r' := by
      intro d hd
      exact ⟨fun h => hc (h ▸ hd), fun h => hreturn (h ▸ hd)⟩
    exact .comment hbody (.lineFeed t) hblank

theorem forms?_comment (hc : '\n' ∉ c) (hreturns : ¬ HasLoneReturn c) (t : List Char) :
    forms? (';' :: (c ++ '\n' :: t)) = forms? t :=
  Reader.forms?_of_trivia (trivia_comment hc hreturns t)

/-- With a lone carriage return there is no form, and nothing to be skipped either. -/
theorem forms?_loneReturn (hc : '\n' ∉ c) (hreturns : HasLoneReturn c) (t : List Char) :
    forms? (';' :: (c ++ '\n' :: t)) = .ok ([], ';' :: (c ++ '\n' :: t)) := by
  refine forms?_semicolon ?_
  rwa [← Bool.not_eq_true, commentCloses_lineFeed_iff hc, not_not]

/-! ### Texts that leave a comment open -/

/-- The text `s` leaves a comment open, whose semicolon comes after `before`: forms and trivia lead
up to it, and no line ends after it. -/
def LeavesOpen (before s : List Char) : Prop :=
  ∃ body es r, s = before ++ ';' :: body ∧ (∀ c ∈ body, c ≠ '\n' ∧ c ≠ '\r') ∧ Forms s es r ∧
    Trivia r (';' :: body)

variable {s t r before : List Char} {es items : List Expr}

/-- After a program that leaves no comment open a text is read as if it stood alone. -/
theorem Program.forms?_append (h : Program s es) (hclosed : ∀ before, ¬ LeavesOpen before s)
    (ht : AtomEnd t) : forms? (s ++ t) = (forms? t).map fun p => (es ++ p.1, p.2) := by
  obtain ⟨r, hforms, htrivia⟩ := h
  rcases htrivia.closed_or_open with htrivia | ⟨body, hbody, hopen⟩
  · rw [forms?_of_forms (hforms.append_of_atomEnd ht), Reader.forms?_of_trivia (htrivia t)]
  · obtain ⟨before, hsplit⟩ := hopen.suffix.trans hforms.suffix
    exact absurd ⟨body, es, r, hsplit.symm, hbody, hforms, hopen⟩ (hclosed before)

/-- After a program that leaves a comment open a text is read from the semicolon of the comment
on. -/
theorem LeavesOpen.forms?_append (h : LeavesOpen before s) : ∃ body es, Program s es ∧
    s = before ++ ';' :: body ∧ (∀ c ∈ body, c ≠ '\n' ∧ c ≠ '\r') ∧ ∀ t, AtomEnd t →
      forms? (s ++ t) = (forms? (';' :: (body ++ t))).map fun p => (es ++ p.1, p.2) := by
  obtain ⟨body, es, r, hsplit, hbody, hforms, hopen⟩ := h
  have hcomment : Trivia (';' :: body) [] := by
    have := Trivia.comment hbody .text (.none [])
    rwa [List.append_nil] at this
  refine ⟨body, es, ⟨r, hforms, hopen.trans hcomment⟩, hsplit, hbody, fun t ht => ?_⟩
  rw [forms?_of_forms (hforms.append_of_atomEnd ht),
    Reader.forms?_of_trivia (hopen.append (List.cons_ne_nil _ _) t), List.cons_append]

/-- A program derives no other forms. -/
theorem Program.unique {es' : List Expr} (h : Program s es) (h' : Program s es') : es = es' := by
  rw [program_iff] at h h'
  exact (Prod.mk.inj (Except.ok.inj (h.symm.trans h'))).1

theorem not_mem_of_open {body : List Char} (hbody : ∀ d ∈ body, d ≠ '\n' ∧ d ≠ '\r')
    (hc : '\n' ∉ c) : '\n' ∉ body ++ ';' :: c := by
  have hfeed : '\n' ∉ body := fun hmem => (hbody _ hmem).1 rfl
  simp [hfeed, hc]

theorem atomEnd_semicolon (t : List Char) : AtomEnd (';' :: t) :=
  atomEnd_cons (by decide) t

/-- After a program and a comment up to the end of the line, a text is read as if it stood
alone. -/
theorem Program.forms?_comment (h : Program s es) (hc : '\n' ∉ c) (hreturns : ¬ HasLoneReturn c)
    (t : List Char) : forms? (s ++ ';' :: (c ++ '\n' :: t)) =
      (forms? t).map fun p => (es ++ p.1, p.2) := by
  by_cases hopen : ∃ before, LeavesOpen before s
  · obtain ⟨before, hopen⟩ := hopen
    obtain ⟨body, es', h', -, hbody, happend⟩ := hopen.forms?_append
    obtain rfl := h.unique h'
    -- The semicolon is in the open comment, and so is all up to the end of the line.
    have hline := not_mem_of_open hbody hc
    have hcomment := Grammar.forms?_comment hline ((hasLoneReturn_append hbody).not.mpr hreturns) t
    rw [List.append_assoc] at hcomment
    rw [happend _ (atomEnd_semicolon _)]
    exact congrArg _ hcomment
  · rw [h.forms?_append (not_exists.mp hopen) (atomEnd_semicolon _),
      Grammar.forms?_comment hc hreturns]

/-- After a program that leaves no comment open, reading stops at a semicolon that begins no
comment. -/
theorem Program.forms?_loneReturn (h : Program s es) (hclosed : ∀ before, ¬ LeavesOpen before s)
    (hc : '\n' ∉ c) (hreturns : HasLoneReturn c) (t : List Char) :
    forms? (s ++ ';' :: (c ++ '\n' :: t)) = .ok (es, ';' :: (c ++ '\n' :: t)) := by
  rw [h.forms?_append hclosed (atomEnd_semicolon _), Grammar.forms?_loneReturn hc hreturns]
  simp [Except.map]

/-- The comment that a program leaves open is none either with the carriage return that comes
after. -/
theorem LeavesOpen.forms?_loneReturn (h : LeavesOpen before s) (hc : '\n' ∉ c)
    (hreturns : HasLoneReturn c) (t : List Char) : ∃ es rest,
      s ++ ';' :: (c ++ '\n' :: t) = before ++ ';' :: rest ∧
      forms? (s ++ ';' :: (c ++ '\n' :: t)) = .ok (es, ';' :: rest) := by
  obtain ⟨body, es, -, hsplit, hbody, happend⟩ := h.forms?_append
  have hline := not_mem_of_open hbody hc
  have hstop := Grammar.forms?_loneReturn hline ((hasLoneReturn_append hbody).mpr hreturns) t
  rw [List.append_assoc, List.cons_append] at hstop
  refine ⟨es, body ++ ';' :: (c ++ '\n' :: t), by simp [hsplit], ?_⟩
  rw [happend _ (atomEnd_semicolon _), hstop]
  simp [Except.map]

/-! ### What stands before a closing parenthesis

The parenthesis belongs to none of it and ends no comment, so it is the same with anything else, or
with nothing, in its place. -/

theorem exists_of_suffix_close {x y : List Char} (h : y <:+ x) (hy : y = r ++ [')']) :
    ∃ s, x = s ++ [')'] := by
  obtain ⟨before, rfl⟩ := h
  exact ⟨before ++ r, by rw [hy, List.append_assoc]⟩

theorem exists_of_cons_close {d : Char} {x : List Char} (h : d :: x = s ++ [')']) (hd : d ≠ ')') :
    ∃ u, s = d :: u ∧ x = u ++ [')'] := by
  cases s with
  | nil => exact absurd (List.cons.inj h).1 hd
  | cons e u =>
      obtain ⟨rfl, hx⟩ := List.cons.inj h
      exact ⟨u, rfl, hx⟩

theorem LineEnd.of_close (h : LineEnd (s ++ [')'])) (t : List Char) : LineEnd (s ++ t) := by
  generalize hx : s ++ [')'] = x at h
  cases h with
  | text => simp at hx
  | lineFeed =>
      obtain ⟨u, rfl, -⟩ := exists_of_cons_close hx.symm (by decide)
      exact .lineFeed _
  | returnLineFeed =>
      obtain ⟨u, rfl, hu⟩ := exists_of_cons_close hx.symm (by decide)
      obtain ⟨v, rfl, -⟩ := exists_of_cons_close hu (by decide)
      exact .returnLineFeed _

theorem Trivia.of_close {x y : List Char} (h : Trivia x y) (hx : x = s ++ [')'])
    (hy : y = r ++ [')']) (t : List Char) : Trivia (s ++ t) (r ++ t) := by
  induction h generalizing s with
  | none =>
      obtain rfl := List.append_cancel_right (hx.symm.trans hy)
      exact .none _
  -- What is passed over is not the parenthesis, because that is still there afterwards.
  | blank hc _ ih =>
      obtain ⟨u, rfl, hu⟩ := exists_of_cons_close hx (by rintro rfl; exact absurd hc (by decide))
      exact .blank hc (ih hu hy)
  | @comment body x _ hbody hend htrivia ih =>
      obtain ⟨u, rfl⟩ := exists_of_suffix_close htrivia.suffix hy
      rw [← List.append_assoc, ← List.cons_append] at hx
      obtain rfl := List.append_cancel_right hx
      rw [List.cons_append, List.append_assoc]
      exact .comment hbody (hend.of_close t) (ih rfl hy)

theorem Content.of_close {x content y : List Char} (h : Content x content y) (hx : x = s ++ [')'])
    (hy : y = r ++ [')']) : Content s content r := by
  induction h generalizing s with
  | close =>
      obtain ⟨u, rfl, hu⟩ := exists_of_cons_close hx (by decide)
      obtain rfl := List.append_cancel_right (hu.symm.trans hy)
      exact .close u
  | @plain c x content y hquote hescape hcontent ih =>
      obtain ⟨u, rfl⟩ := exists_of_suffix_close hcontent.suffix hy
      rw [← List.cons_append] at hx
      obtain rfl := List.append_cancel_right hx
      exact .plain hquote hescape (ih rfl hy)
  | @escaped letter c x content y hescape hcontent ih =>
      obtain ⟨u, rfl⟩ := exists_of_suffix_close hcontent.suffix hy
      rw [← List.cons_append, ← List.cons_append] at hx
      obtain rfl := List.append_cancel_right hx
      exact .escaped hescape (ih rfl hy)

mutual

theorem Form.of_close {x y s r : List Char} {e : Expr} (h : Form x e y) (hx : x = s ++ [')'])
    (hy : y = r ++ [')']) : Form s e r := by
  cases h with
  | @list x r₁ _ items hitems htrivia =>
      obtain ⟨u, rfl, hu⟩ := exists_of_cons_close hx (by decide)
      rw [hy, ← List.cons_append] at htrivia
      obtain ⟨v, hv⟩ := exists_of_suffix_close htrivia.suffix rfl
      have hclose := htrivia.of_close hv rfl []
      rw [List.append_nil, List.append_nil] at hclose
      exact .list (hitems.of_close hu hv) hclose
  | string hcontent =>
      obtain ⟨u, rfl, hu⟩ := exists_of_cons_close hx (by decide)
      exact .string (hcontent.of_close hu hy)
  | @atom a _ ha hend =>
      rw [hy, ← List.append_assoc] at hx
      obtain rfl := List.append_cancel_right hx
      refine .atom ha ?_
      cases r with
      | nil => exact atomEnd_nil
      | cons c r => exact fun d hd => hend d (by rwa [hy])

theorem Forms.of_close {x y s r : List Char} {es : List Expr} (h : Forms x es y)
    (hx : x = s ++ [')']) (hy : y = r ++ [')']) : Forms s es r := by
  cases h with
  | nil =>
      obtain rfl := List.append_cancel_right (hx.symm.trans hy)
      exact .nil _
  | cons htrivia hform hforms =>
      obtain ⟨v, hv⟩ := exists_of_suffix_close hforms.suffix hy
      obtain ⟨u, hu⟩ := exists_of_suffix_close hform.suffix hv
      have hskipped := htrivia.of_close hx hu []
      rw [List.append_nil, List.append_nil] at hskipped
      exact .cons hskipped (hform.of_close hu hv) (hforms.of_close hv hy)

end

/-! ### Comments in a list -/

/-- `s` is what stands between the parentheses of a list of `es`. -/
def Elements (s : String) (es : List Expr) : Prop :=
  Form ('(' :: (s.toList ++ [')'])) (.list es) []

/-- What stands between the parentheses of a list of `es` is `x` and then `y`, and where they meet
is a place between two elements, of the list itself or of a list in it, at any depth. It can also
be before the first element there or after the last. -/
inductive Parted : String → String → List Expr → Prop
  | here {a b : String} {es fs : List Expr} : parse a = .ok es → Elements b fs →
      Parted a b (es ++ fs)
  | inner {l x y r : String} {es items fs : List Expr} : Elements l es → Parted x y items →
      Elements r fs → Parted (l ++ "(" ++ x) (y ++ ")" ++ r) (es ++ .list items :: fs)

/-- Elements leave no comment open, or the closing parenthesis would be in it. So what comes after
them is read as if it stood alone. -/
theorem Elements.forms?_append {l : String} (h : Elements l es) (ht : AtomEnd t) :
    forms? (l.toList ++ t) = (forms? t).map fun p => (es ++ p.1, p.2) := by
  obtain ⟨r₁, hforms, htrivia⟩ := forms_of_forms? (list_iff.mp h)
  obtain ⟨r, rfl⟩ := exists_of_suffix_close (r := []) htrivia.suffix rfl
  have hes := hforms.of_close rfl rfl
  rw [forms?_of_forms (hes.append_of_atomEnd ht),
    Reader.forms?_of_trivia (htrivia.of_close rfl (r := []) rfl t), List.nil_append]

theorem Elements.forms?_close {l : String} (h : Elements l es) (t : List Char) :
    forms? (l.toList ++ ')' :: t) = .ok (es, ')' :: t) := by
  rw [h.forms?_append (atomEnd_cons (by decide) t), Grammar.forms?_close]
  simp [Except.map]

/-- Elements, and then a list. -/
theorem Elements.forms?_list {l : String} (h : Elements l es)
    (hitems : forms? s = .ok (items, ')' :: t)) :
    forms? (l.toList ++ '(' :: s) =
      (forms? t).map fun p => (es ++ .list items :: p.1, p.2) := by
  have hlist : Forms ('(' :: s) [.list items] t :=
    .cons (.none _) (list_iff.mpr hitems) (.nil t)
  rw [h.forms?_append (atomEnd_cons (by decide) s), forms?_of_forms hlist]
  cases forms? t <;> rfl

/-- Elements, and then a parenthesis that is not closed: no list begins there. -/
theorem Elements.forms?_unclosed {l : String} (h : Elements l es)
    (hitems : forms? s = .ok (items, r)) (hr : r.head? ≠ some ')') :
    forms? (l.toList ++ '(' :: s) = .ok (es, '(' :: s) := by
  have habsent : Reader.form? ('(' :: s) = .error .absent := by
    rw [Reader.form?_open, hitems]
    cases r with
    | nil => rfl
    | cons d r => simp [Reader.closeList, show d ≠ ')' by simpa using hr]
  have hskip : Reader.skipTrivia ('(' :: s) = '(' :: s := by
    simp [Reader.skipTrivia, show Text.isBlank '(' = false by decide]
  rw [h.forms?_append (atomEnd_cons (by decide) s), forms?_of_end (.none _) hskip habsent]
  simp [Except.map]

/-- With a comment between two elements a list has the elements it has without it. -/
theorem Parted.forms?_comment {x y : String} (h : Parted x y items) (hc : '\n' ∉ c)
    (hreturns : ¬ HasLoneReturn c) (t : List Char) :
    forms? (x.toList ++ ';' :: (c ++ '\n' :: (y.toList ++ ')' :: t))) =
      .ok (items, ')' :: t) := by
  induction h generalizing t with
  | here ha hb =>
      rw [(parse_eq_ok_iff.mp ha).forms?_comment hc hreturns, hb.forms?_close]
      rfl
  | @inner l x y r es items fs hl _ hr ih =>
      have hlist := hl.forms?_list (ih (r.toList ++ ')' :: t))
      rw [hr.forms?_close] at hlist
      simpa [Except.map] using hlist

/-- With a lone carriage return in the comment the elements end before it, and no closing
parenthesis follows them. -/
theorem Parted.forms?_loneReturn {x y : String} (h : Parted x y items) (hc : '\n' ∉ c)
    (hreturns : HasLoneReturn c) (t : List Char) : ∃ es rest,
      forms? (x.toList ++ ';' :: (c ++ '\n' :: t)) = .ok (es, rest) ∧ rest.head? ≠ some ')' := by
  induction h with
  | @here a b es fs ha _ =>
      have hprogram := parse_eq_ok_iff.mp ha
      by_cases hopen : ∃ before, LeavesOpen before a.toList
      · obtain ⟨before, hopen⟩ := hopen
        obtain ⟨es', rest, -, hforms⟩ := hopen.forms?_loneReturn hc hreturns t
        exact ⟨es', _, hforms, by simp⟩
      · exact ⟨es, _, hprogram.forms?_loneReturn (not_exists.mp hopen) hc hreturns t, by simp⟩
  | @inner l x y r es items fs hl _ _ ih =>
      obtain ⟨es', rest, hinner, hrest⟩ := ih
      refine ⟨es, '(' :: (x.toList ++ ';' :: (c ++ '\n' :: t)), ?_, by simp⟩
      simpa using hl.forms?_unclosed hinner hrest

/-! ### Comments in a program -/

theorem parse_of_stops {source : String} {x : List Char} (hsource : source.toList = s)
    (hsplit : s = before ++ x) (hstop : forms? s = .ok (es, x)) (hx : x ≠ []) :
    parse source = .error ⟨Position.after before, Fault.ofRest x⟩ := by
  rw [parse, hsource, Reader.readProgram_eq_error_iff]
  refine ⟨x, .inr ⟨es, hstop⟩, hx, ?_⟩
  rw [Reader.ParseError.ofRest, hsplit, Position.ofRest_append]

/-- **A comment between two forms.** Let `c` be the text of a comment, up to the end of the line. If
there is no lone carriage return in it, then the comment can be written between two programs, and
between two elements of a list or before its closing parenthesis, at any depth, and the forms are
those that there are without it. If there is one, then the text is no program. Between two programs
the error is at the semicolon, or at that of the comment that the first of them leaves open; in a
list it is at the opening parenthesis, and of several lists around the comment at the outermost. -/
theorem comment_between_forms {c : String} (hc : '\n' ∉ c.toList) :
    (¬ HasLoneReturn c.toList →
      (∀ a b fa fb, parse a = .ok fa → parse b = .ok fb →
        parse (a ++ ";" ++ c ++ "\n" ++ b) = .ok (fa ++ fb)) ∧
      ∀ l x y r fl items fr, Elements l fl → Parted x y items → parse r = .ok fr →
        parse (l ++ "(" ++ x ++ ";" ++ c ++ "\n" ++ y ++ ")" ++ r) =
          .ok (fl ++ .list items :: fr)) ∧
    (HasLoneReturn c.toList →
      (∀ a b fa, parse a = .ok fa → (∀ before, ¬ LeavesOpen before a.toList) →
        parse (a ++ ";" ++ c ++ "\n" ++ b) =
          .error ⟨Position.after a.toList, .unexpectedChar ';'⟩) ∧
      (∀ a b before, LeavesOpen before a.toList →
        parse (a ++ ";" ++ c ++ "\n" ++ b) =
          .error ⟨Position.after before, .unexpectedChar ';'⟩) ∧
      ∀ l x y r fl items, Elements l fl → Parted x y items →
        parse (l ++ "(" ++ x ++ ";" ++ c ++ "\n" ++ y ++ ")" ++ r) =
          .error ⟨Position.after l.toList, .unclosedList⟩) := by
  refine ⟨fun hreturns => ⟨?_, ?_⟩, fun hreturns => ⟨?_, ?_, ?_⟩⟩
  · intro a b fa fb ha hb
    rw [parse, Reader.readProgram_eq_ok_iff] at hb ⊢
    have hforms := (parse_eq_ok_iff.mp ha).forms?_comment hc hreturns b.toList
    rw [hb] at hforms
    simpa [Except.map] using hforms
  · intro l x y r fl items fr hl hplace hr
    rw [parse, Reader.readProgram_eq_ok_iff] at hr ⊢
    have hforms := hl.forms?_list (hplace.forms?_comment hc hreturns r.toList)
    rw [hr] at hforms
    simpa [Except.map] using hforms
  · intro a b fa ha hclosed
    have hforms := (parse_eq_ok_iff.mp ha).forms?_loneReturn hclosed hc hreturns b.toList
    exact parse_of_stops (by simp) rfl hforms (List.cons_ne_nil _ _)
  · intro a b before ha
    obtain ⟨es, rest, hsplit, hforms⟩ := ha.forms?_loneReturn hc hreturns b.toList
    exact parse_of_stops (by simp) hsplit hforms (List.cons_ne_nil _ _)
  · intro l x y r fl items hl hplace
    obtain ⟨es, rest, hinner, hrest⟩ :=
      hplace.forms?_loneReturn hc hreturns (y.toList ++ ')' :: r.toList)
    have hforms := hl.forms?_unclosed hinner hrest
    exact parse_of_stops (by simp) rfl hforms (List.cons_ne_nil _ _)

/-- A comment between the elements of an inner list, full of characters that mean something
elsewhere: with a carriage return at its end it is one, and with a carriage return in the middle
of it none. -/
theorem comment_between_forms_inner :
    parse "z ;q\n(a (b;)\"(;\\\r\nd) e) f" =
      .ok [.symbol "z", .list [.symbol "a", .list [.symbol "b", .symbol "d"], .symbol "e"],
        .symbol "f"] ∧
    parse "z ;q\n(a (b;)\"\r(;\\\nd) e) f" = .error ⟨⟨2, 1⟩, .unclosedList⟩ ∧
    parse "z\n ;q;)\"\r(;\\\nf" = .error ⟨⟨2, 2⟩, .unexpectedChar ';'⟩ := by
  have hfirst : Elements "z ;q\n" [.symbol "z"] := form_iff.mpr (by cbv)
  have hbefore : Elements "a " [.symbol "a"] := form_iff.mpr (by cbv)
  have hitem : Elements "d" [.symbol "d"] := form_iff.mpr (by cbv)
  have hafter : Elements " e" [.symbol "e"] := form_iff.mpr (by cbv)
  have hplace : Parted ("a " ++ "(" ++ "b") ("d" ++ ")" ++ " e")
      [.symbol "a", .list [.symbol "b", .symbol "d"], .symbol "e"] :=
    .inner hbefore (.here (show parse "b" = .ok [.symbol "b"] by cbv) hitem) hafter
  have hatom : Form "z\n ;q".toList (.symbol "z") "\n ;q".toList := form_iff.mpr (by cbv)
  have hblanks : Trivia "\n ;q".toList ";q".toList :=
    .blank (by decide) (.blank (by decide) (.none _))
  have hopen : LeavesOpen "z\n ".toList "z\n ;q".toList :=
    ⟨['q'], [.symbol "z"], "\n ;q".toList, rfl, by simp, .cons (.none _) hatom (.nil _),
      hblanks⟩
  have hreturn : ¬ HasLoneReturn ")\"(;\\\r".toList := by decide
  have hlone : HasLoneReturn ")\"\r(;\\".toList := by decide
  obtain ⟨hread, -⟩ := comment_between_forms (c := ")\"(;\\\r") (by decide)
  obtain ⟨-, hrefused⟩ := comment_between_forms (c := ")\"\r(;\\") (by decide)
  refine ⟨?_, ?_, ?_⟩
  · have h := (hread hreturn).2 _ _ _ " f" _ _ _ hfirst hplace (by cbv)
    simpa using h
  · have h := (hrefused hlone).2.2 _ _ _ " f" _ _ hfirst hplace
    simpa [Position.after, Position.advance, Position.start] using h
  · have h := (hrefused hlone).2.1 "z\n ;q" "f" _ hopen
    simpa [Position.after, Position.advance, Position.start] using h

/-- A carriage return in a comment between two atoms, without a line feed after it. -/
theorem lone_return_in_comment_refused :
    parse "a " = .ok [.symbol "a"] ∧ parse "b" = .ok [.symbol "b"] ∧ '\n' ∉ "x\ry".toList ∧
      parse ("a " ++ ";" ++ "x\ry" ++ "\n" ++ "b") = .error ⟨⟨1, 3⟩, .unexpectedChar ';'⟩ :=
  ⟨by cbv, by cbv, by decide, by cbv⟩

end Grammar

end ModularLisp
