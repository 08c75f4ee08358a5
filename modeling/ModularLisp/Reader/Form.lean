import ModularLisp.Reader.Token
import ModularLisp.Reader.Trivia

/-!
# ModularLisp.Reader.Form

**Forms**: reading one expression, and as many as there are. A form is a list, a
string or an atom, told apart by its first character. A list holds as many forms as
can be read and then, after trivia, its closing parenthesis. When that parenthesis is
not there, whatever stands in its place, the list is not there either: so an
unfinished inner form makes every form around it absent, and the place where reading
stopped is the beginning of the outermost one.

Each function returns what is left of the text together with a proof that it is
shorter, and that is what the recursion is founded on. `form?` and `forms?` forget
the proofs; the equations below describe them without any.
-/

namespace ModularLisp.Reader

/-! ### Reading -/

/-- What one form leaves of `s`. -/
abbrev FormRead (s : List Char) : Type :=
  Except Stop { p : Expr × List Char // p.2.length < s.length }

/-- What a sequence of forms leaves of `s`, or the text from a bad escape on. -/
abbrev FormsRead (s : List Char) : Type :=
  Except (List Char) { p : List Expr × List Char // p.2.length ≤ s.length }

/-- What a list is, given what was read after its opening parenthesis. -/
def closeList : Except (List Char) (List Expr × List Char) → Except Stop (Expr × List Char)
  | .error bad => .error (.badEscape bad)
  | .ok (items, ')' :: after) => .ok (.list items, after)
  | .ok _ => .error .absent

theorem length_lt_of_closeList {items : List Expr} {rest : List Char} {p : Expr × List Char}
    (h : closeList (.ok (items, rest)) = .ok p) : p.2.length < rest.length := by
  unfold closeList at h
  split at h
  · contradiction
  · next heq =>
      cases heq
      cases h
      exact Nat.lt_succ_self _
  · contradiction

mutual

/-- Reads the form at the head of `s`, without the trivia around it. -/
def readForm (s : List Char) : FormRead s :=
  match s with
  | [] => .error .absent
  | c :: r =>
      if c = '(' then
        match readForms r with
        | .error bad => .error (.badEscape bad)
        | .ok ⟨(items, rest), h⟩ =>
            match hclose : closeList (.ok (items, rest)) with
            | .error stop => .error stop
            | .ok p => .ok ⟨p, by
                have := length_lt_of_closeList hclose; simp at h ⊢; omega⟩
      else if c = '"' then
        match h : readString r with
        | .error stop => .error stop
        | .ok (content, rest) =>
            .ok ⟨(.string (String.ofList content), rest), by
              have := length_lt_of_readString h; simp; omega⟩
      else if isAtomChar c then
        .ok ⟨(classify (c :: r.takeWhile isAtomChar), r.dropWhile isAtomChar), by
          have := (List.dropWhile_sublist isAtomChar (l := r)).length_le; simp; omega⟩
      else .error .absent
termination_by (s.length, 0)

/-- Reads forms, each after trivia, until there is no further one; leaves the text
that follows the last one and its trivia. -/
def readForms (s : List Char) : FormsRead s :=
  match readForm (skipTrivia s) with
  -- An absent form ends the sequence; a bad escape ends all reading.
  | .error .absent => .ok ⟨([], skipTrivia s), length_skipTrivia_le s⟩
  | .error (.badEscape bad) => .error bad
  | .ok ⟨(e, rest), h⟩ =>
      have hle := length_skipTrivia_le s
      match readForms rest with
      | .error bad => .error bad
      | .ok ⟨(es, rest'), h'⟩ => .ok ⟨(e :: es, rest'), by simp at h h' ⊢; omega⟩
termination_by (s.length, 1)
decreasing_by
  · have := length_skipTrivia_le s
    rcases Nat.lt_or_eq_of_le this with hlt | heq
    · exact Prod.Lex.left _ _ hlt
    · rw [heq]; exact Prod.Lex.right _ (by decide)
  · have := length_skipTrivia_le s
    exact Prod.Lex.left _ _ (by simp at h; omega)

end

/-! ### Reading without the proofs -/

/-- The form at the head of `s` and what it leaves. -/
def form? (s : List Char) : Except Stop (Expr × List Char) :=
  (readForm s).map Subtype.val

/-- The forms at the head of `s` and what they leave. -/
def forms? (s : List Char) : Except (List Char) (List Expr × List Char) :=
  (readForms s).map Subtype.val

theorem form?_nil : form? [] = .error .absent := by
  rw [form?, readForm]; rfl

theorem form?_open (r : List Char) : form? ('(' :: r) = closeList (forms? r) := by
  rw [form?, readForm, if_pos rfl, forms?]
  rcases readForms r with bad | ⟨⟨items, rest⟩, h⟩
  · rfl
  · dsimp only
    split
    · next hclose => exact hclose.symm
    · next hclose => exact hclose.symm

theorem form?_quote (r : List Char) :
    form? ('"' :: r) = (readString r).map fun p => (.string (String.ofList p.1), p.2) := by
  rw [form?, readForm, if_neg (by decide), if_pos rfl]
  split
  · next h => simp [h, Except.map]
  · next h => simp [h, Except.map]

theorem form?_atom {c : Char} (hc : isAtomChar c = true) (r : List Char) :
    form? (c :: r) =
      .ok (classify (c :: r.takeWhile isAtomChar), r.dropWhile isAtomChar) := by
  have hopen : c ≠ '(' := by rintro rfl; simp [isAtomChar] at hc
  have hquote : c ≠ '"' := by rintro rfl; simp [isAtomChar] at hc
  rw [form?, readForm, if_neg hopen, if_neg hquote, if_pos hc]; rfl

theorem form?_other {c : Char} (hc : isAtomChar c = false) (hopen : c ≠ '(')
    (hquote : c ≠ '"') (r : List Char) : form? (c :: r) = .error .absent := by
  rw [form?, readForm, if_neg hopen, if_neg hquote, if_neg (by simp [hc])]; rfl

theorem forms?_eq (s : List Char) :
    forms? s = match form? (skipTrivia s) with
      | .error .absent => .ok ([], skipTrivia s)
      | .error (.badEscape bad) => .error bad
      | .ok (e, rest) => (forms? rest).map fun p => (e :: p.1, p.2) := by
  rw [forms?, readForms, form?]
  rcases readForm (skipTrivia s) with stop | ⟨⟨e, rest⟩, h⟩
  · cases stop <;> rfl
  · simp only [Except.map, forms?]
    rcases readForms rest with bad | ⟨⟨es, rest'⟩, h'⟩ <;> rfl

/-- A form takes at least one character. -/
theorem length_lt_of_form? {s rest : List Char} {e : Expr} (h : form? s = .ok (e, rest)) :
    rest.length < s.length := by
  rw [form?] at h
  rcases hr : readForm s with stop | ⟨p, hp⟩
  · simp [hr, Except.map] at h
  · simp only [hr, Except.map, Except.ok.injEq] at h
    subst h
    exact hp

end ModularLisp.Reader
