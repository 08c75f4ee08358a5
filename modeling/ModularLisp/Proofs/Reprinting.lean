import ModularLisp.Proofs.Printing

/-!
# ModularLisp.Proofs.Reprinting

**Printing what was read.** Everything that is read is a datum without `nan`
(`datum_of_form`), so it has a text that can be read again. The only thing that is not read
back is an infinite number, and a number that is read is infinite only if a numeral in the
text was too large: the numbers of a program are the values of the numerals among its atoms
(`numbers_of_program`). So printing changes a program exactly if one of its numerals
overflows, and printing it once more changes nothing (`parse_reprinted`).
-/

namespace ModularLisp

open Grammar (IsAtom AtomEnd Content Form Forms Program Trivia)
open Reader (isAtomChar classify)

/-! ### What is read -/

theorem datum_classify {t : List Char} (h : IsAtom t) : (classify t).Datum (· ≠ .nan) := by
  cases hnumeral : Number.ofNumeral? t with
  | some x =>
      rw [classify, hnumeral]
      refine .number fun hx => Number.ofNumeral?_ne_nan t ?_
      rw [hnumeral, hx]
  | none =>
      have hname : classify t = .symbol (String.ofList t) := by rw [classify, hnumeral]
      rw [hname]
      refine .symbol ?_ ?_
      · rwa [String.toList_ofList]
      · rwa [String.toList_ofList]

mutual

/-- What is read has a source text, and no number in it is `nan`. -/
theorem datum_of_form {s r : List Char} {e : Expr} (h : Form s e r) : e.Datum (· ≠ .nan) := by
  cases h with
  | list hitems _ => exact .list (datum_of_forms hitems)
  | string => exact .string _
  | atom ht _ => exact datum_classify ht

theorem datum_of_forms {s r : List Char} {es : List Expr} (h : Forms s es r) :
    ∀ e ∈ es, e.Datum (· ≠ .nan) := by
  cases h with
  | nil => exact fun e he => absurd he List.not_mem_nil
  | cons _ hform hforms =>
      exact List.forall_mem_cons.mpr ⟨datum_of_form hform, datum_of_forms hforms⟩

end

/-- What is read back is read back as it is from then on. -/
theorem Expr.Datum.reread {e : Expr} (h : e.Datum (· ≠ .nan)) : e.reread.Datum Number.IsFinite := by
  induction h with
  | symbol hatom hname => exact .symbol hatom hname
  | @number x hx =>
      cases x with
      | nan => exact absurd rfl hx
      | infinite negative =>
          cases negative <;>
            exact .symbol (Grammar.isAtom_of_all (by decide) (by decide)) rfl
      | finite negative rank => exact .number ⟨negative, rank, rfl⟩
  | string content => exact .string content
  | list _ ih =>
      rw [Expr.reread_list]
      refine .list fun e he => ?_
      obtain ⟨e', he', rfl⟩ := List.mem_map.mp he
      exact ih e' he'

/-! ### The numerals of a text -/

namespace Reader

/-- The atoms of a text in order: what there is beside trivia, parentheses and strings. -/
def atoms (s : List Char) : List (List Char) :=
  match h : skipTrivia s with
  | [] => []
  | c :: r =>
      have hlt : r.length < s.length := by
        have := length_skipTrivia_le s
        rw [h, List.length_cons] at this
        omega
      if isAtomChar c then
        have hle := (List.dropWhile_sublist isAtomChar (l := r)).length_le
        (c :: r.takeWhile isAtomChar) :: atoms (r.dropWhile isAtomChar)
      else if c = '"' then
        match hstring : readString r with
        | .ok (_, rest) =>
            have hle := length_lt_of_readString hstring
            atoms rest
        | .error _ => []
      else atoms r
termination_by s.length

/-- Is `t` a numeral whose value is beyond all finite numbers? -/
def Overflows (t : List Char) : Prop :=
  ∃ negative, Number.ofNumeral? t = some (.infinite negative)

theorem atoms_eq (s : List Char) : atoms s = match skipTrivia s with
    | [] => []
    | c :: r =>
        if isAtomChar c then (c :: r.takeWhile isAtomChar) :: atoms (r.dropWhile isAtomChar)
        else if c = '"' then
          match readString r with
          | .ok (_, rest) => atoms rest
          | .error _ => []
        else atoms r := by
  rw [atoms]
  split
  · next h => rw [h]
  · next c r h =>
      simp only [h]
      split
      · rfl
      split
      · split
        · next hstring => rw [hstring]
        · next hstring => rw [hstring]
      · rfl

theorem atoms_nil : atoms [] = [] := by
  rw [atoms_eq, skipTrivia]

/-- Trivia hold no atoms. -/
theorem atoms_of_trivia {s r : List Char} (h : Trivia s r) : atoms s = atoms r := by
  rw [atoms_eq, Grammar.skipTrivia_of_trivia h, ← atoms_eq]

theorem atoms_open (s : List Char) : atoms ('(' :: s) = atoms s := by
  rw [atoms_eq]
  simp [skipTrivia, show Text.isBlank '(' = false by decide,
    show isAtomChar '(' = false by decide]

theorem atoms_close (s : List Char) : atoms (')' :: s) = atoms s := by
  rw [atoms_eq, Grammar.skipTrivia_close]
  simp [show isAtomChar ')' = false by decide]

theorem atoms_string {s content r : List Char} (h : Content s content r) :
    atoms ('"' :: s) = atoms r := by
  rw [atoms_eq]
  simp [skipTrivia, show Text.isBlank '"' = false by decide,
    show isAtomChar '"' = false by decide, Grammar.readString_eq_ok_iff.mpr h]

theorem atoms_atom {t r : List Char} (ht : IsAtom t) (hr : AtomEnd r) :
    atoms (t ++ r) = t :: atoms r := by
  have hskip := Grammar.skipTrivia_of_form (Form.atom ht hr)
  obtain ⟨c, t, rfl, hc, ht⟩ := ht.exists_cons
  rw [atoms_eq, hskip, List.cons_append]
  simp only [hc, if_true, Text.takeWhile_run ht hr, Text.dropWhile_run ht hr]

end Reader

namespace Expr

mutual

/-- The numbers in an expression, from left to right. -/
def numbers : Expr → List Number
  | symbol _ | string _ | closure .. => []
  | number x => [x]
  | list items => numbersAll items

/-- The numbers in a sequence of expressions. -/
def numbersAll : List Expr → List Number
  | [] => []
  | e :: es => e.numbers ++ numbersAll es

end

theorem numbers_classify (t : List Char) :
    (classify t).numbers = [t].filterMap Number.ofNumeral? := by
  rw [classify]
  cases h : Number.ofNumeral? t <;> simp [h, numbers]

mutual

/-- An expression is read back as it is exactly if no number in it is infinite. -/
theorem reread_eq_self_iff : {e : Expr} →
    (e.reread = e ↔ ∀ negative, Number.infinite negative ∉ e.numbers)
  | symbol _ => by simp [reread, numbers]
  | number x => by
      cases x with
      | nan => simp [reread, numbers]
      | infinite negative => simp [reread, numbers]
      | finite _ _ => simp [reread, numbers]
  | string _ => by simp [reread, numbers]
  | list items => by
      rw [reread, numbers, list.injEq]
      exact rereadAll_eq_self_iff
  | closure .. => by simp [reread, numbers]

theorem rereadAll_eq_self_iff : {es : List Expr} →
    (rereadAll es = es ↔ ∀ negative, Number.infinite negative ∉ numbersAll es)
  | [] => by simp [rereadAll, numbersAll]
  | e :: es => by
      rw [rereadAll, numbersAll, List.cons.injEq, reread_eq_self_iff, rereadAll_eq_self_iff]
      simp only [List.mem_append, not_or, forall_and]

end

end Expr

/-! ### The numbers of a program -/

mutual

/-- The numbers in a form are the values of the numerals in its text. -/
theorem numbers_of_form {s r : List Char} {e : Expr} (h : Form s e r) :
    (Reader.atoms s).filterMap Number.ofNumeral? =
      e.numbers ++ (Reader.atoms r).filterMap Number.ofNumeral? := by
  cases h with
  | list hitems htrivia =>
      rw [Reader.atoms_open, numbers_of_forms hitems, Reader.atoms_of_trivia htrivia,
        Reader.atoms_close, Expr.numbers]
  | string hcontent =>
      rw [Reader.atoms_string hcontent, Expr.numbers, List.nil_append]
  | atom ht hr =>
      rw [Reader.atoms_atom ht hr, Expr.numbers_classify, ← List.filterMap_append,
        List.singleton_append]

theorem numbers_of_forms {s r : List Char} {es : List Expr} (h : Forms s es r) :
    (Reader.atoms s).filterMap Number.ofNumeral? =
      Expr.numbersAll es ++ (Reader.atoms r).filterMap Number.ofNumeral? := by
  cases h with
  | nil => rfl
  | cons htrivia hform hforms =>
      rw [Reader.atoms_of_trivia htrivia, numbers_of_form hform, numbers_of_forms hforms,
        Expr.numbersAll, List.append_assoc]

end

/-- The numbers of a program are the values of the numerals in its text. -/
theorem numbers_of_program {s : List Char} {forms : List Expr} (h : Program s forms) :
    Expr.numbersAll forms = (Reader.atoms s).filterMap Number.ofNumeral? := by
  obtain ⟨r, hforms, htrivia⟩ := h
  rw [numbers_of_forms hforms, Reader.atoms_of_trivia htrivia, Reader.atoms_nil]
  simp

/-! ### Printing and reading a program -/

/-- The texts of the forms of a program, with a space between neighbours. -/
def printed (forms : List Expr) : String :=
  " ".intercalate (forms.map Expr.text)

theorem toList_printed (forms : List Expr) : (printed forms).toList = Expr.itemChars forms := by
  rw [printed]
  induction forms with
  | nil => rfl
  | cons e es ih =>
      cases es with
      | nil => simp [Expr.text, Expr.itemChars]
      | cons e' es =>
          rw [List.map_cons, List.map_cons, String.intercalate_cons_cons, String.toList_append,
            String.toList_append, ← List.map_cons, ih,
            Expr.itemChars.eq_3 _ _ (List.cons_ne_nil _ _), Expr.text, String.toList_ofList,
            List.append_assoc]
          rfl

theorem parse_printed {forms : List Expr} (h : ∀ e ∈ forms, e.Datum (· ≠ .nan)) :
    parse (printed forms) = .ok (forms.map Expr.reread) := by
  refine Grammar.parse_eq_ok_iff.mpr ⟨[], ?_, .none []⟩
  have hforms := forms_itemChars (fun e he => form_chars (h e he)) Grammar.atomEnd_nil
  rwa [List.append_nil, ← toList_printed] at hforms

theorem datum_of_parse {source : String} {forms : List Expr} (h : parse source = .ok forms) :
    ∀ e ∈ forms, e.Datum (· ≠ .nan) := by
  obtain ⟨r, hforms, -⟩ := Grammar.parse_eq_ok_iff.mp h
  exact datum_of_forms hforms

/-- A program is read back as it is exactly if no numeral in its text overflows. -/
theorem map_reread_eq_iff {source : String} {forms : List Expr} (h : parse source = .ok forms) :
    forms.map Expr.reread = forms ↔ ∀ t ∈ Reader.atoms source.toList, ¬ Reader.Overflows t := by
  rw [← Expr.rereadAll_eq, Expr.rereadAll_eq_self_iff,
    numbers_of_program (Grammar.parse_eq_ok_iff.mp h)]
  simp only [List.mem_filterMap, not_exists, not_and, Reader.Overflows]
  exact ⟨fun h t ht negative => h negative t ht, fun h negative t ht => h t ht negative⟩

/-- **What printing and reading do to a program.** The printed program is read as the same
program with words for infinite numbers. That is the same program exactly if no numeral in
the text overflows, and printing and reading it again changes nothing more. -/
theorem parse_reprinted {source : String} {forms : List Expr} (h : parse source = .ok forms) :
    parse (printed forms) = .ok (forms.map Expr.reread) ∧
    (parse (printed forms) = .ok forms ↔
      ∀ t ∈ Reader.atoms source.toList, ¬ Reader.Overflows t) ∧
    parse (printed (forms.map Expr.reread)) = .ok (forms.map Expr.reread) := by
  have hdatum := datum_of_parse h
  have hprinted := parse_printed hdatum
  have hfinite : ∀ e ∈ forms.map Expr.reread, e.Datum Number.IsFinite := by
    intro e he
    obtain ⟨e', he', rfl⟩ := List.mem_map.mp he
    exact (hdatum e' he').reread
  refine ⟨hprinted, ?_, ?_⟩
  · rw [hprinted, Except.ok.injEq]
    exact map_reread_eq_iff h
  · rw [parse_printed fun e he => (hfinite e he).mono fun _ => Number.ne_nan_of_isFinite,
      List.map_congr_left fun e he => Expr.reread_of_finite (hfinite e he), List.map_id']

/-- Two numerals of this program overflow, one of them in a list. -/
theorem parse_reprinted_overflow :
    let forms : List Expr :=
      [.list [.symbol "a", .number (.infinite false)], .number (.infinite true)]
    parse "(a 1e999)-1e400" = .ok forms ∧ printed forms = "(a inf) -inf" ∧
      parse (printed forms) = .ok [.list [.symbol "a", .symbol "inf"], .symbol "-inf"] ∧
      ¬ (parse (printed forms) = .ok forms) := by
  intro forms
  have hparse : parse "(a 1e999)-1e400" = .ok forms := by cbv
  obtain ⟨hread, hsame, -⟩ := parse_reprinted hparse
  refine ⟨hparse, by cbv, hread, fun h => ?_⟩
  have hatoms : Reader.atoms "(a 1e999)-1e400".toList =
      ["a".toList, "1e999".toList, "-1e400".toList] := by cbv
  have hatom : "1e999".toList ∈ Reader.atoms "(a 1e999)-1e400".toList := by
    rw [hatoms]
    simp
  exact hsame.mp h _ hatom ⟨false, by cbv⟩

end ModularLisp
