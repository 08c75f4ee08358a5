import ModularLisp.Expr.Printer
import ModularLisp.Proofs.Adjacency
import ModularLisp.Proofs.NumberText

/-!
# ModularLisp.Proofs.Printing

**Reading undoes printing.** The printer and the reader have no definition in common that
would make them agree, so the law is proved part by part: the printer escapes what the
reader unescapes (`content_escape`), the text of a finite number is a numeral that denotes
it, and a space or a parenthesis ends every atom that stands in a list.

What is printed is read back with one change (`Expr.reread`): an infinite number is printed
as a word, and is read as a symbol. Expressions without infinite numbers are read back as
they are, however they are separated (`parse_separated`).
-/

namespace ModularLisp

open Grammar (IsAtom AtomEnd Content Form Forms Trivia)
open Reader (isAtomChar classify)
open Text (isBlank)

/-! ### Data -/

/-- An expression that has a source text, and whose numbers satisfy `numbers`. It holds no
closures, and its symbols are atoms and no numerals. -/
inductive Expr.Datum (numbers : Number → Prop) : Expr → Prop
  | symbol {name : String} : IsAtom name.toList → classify name.toList = .symbol name →
      Datum numbers (.symbol name)
  | number {x : Number} : numbers x → Datum numbers (.number x)
  | string (content : String) : Datum numbers (.string content)
  | list {items : List Expr} : (∀ e ∈ items, Datum numbers e) → Datum numbers (.list items)

/-- Is `x` neither infinite nor `nan`? -/
def Number.IsFinite (x : Number) : Prop :=
  ∃ negative rank, x = .finite negative rank

theorem Number.ne_nan_of_isFinite {x : Number} (h : x.IsFinite) : x ≠ .nan := by
  obtain ⟨negative, rank, rfl⟩ := h
  simp

namespace Expr

theorem Datum.mono {p q : Number → Prop} (hpq : ∀ x, p x → q x) {e : Expr} (h : e.Datum p) :
    e.Datum q := by
  induction h with
  | symbol hatom hname => exact .symbol hatom hname
  | number hx => exact .number (hpq _ hx)
  | string content => exact .string content
  | list _ ih => exact .list ih

mutual

/-- An expression with every infinite number in it replaced by the symbol `inf` or `-inf`. -/
def reread : Expr → Expr
  | number (.infinite negative) => symbol (if negative then "-inf" else "inf")
  | list items => list (rereadAll items)
  | e => e

/-- The same for each item of a list. -/
def rereadAll : List Expr → List Expr
  | [] => []
  | e :: es => e.reread :: rereadAll es

end

theorem rereadAll_eq (es : List Expr) : rereadAll es = es.map reread := by
  induction es with
  | nil => rfl
  | cons e es ih => rw [rereadAll, ih, List.map_cons]

theorem reread_list (items : List Expr) : (list items).reread = list (items.map reread) := by
  rw [reread, rereadAll_eq]

/-- Only infinite numbers are read back as something else. -/
theorem reread_of_finite {e : Expr} (h : e.Datum Number.IsFinite) : e.reread = e := by
  induction h with
  | symbol => rfl
  | number hx =>
      obtain ⟨negative, rank, rfl⟩ := hx
      rfl
  | string => rfl
  | @list items _ ih =>
      rw [reread_list, List.map_congr_left ih, List.map_id']

end Expr

/-! ### Atoms -/

/-- The words that infinite numbers are printed as are read as symbols. -/
theorem classify_infinite (negative : Bool) :
    classify (Number.infinite negative).text = (Expr.number (.infinite negative)).reread := by
  rw [classify, Number.ofNumeral?_infinite]
  cases negative <;> rfl

theorem isAtom_text (x : Number) : IsAtom x.text :=
  ⟨Reader.text_ne_nil x, fun _ hc => Reader.isAtomChar_of_mem_text hc⟩

theorem classify_finite (negative : Bool) (rank : Fin Number.magnitudes) :
    classify (Number.finite negative rank).text = .number (.finite negative rank) := by
  rw [classify, Number.ofNumeral?_text]

/-! ### Strings -/

theorem escape_iff_escapeLetter? {letter c : Char} :
    Text.escapeLetter? c = some letter ↔ Grammar.Escape letter c := by
  rw [← Text.unescape?_eq_some_iff, Grammar.unescape?_eq_some_iff_escape]

/-- Escaped characters are read back as the characters. -/
theorem content_escape (s r : List Char) : Content (s.flatMap Text.escape ++ '"' :: r) s r := by
  induction s with
  | nil => exact .close r
  | cons c s ih =>
      rw [List.flatMap_cons, List.append_assoc, Text.escape]
      cases hletter : Text.escapeLetter? c with
      | some letter => exact .escaped (escape_iff_escapeLetter?.mp hletter) ih
      | none =>
          refine .plain ?_ ?_ ih
          · rintro rfl
            cases hletter
          · rintro rfl
            cases hletter

theorem form_quote (content : String) :
    Form (Text.quote content.toList) (.string content) [] := by
  have := Form.string (content_escape content.toList [])
  rwa [String.ofList_toList] at this

/-! ### Lists -/

/-- Expressions whose texts are forms are read one by one when there is a space between
neighbours. -/
theorem forms_itemChars {es : List Expr} (h : ∀ e ∈ es, Form e.chars e.reread []) {r : List Char}
    (hr : AtomEnd r) : Forms (Expr.itemChars es ++ r) (es.map Expr.reread) r := by
  induction es with
  | nil => exact .nil r
  | cons e es ih =>
      have hfirst := h e List.mem_cons_self
      have hrest := ih fun e he => h e (List.mem_cons_of_mem _ he)
      cases es with
      | nil => exact .cons (.none _) (hfirst.append r (.inr hr)) (.nil r)
      | cons e' es =>
          rw [Expr.itemChars.eq_3 _ _ (List.cons_ne_nil _ _), List.append_assoc, List.cons_append]
          have hspace : Trivia (' ' :: (Expr.itemChars (e' :: es) ++ r))
              (Expr.itemChars (e' :: es) ++ r) := .blank (by decide) (.none _)
          exact .cons (.none _) (hfirst.append _ (.inr (Grammar.atomEnd_cons (by decide) _)))
            (hrest.of_trivia hspace (List.cons_ne_nil _ _))

/-- **What is printed is read back**, with words for infinite numbers. -/
theorem form_chars {e : Expr} (h : e.Datum (· ≠ .nan)) : Form e.chars e.reread [] := by
  induction h with
  | @symbol name hatom hname =>
      have := Grammar.form_of_isAtom hatom
      rwa [hname] at this
  | @number x hx =>
      have hform := Grammar.form_of_isAtom (isAtom_text x)
      cases x with
      | nan => exact absurd rfl hx
      | infinite negative => rwa [classify_infinite] at hform
      | finite negative rank => rwa [classify_finite] at hform
  | string content => exact form_quote content
  | @list items _ ih =>
      rw [Expr.reread_list]
      exact .list (forms_itemChars ih (Grammar.atomEnd_cons (by decide) [])) (.none _)

/-! ### Expressions apart -/

/-- Blanks and comments that end with their lines, so that they are trivia before any text. -/
inductive Separator : List Char → Prop
  | nil : Separator []
  | blank {c : Char} {s : List Char} : isBlank c = true → Separator s → Separator (c :: s)
  | comment {body s : List Char} : (∀ c ∈ body, c ≠ '\n' ∧ c ≠ '\r') → Separator s →
      Separator (';' :: (body ++ '\n' :: s))

theorem Separator.trivia {t : List Char} (h : Separator t) (r : List Char) :
    Trivia (t ++ r) r := by
  induction h with
  | nil => exact .none r
  | blank hc _ ih => exact .blank hc ih
  | comment hbody _ ih =>
      rw [List.cons_append, List.append_assoc]
      exact .comment hbody (.lineFeed _) (.blank (by decide) ih)

theorem Separator.atomEnd {t : List Char} (h : Separator t) (hne : t ≠ []) (r : List Char) :
    AtomEnd (t ++ r) := by
  cases h with
  | nil => exact absurd rfl hne
  | blank hc _ => exact Grammar.atomEnd_cons (by simp [isAtomChar, hc]) _
  | comment => exact Grammar.atomEnd_cons (by decide) _

/-- The texts of expressions, each but the first after a text that separates it from the one
before it. -/
def separated (first : Expr) (rest : List (String × Expr)) : String :=
  first.text ++ String.join (rest.map fun p => p.1 ++ p.2.text)

theorem toList_separated (first : Expr) (rest : List (String × Expr)) :
    (separated first rest).toList =
      first.chars ++ rest.flatMap fun p => p.1.toList ++ p.2.chars := by
  simp [separated, Expr.text, String.toList_join, List.flatMap_map]

theorem forms_separated {rest : List (String × Expr)}
    (h : ∀ p ∈ rest, Separator p.1.toList ∧ p.1 ≠ "" ∧ p.2.Datum (· ≠ .nan)) :
    AtomEnd (rest.flatMap fun p => p.1.toList ++ p.2.chars) ∧
      Forms (rest.flatMap fun p => p.1.toList ++ p.2.chars)
        (rest.map fun p => p.2.reread) [] := by
  induction rest with
  | nil => exact ⟨Grammar.atomEnd_nil, .nil []⟩
  | cons p rest ih =>
      obtain ⟨hseparator, hne, hdatum⟩ := h p List.mem_cons_self
      obtain ⟨hend, hforms⟩ := ih fun q hq => h q (List.mem_cons_of_mem _ hq)
      rw [List.flatMap_cons, List.append_assoc]
      refine ⟨hseparator.atomEnd (by simpa using hne) _, ?_⟩
      exact .cons (hseparator.trivia _) ((form_chars hdatum).append _ (.inr hend)) hforms

/-- Expressions that are kept apart are read back one by one, with words for infinite
numbers. -/
theorem parse_separated_reread {first : Expr} {rest : List (String × Expr)}
    (hfirst : first.Datum (· ≠ .nan))
    (hrest : ∀ p ∈ rest, Separator p.1.toList ∧ p.1 ≠ "" ∧ p.2.Datum (· ≠ .nan)) :
    parse (separated first rest) = .ok (first.reread :: rest.map fun p => p.2.reread) := by
  obtain ⟨hend, hforms⟩ := forms_separated hrest
  refine Grammar.parse_eq_ok_iff.mpr ⟨[], ?_, .none []⟩
  rw [toList_separated]
  exact .cons (.none _) ((form_chars hfirst).append _ (.inr hend)) hforms

/-- **Reading undoes printing.** Expressions whose numbers are finite are read back from their
texts as they are, whatever blanks and comments keep the texts apart. -/
theorem parse_separated {first : Expr} {rest : List (String × Expr)}
    (hfirst : first.Datum Number.IsFinite)
    (hrest : ∀ p ∈ rest, Separator p.1.toList ∧ p.1 ≠ "" ∧ p.2.Datum Number.IsFinite) :
    parse (separated first rest) = .ok (first :: rest.map Prod.snd) := by
  have hnan : ∀ x, Number.IsFinite x → x ≠ .nan := fun _ => Number.ne_nan_of_isFinite
  rw [parse_separated_reread (hfirst.mono hnan) fun p hp =>
    ⟨(hrest p hp).1, (hrest p hp).2.1, (hrest p hp).2.2.mono hnan⟩]
  rw [Expr.reread_of_finite hfirst,
    List.map_congr_left fun p hp => Expr.reread_of_finite (hrest p hp).2.2]

/-- A list that holds a negative zero and a string of special characters, and a symbol after
a comment. -/
theorem parse_separated_negativeZero :
    parse (separated (.list [.number (.finite true ⟨0, by decide⟩), .string "\"\\\n\r;("])
        [(";(\n", .symbol "-inf")]) =
      .ok [.list [.number (.finite true ⟨0, by decide⟩), .string "\"\\\n\r;("],
        .symbol "-inf"] := by
  refine parse_separated (.list fun e he => ?_) fun p hp => ?_
  · simp only [List.mem_cons, List.not_mem_nil, or_false] at he
    rcases he with rfl | rfl
    · exact .number ⟨true, _, rfl⟩
    · exact .string _
  · obtain rfl := List.mem_singleton.mp hp
    have hcomment : Separator (';' :: (['('] ++ '\n' :: [])) :=
      .comment (fun c hc => List.mem_singleton.mp hc ▸ by decide) .nil
    exact ⟨hcomment, by decide, .symbol (Grammar.isAtom_of_all (by decide) (by decide)) rfl⟩

end ModularLisp
