import Mathlib.Data.List.Chain
import ModularLisp.Proofs.Grammar

/-!
# ModularLisp.Proofs.Adjacency

**What may stand next to a form.** Only two things in a text can be changed by what comes
after them: a comment that the end of the text ends, and an atom that goes on. So a form
stays the same form whatever is written after it, unless an atom is written after an atom
(`Form.append`).

It follows that nothing has to stand between two forms unless both are atoms. Written next
to each other, forms are read one by one exactly if no two neighbours are atoms
(`forms?_adjacent_iff`).
-/

namespace ModularLisp.Grammar

open Reader (isAtomChar classify)

/-! ### What may follow a form -/

theorem LineEnd.append {s : List Char} (h : LineEnd s) (hs : s ≠ []) (t : List Char) :
    LineEnd (s ++ t) := by
  cases h with
  | text => exact absurd rfl hs
  | lineFeed r => exact .lineFeed (r ++ t)
  | returnLineFeed r => exact .returnLineFeed (r ++ t)

theorem Trivia.ne_nil {s r : List Char} (h : Trivia s r) (hr : r ≠ []) : s ≠ [] := by
  cases h with
  | none => exact hr
  | blank => exact List.cons_ne_nil _ _
  | comment => exact List.cons_ne_nil _ _

/-- Trivia with something after them are the same whatever comes after that: no comment among
them is ended by the end of the text. -/
theorem Trivia.append {s r : List Char} (h : Trivia s r) (hr : r ≠ []) (t : List Char) :
    Trivia (s ++ t) (r ++ t) := by
  induction h with
  | none => exact .none _
  | blank hc _ ih => exact .blank hc (ih hr)
  | comment hbody hend htrivia ih =>
      rw [List.cons_append, List.append_assoc]
      exact .comment hbody (hend.append (htrivia.ne_nil hr) t) (ih hr)

theorem Content.append {s content r : List Char} (h : Content s content r) (t : List Char) :
    Content (s ++ t) content (r ++ t) := by
  induction h with
  | close r => exact .close (r ++ t)
  | plain hquote hescape _ ih => exact .plain hquote hescape ih
  | escaped hc _ ih => exact .escaped hc ih

theorem AtomEnd.append {s : List Char} (h : AtomEnd s) (hs : s ≠ []) (t : List Char) :
    AtomEnd (s ++ t) := by
  cases s with
  | nil => exact absurd rfl hs
  | cons c s => exact h

theorem not_atomEnd_of_isAtom {t : List Char} (h : IsAtom t) (r : List Char) :
    ¬ AtomEnd (t ++ r) := by
  intro hend
  obtain ⟨c, t, rfl, hc, -⟩ := h.exists_cons
  rw [hend c rfl] at hc
  cases hc

theorem IsAtom.append {s t : List Char} (hs : IsAtom s) (ht : IsAtom t) : IsAtom (s ++ t) :=
  ⟨List.append_ne_nil_of_left_ne_nil hs.1 _,
    fun c hc => (List.mem_append.mp hc).elim (hs.2 c) (ht.2 c)⟩

theorem Form.ne_nil {s r : List Char} {e : Expr} (h : Form s e r) : s ≠ [] := by
  cases h with
  | list => exact List.cons_ne_nil _ _
  | string => exact List.cons_ne_nil _ _
  | atom ht => exact List.append_ne_nil_of_left_ne_nil ht.1 _

theorem Form.atomEnd {s r : List Char} {e : Expr} (h : Form s e r) : AtomEnd s ∨ AtomEnd r := by
  cases h with
  | list => exact .inl (atomEnd_cons (by decide) _)
  | string => exact .inl (atomEnd_cons (by decide) _)
  | atom _ hr => exact .inr hr

theorem Form.isAtom {t : List Char} {e : Expr} (h : Form t e []) (hstart : ¬ AtomEnd t) :
    IsAtom t := by
  cases h with
  | list => exact absurd (atomEnd_cons (by decide) _) hstart
  | string => exact absurd (atomEnd_cons (by decide) _) hstart
  | atom ht => rwa [List.append_nil]

theorem Forms.of_trivia {s t r : List Char} {es : List Expr} (h : Forms t es r)
    (hst : Trivia s t) (hes : es ≠ []) : Forms s es r := by
  cases h with
  | nil => exact absurd rfl hes
  | cons htrivia hform hforms => exact .cons (hst.trans htrivia) hform hforms

theorem Forms.ne_nil {s r : List Char} {es : List Expr} (h : Forms s es r) (hr : r ≠ []) :
    s ≠ [] := by
  cases h with
  | nil => exact hr
  | cons htrivia hform _ => exact htrivia.ne_nil hform.ne_nil

mutual

/-- A form is the same form whatever comes after it, unless it is an atom and what comes
after it goes on with one. -/
theorem Form.append {s r : List Char} {e : Expr} (h : Form s e r) (t : List Char)
    (hend : AtomEnd s ∨ AtomEnd (r ++ t)) : Form (s ++ t) e (r ++ t) := by
  cases h with
  | @list s r₁ _ items hitems htrivia =>
      exact .list (hitems.append (htrivia.ne_nil (List.cons_ne_nil _ _)) t)
        (htrivia.append (List.cons_ne_nil _ _) t)
  | string hcontent => exact .string (hcontent.append t)
  | atom ht _ =>
      rw [List.append_assoc]
      exact .atom ht (hend.resolve_left (not_atomEnd_of_isAtom ht _))

theorem Forms.append {s r : List Char} {es : List Expr} (h : Forms s es r) (hr : r ≠ [])
    (t : List Char) : Forms (s ++ t) es (r ++ t) := by
  cases h with
  | nil => exact .nil _
  | cons htrivia hform hforms =>
      have hend := hform.atomEnd.imp_right fun h => h.append (hforms.ne_nil hr) t
      exact .cons (htrivia.append hform.ne_nil t) (hform.append t hend) (hforms.append hr t)

end

/-! ### Forms next to each other -/

/-- No two neighbours among the written forms are atoms. -/
def Apart (pieces : List (List Char × Expr)) : Prop :=
  pieces.IsChain fun p q => ¬ (IsAtom p.1 ∧ IsAtom q.1)

theorem apart_cons_iff {p : List Char × Expr} {pieces : List (List Char × Expr)} {r : List Char}
    (h : AtomEnd p.1 ∨ AtomEnd (pieces.flatMap Prod.fst ++ r)) :
    Apart (p :: pieces) ↔ Apart pieces := by
  cases pieces with
  | nil => simp [Apart]
  | cons q pieces =>
      rw [Apart, List.isChain_cons_cons]
      refine and_iff_right fun ⟨hp, hq⟩ => ?_
      rcases h with h | h
      · exact not_atomEnd_of_isAtom hp [] (by rwa [List.append_nil])
      · rw [List.flatMap_cons, List.append_assoc] at h
        exact not_atomEnd_of_isAtom hq _ h

/-- A form that is changed by what is written after it is an atom, and so is its neighbour. -/
theorem exists_atoms_of_not_end {p : List Char × Expr} {rest : List (List Char × Expr)}
    (h : ∀ q ∈ p :: rest, Form q.1 q.2 []) {r : List Char} (hr : AtomEnd r)
    (hend : ¬ (AtomEnd p.1 ∨ AtomEnd (rest.flatMap Prod.fst ++ r))) :
    ∃ q rest', rest = q :: rest' ∧ IsAtom p.1 ∧ IsAtom q.1 := by
  obtain ⟨hstart, hnext⟩ := not_or.mp hend
  cases rest with
  | nil => exact absurd hr hnext
  | cons q rest =>
      have hq : Form q.1 q.2 [] := h q (by simp)
      refine ⟨q, rest, rfl, (h p List.mem_cons_self).isAtom hstart, hq.isAtom fun hend' => hnext ?_⟩
      rw [List.flatMap_cons, List.append_assoc]
      exact hend'.append hq.ne_nil _

/-- Forms written next to each other are read as these forms if no two neighbours are atoms,
and otherwise as fewer, because neighbouring atoms are one. -/
theorem exists_forms_adjacent {pieces : List (List Char × Expr)}
    (h : ∀ p ∈ pieces, Form p.1 p.2 []) {r : List Char} (hr : AtomEnd r) :
    ∃ es, Forms (pieces.flatMap Prod.fst ++ r) es r ∧ (Apart pieces → es = pieces.map Prod.snd) ∧
      (¬ Apart pieces → es.length < pieces.length) := by
  induction hn : pieces.length using Nat.strongRecOn generalizing pieces with
  | _ n ih =>
    subst hn
    cases pieces with
    | nil => exact ⟨[], .nil r, fun _ => rfl, fun h => absurd .nil h⟩
    | cons p rest =>
        have hp : Form p.1 p.2 [] := h p List.mem_cons_self
        by_cases hend : AtomEnd p.1 ∨ AtomEnd (rest.flatMap Prod.fst ++ r)
        · obtain ⟨es, hforms, heq, hlt⟩ :=
            ih rest.length (by simp) (fun q hq => h q (List.mem_cons_of_mem _ hq)) rfl
          rw [apart_cons_iff hend]
          refine ⟨p.2 :: es, ?_, fun hapart => ?_, fun hapart => ?_⟩
          · rw [List.flatMap_cons, List.append_assoc]
            exact .cons (.none _) (hp.append _ hend) hforms
          · rw [heq hapart, List.map_cons]
          · simpa using hlt hapart
        -- The first two are atoms, and what is read is as if they were written as one.
        · obtain ⟨q, rest, rfl, hatom, hatom'⟩ := exists_atoms_of_not_end h hr hend
          have hone : Form (p.1 ++ q.1) (classify (p.1 ++ q.1)) [] :=
            form_of_isAtom (hatom.append hatom')
          have hmerged : ∀ p' ∈ (p.1 ++ q.1, classify (p.1 ++ q.1)) :: rest,
              Form p'.1 p'.2 [] :=
            List.forall_mem_cons.mpr ⟨hone, fun p' hp' => h p' (by simp [hp'])⟩
          obtain ⟨es, hforms, heq, hlt⟩ := ih (rest.length + 1) (by simp) hmerged rfl
          have hfewer : es.length ≤ rest.length + 1 := by
            by_cases hapart : Apart ((p.1 ++ q.1, classify (p.1 ++ q.1)) :: rest)
            · simp [heq hapart]
            · exact Nat.le_of_lt (by simpa using hlt hapart)
          refine ⟨es, ?_, fun hapart => ?_, fun _ => ?_⟩
          · simpa [List.flatMap_cons, List.append_assoc] using hforms
          · exact absurd ⟨hatom, hatom'⟩ (List.isChain_cons_cons.mp hapart).1
          · simp only [List.length_cons]
            omega

/-- Forms that are written next to each other are read one by one exactly if no two neighbours
are atoms. -/
theorem forms?_adjacent_iff {pieces : List (List Char × Expr)}
    (h : ∀ p ∈ pieces, Form p.1 p.2 []) {r : List Char} (hr : AtomEnd r)
    (hstop : Reader.forms? r = .ok ([], r)) :
    Reader.forms? (pieces.flatMap Prod.fst ++ r) = .ok (pieces.map Prod.snd, r) ↔
      Apart pieces := by
  obtain ⟨es, hforms, heq, hlt⟩ := exists_forms_adjacent h hr
  rw [forms?_of_forms hforms, hstop]
  simp only [Except.map, List.append_nil, Except.ok.injEq, Prod.mk.injEq, and_true]
  constructor
  · intro hes
    by_contra hapart
    have := hlt hapart
    rw [hes, List.length_map] at this
    exact Nat.lt_irrefl _ this
  · exact heq

theorem forms?_nil : Reader.forms? [] = .ok ([], []) :=
  forms?_of_end (.none []) (by simp [Reader.skipTrivia]) Reader.form?_nil

theorem forms?_close (r : List Char) : Reader.forms? (')' :: r) = .ok ([], ')' :: r) :=
  forms?_of_end (.none _) (skipTrivia_close r) (form?_close r)

/-- **What is read is what the grammar derives.** A text is read as a sequence of forms exactly
if it derives it, and it derives one at most. Between the forms of a program or of a list
nothing has to stand unless two neighbours are atoms. -/
theorem reads_what_derives :
    (∀ (source : String) (forms : List Expr),
      parse source = .ok forms ↔ Program source.toList forms) ∧
    (∀ (s : List Char) (forms forms' : List Expr),
      Program s forms → Program s forms' → forms = forms') ∧
    ∀ pieces : List (List Char × Expr), (∀ p ∈ pieces, Form p.1 p.2 []) →
      (Program (pieces.flatMap Prod.fst) (pieces.map Prod.snd) ↔ Apart pieces) ∧
      (Form ('(' :: (pieces.flatMap Prod.fst ++ [')'])) (.list (pieces.map Prod.snd)) [] ↔
        Apart pieces) := by
  refine ⟨fun source forms => parse_eq_ok_iff, fun s forms forms' h h' => ?_, fun pieces h => ?_⟩
  · rw [program_iff] at h h'
    exact (Prod.mk.inj (Except.ok.inj (h.symm.trans h'))).1
  · constructor
    · have hiff := forms?_adjacent_iff h atomEnd_nil forms?_nil
      rwa [List.append_nil, ← program_iff] at hiff
    · rw [list_iff]
      exact forms?_adjacent_iff h (atomEnd_cons (by decide) []) (forms?_close [])

/-- A list, a string and two atoms apart from each other, with nothing between them. -/
theorem reads_what_derives_adjacent :
    parse "a(b)\"c\"d" = .ok [.symbol "a", .list [.symbol "b"], .string "c", .symbol "d"] := by
  let pieces : List (List Char × Expr) :=
    [("a".toList, .symbol "a"), ("(b)".toList, .list [.symbol "b"]),
      ("\"c\"".toList, .string "c"), ("d".toList, .symbol "d")]
  have hforms : ∀ p ∈ pieces, Form p.1 p.2 [] := by
    intro p hp
    rw [form_iff]
    simp only [pieces, List.mem_cons, List.not_mem_nil, or_false] at hp
    rcases hp with rfl | rfl | rfl | rfl <;> cbv
  have hopen : ¬ IsAtom "(b)".toList := fun h => absurd (h.2 '(' (by simp)) (by decide)
  have hquote : ¬ IsAtom "\"c\"".toList := fun h => absurd (h.2 '"' (by simp)) (by decide)
  have hapart : Apart pieces :=
    .cons_cons (fun h => hopen h.2) (.cons_cons (fun h => hopen h.1)
      (.cons_cons (fun h => hquote h.1) (.singleton _)))
  obtain ⟨hread, -, hadjacent⟩ := reads_what_derives
  exact (hread _ _).mpr ((hadjacent pieces hforms).1.mpr hapart)

end ModularLisp.Grammar
