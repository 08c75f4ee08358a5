import ModularLisp.Proofs.Ends

/-!
# ModularLisp.Proofs.PlainForms

**Plain expressions** hold no closures, so they mean the same in every store. Everything
that is read from a text is plain, because the reader makes no closures
(`plain_of_parse`); closures come from evaluation only.
-/

namespace ModularLisp

/-- An expression without closures, whose symbols are among the names `names`. -/
inductive Expr.Plain (names : String → Prop) : Expr → Prop
  | symbol {name : String} : names name → Plain names (.symbol name)
  | number (value : Number) : Plain names (.number value)
  | string (content : String) : Plain names (.string content)
  | list {items : List Expr} : (∀ e ∈ items, Plain names e) → Plain names (.list items)

/-- Any name whatever. -/
def anyName : String → Prop := fun _ => True

namespace Reader

theorem plain_classify (atom : List Char) : (classify atom).Plain anyName := by
  unfold classify
  split
  · exact .number _
  · exact .symbol trivial

/-- What is read as one form is plain if the forms that are read from less text are. -/
theorem plain_of_form? {s rest : List Char} {e : Expr}
    (ih : ∀ r : List Char, r.length < s.length → ∀ es rest, forms? r = .ok (es, rest) →
      ∀ e ∈ es, e.Plain anyName)
    (h : form? s = .ok (e, rest)) : e.Plain anyName := by
  cases s with
  | nil =>
      rw [form?_nil] at h
      cases h
  | cons c r =>
      by_cases hopen : c = '('
      · subst hopen
        rw [form?_open] at h
        unfold closeList at h
        split at h
        · cases h
        · next items after hr =>
            obtain ⟨rfl, -⟩ := Prod.mk.inj (Except.ok.inj h)
            exact .list (ih r (by simp) _ _ hr)
        · cases h
      by_cases hquote : c = '"'
      · subst hquote
        rw [form?_quote] at h
        cases hr : readString r with
        | error stop =>
            rw [hr] at h
            cases h
        | ok p =>
            rw [hr] at h
            obtain ⟨rfl, -⟩ := Prod.mk.inj (Except.ok.inj h)
            exact .string _
      by_cases hatom : isAtomChar c = true
      · rw [form?_atom hatom] at h
        obtain ⟨rfl, -⟩ := Prod.mk.inj (Except.ok.inj h)
        exact plain_classify _
      · rw [form?_other (by simpa using hatom) hopen hquote] at h
        cases h

theorem plain_of_forms? {s rest : List Char} {es : List Expr} (h : forms? s = .ok (es, rest)) :
    ∀ e ∈ es, e.Plain anyName := by
  -- A form is shorter than the text it is read from, and what is inside it is shorter still.
  induction hn : s.length using Nat.strongRecOn generalizing s rest es with
  | _ n ih =>
    subst hn
    have hle := length_skipTrivia_le s
    rw [forms?_eq] at h
    split at h
    · obtain ⟨rfl, -⟩ := Prod.mk.inj (Except.ok.inj h)
      exact fun e he => absurd he List.not_mem_nil
    · cases h
    · next first after hfirst =>
        have hlt := length_lt_of_form? hfirst
        cases hafter : forms? after with
        | error bad =>
            rw [hafter] at h
            cases h
        | ok p =>
            rw [hafter] at h
            obtain ⟨rfl, -⟩ := Prod.mk.inj (Except.ok.inj h)
            intro e he
            rcases List.mem_cons.mp he with rfl | he
            · refine plain_of_form? (fun r hr es' rest' h' => ?_) hfirst
              exact ih _ (by omega) h' rfl
            · exact ih _ (by omega) hafter rfl e he

end Reader

theorem plain_of_parse {source : String} {forms : List Expr} (h : parse source = .ok forms) :
    ∀ e ∈ forms, e.Plain anyName := by
  unfold parse Reader.readProgram at h
  split at h
  · cases h
  · next hforms =>
      obtain rfl := Except.ok.inj h
      exact Reader.plain_of_forms? hforms
  · cases h

/-- The forms of a file are plain. -/
theorem Eval.plain_of_fileForms {files : Files.FileSystem} {path : String} {forms : List Expr}
    (h : fileForms files path = .ok forms) : ∀ e ∈ forms, e.Plain anyName := by
  obtain ⟨source, -, hsource⟩ := exists_parse_of_fileForms files h
  exact plain_of_parse hsource

end ModularLisp
