import Mathlib.Data.List.Forall2
import ModularLisp.Proofs.PlainForms

/-!
# ModularLisp.Proofs.Renaming

**Renaming scopes.** Two runs that do the same may give their scopes different identities.
A relation `rel` between the scopes of one store and those of another says which scopes
stand for each other; expressions are *carried* by it if they differ only in the scopes
that closures have captured, and scopes *correspond* if they bind the names in view to
values that are carried and lie in scopes that are related.

Nothing that a program can see tells carried expressions apart: they have the same texts,
so errors speak of them in the same words, and looking up a name in related scopes gives
carried values (`Store.lookup_carried`).
-/

namespace ModularLisp

variable {rel : ScopeId → ScopeId → Prop} {names : String → Prop}

/-! ### Carried expressions -/

/-- The two expressions are the same except for the scopes that closures in them have
captured, which are related; and their symbols are in view. -/
inductive Carries (rel : ScopeId → ScopeId → Prop) (names : String → Prop) : Expr → Expr → Prop
  | symbol {name : String} : names name → Carries rel names (.symbol name) (.symbol name)
  | number (value : Number) : Carries rel names (.number value) (.number value)
  | string (content : String) : Carries rel names (.string content) (.string content)
  | list {es fs : List Expr} : es.length = fs.length →
      (∀ e f, (e, f) ∈ es.zip fs → Carries rel names e f) → Carries rel names (.list es) (.list fs)
  | closure {params : List String} {body body' : Expr} {scope scope' : ScopeId} :
      Carries rel names body body' → rel scope scope' →
        Carries rel names (.closure params body scope) (.closure params body' scope')

namespace Carries

theorem list_iff {es fs : List Expr} :
    Carries rel names (.list es) (.list fs) ↔ List.Forall₂ (Carries rel names) es fs := by
  rw [List.forall₂_iff_zip]
  constructor
  · intro h
    cases h with
    | list hlen hitems => exact ⟨hlen, fun {e f} hef => hitems e f hef⟩
  · intro h
    exact .list h.1 fun e f hef => h.2 hef

/-- More scopes may be related. -/
theorem mono {rel' : ScopeId → ScopeId → Prop} (hrel : ∀ a b, rel a b → rel' a b) {e f : Expr}
    (h : Carries rel names e f) : Carries rel' names e f := by
  induction h with
  | symbol hname => exact .symbol hname
  | number value => exact .number value
  | string content => exact .string content
  | list hlen _ ih => exact .list hlen ih
  | closure _ hscope ih => exact .closure ih (hrel _ _ hscope)

/-- A plain expression stands for itself in any two stores. -/
theorem of_plain {e : Expr} (h : e.Plain names) : Carries rel names e e := by
  induction h with
  | symbol hname => exact .symbol hname
  | number value => exact .number value
  | string content => exact .string content
  | list _ ih =>
      refine list_iff.mpr (List.forall₂_same.mpr fun e he => ?_)
      exact ih e he

theorem empty : Carries rel names .empty .empty :=
  list_iff.mpr .nil

theorem isTrue_eq {e f : Expr} (h : Carries rel names e f) : e.isTrue = f.isTrue := by
  cases h <;> rfl

theorem keyword?_eq {e f : Expr} (h : Carries rel names e f) :
    Eval.keyword? e = Eval.keyword? f := by
  cases h <;> rfl

end Carries

/-! ### Texts -/

theorem Expr.itemChars_congr {es fs : List Expr}
    (h : List.Forall₂ (fun e f => e.chars = f.chars) es fs) : itemChars es = itemChars fs := by
  induction h with
  | nil => rfl
  | cons he hes ih =>
      cases hes with
      | nil => exact he
      | cons _ _ =>
          simp only [itemChars] at ih ⊢
          rw [he, ih]

namespace Carries

theorem chars_eq {e f : Expr} (h : Carries rel names e f) : e.chars = f.chars := by
  induction h with
  | symbol | number | string | closure => rfl
  | list hlen _ ih =>
      have hitems := Expr.itemChars_congr
        (List.forall₂_iff_zip.mpr ⟨hlen, fun {e f} hef => ih e f hef⟩)
      show '(' :: Expr.itemChars _ ++ [')'] = '(' :: Expr.itemChars _ ++ [')']
      rw [hitems]

theorem text_eq {e f : Expr} (h : Carries rel names e f) : e.text = f.text := by
  rw [Expr.text, Expr.text, h.chars_eq]

/-- Errors speak of carried expressions in the same words. -/
theorem description_eq {e f : Expr} (h : Carries rel names e f) :
    e.description = f.description := by
  have hkind : e.kind = f.kind := by cases h <;> rfl
  rw [Expr.description, Expr.description, hkind, h.text_eq]

end Carries

/-! ### Corresponding scopes -/

theorem optionRel_imp {α β : Type} {r r' : α → β → Prop} {o : Option α} {p : Option β}
    (h : ∀ a b, o = some a → p = some b → r a b → r' a b) (ho : Option.Rel r o p) :
    Option.Rel r' o p := by
  cases ho with
  | none => exact .none
  | some hab => exact .some (h _ _ rfl rfl hab)

theorem optionRel_map {α β α' β' : Type} {r : α → β → Prop} {r' : α' → β' → Prop}
    {f : α → α'} {g : β → β'} (h : ∀ a b, r a b → r' (f a) (g b)) {o : Option α} {p : Option β}
    (ho : Option.Rel r o p) : Option.Rel r' (o.map f) (p.map g) := by
  cases ho with
  | none => exact .none
  | some hab => exact .some (h _ _ hab)

theorem optionRel_flip {α β : Type} {r : α → β → Prop} {r' : β → α → Prop}
    (h : ∀ a b, r a b → r' b a) {o : Option α} {p : Option β} (ho : Option.Rel r o p) :
    Option.Rel r' p o := by
  cases ho with
  | none => exact .none
  | some hab => exact .some (h _ _ hab)

theorem optionRel_comp {α β γ : Type} {r : α → β → Prop} {r' : β → γ → Prop} {r'' : α → γ → Prop}
    (h : ∀ a b c, r a b → r' b c → r'' a c) {o : Option α} {p : Option β} {q : Option γ}
    (hop : Option.Rel r o p) (hpq : Option.Rel r' p q) : Option.Rel r'' o q := by
  cases hop with
  | none =>
      cases hpq with
      | none => exact .none
  | some hab =>
      cases hpq with
      | some hbc => exact .some (h _ _ _ hab hbc)

theorem exists_of_optionRel_some {α β : Type} {r : α → β → Prop} {a : α} {p : Option β}
    (h : Option.Rel r (some a) p) : ∃ b, p = some b ∧ r a b := by
  cases h with
  | some hab => exact ⟨_, rfl, hab⟩

/-- The scope `s` of identity `a` and the scope `t` of identity `b` bind the names in view
to carried values, and lie in related scopes, which are older than they are in both stores
or in none. -/
structure Scope.Corresponds (rel : ScopeId → ScopeId → Prop) (names : String → Prop)
    (a b : ScopeId) (s t : Scope) : Prop where
  bindings : ∀ name, names name → Option.Rel (Carries rel names) (s.get? name) (t.get? name)
  outer : Option.Rel (fun o p => rel o p ∧ (o.index < a.index ↔ p.index < b.index))
    s.outer t.outer

namespace Scope.Corresponds

variable {a b : ScopeId} {s t : Scope}

theorem mono {rel' : ScopeId → ScopeId → Prop} (hrel : ∀ a b, rel a b → rel' a b)
    (h : Corresponds rel names a b s t) : Corresponds rel' names a b s t := by
  refine ⟨fun name hname => ?_, ?_⟩
  · exact optionRel_imp (fun v w _ _ hv => hv.mono hrel) (h.bindings name hname)
  · exact optionRel_imp (fun o p _ _ ho => ⟨hrel _ _ ho.1, ho.2⟩) h.outer

theorem define (h : Corresponds rel names a b s t) (name : String) {v w : Expr}
    (hv : names name → Carries rel names v w) :
    Corresponds rel names a b (s.define name v) (t.define name w) := by
  refine ⟨fun n hn => ?_, h.outer⟩
  rw [Scope.get?_define, Scope.get?_define]
  by_cases heq : n = name
  · subst heq
    rw [if_pos rfl, if_pos rfl]
    exact .some (hv hn)
  · rw [if_neg heq, if_neg heq]
    exact h.bindings n hn

/-- Bindings of the same names, to carried values where the names are in view. -/
def Bindings (rel : ScopeId → ScopeId → Prop) (names : String → Prop) :
    List (String × Expr) → List (String × Expr) → Prop :=
  List.Forall₂ fun b c => b.1 = c.1 ∧ (names b.1 → Carries rel names b.2 c.2)

theorem defineAll {bs cs : List (String × Expr)} (hbc : Bindings rel names bs cs)
    (h : Corresponds rel names a b s t) :
    Corresponds rel names a b (s.defineAll bs) (t.defineAll cs) := by
  induction hbc generalizing s t with
  | nil => exact h
  | @cons b' c' bs cs hhead _ ih =>
      rw [Scope.defineAll_cons, Scope.defineAll_cons, ← hhead.1]
      exact ih (h.define b'.1 hhead.2)

theorem markExported (h : Corresponds rel names a b s t) (name : String) :
    Corresponds rel names a b (s.markExported name) (t.markExported name) := by
  refine ⟨fun n hn => ?_, ?_⟩
  · rw [Scope.get?_markExported, Scope.get?_markExported]
    exact h.bindings n hn
  · rw [Scope.outer_markExported, Scope.outer_markExported]
    exact h.outer

end Scope.Corresponds

/-- A name in view that is looked up in related scopes has carried values there, or none in
either. -/
theorem Store.lookup_carried {st₁ st₂ : Store}
    (hst : ∀ a b, rel a b →
      Option.Rel (Scope.Corresponds rel names a b) (st₁.get? a) (st₂.get? b))
    {a b : ScopeId} (hab : rel a b) {name : String} (hname : names name) :
    Option.Rel (Carries rel names) (st₁.lookup a name) (st₂.lookup b name) := by
  -- The scopes around are older as long as they are followed.
  induction hn : a.index using Nat.strongRecOn generalizing a b with
  | _ n ih =>
    subst hn
    unfold Store.lookup
    have hscopes := hst a b hab
    generalize st₁.get? a = s? at hscopes ⊢
    generalize st₂.get? b = t? at hscopes ⊢
    cases hscopes with
    | none => exact .none
    | @some s t h =>
        have hbound := h.bindings name hname
        simp only
        generalize s.get? name = v? at hbound ⊢
        generalize t.get? name = w? at hbound ⊢
        cases hbound with
        | some hv => exact .some hv
        | none =>
            have houter := h.outer
            simp only
            generalize s.outer = o? at houter ⊢
            generalize t.outer = p? at houter ⊢
            cases houter with
            | none => exact .none
            | @some o p hop =>
                simp only
                by_cases hlt : o.index < a.index
                · rw [if_pos hlt, if_pos (hop.2.mp hlt)]
                  exact ih _ hlt hop.1 rfl
                · rw [if_neg hlt, if_neg fun h => hlt (hop.2.mpr h)]
                  exact .none

end ModularLisp
