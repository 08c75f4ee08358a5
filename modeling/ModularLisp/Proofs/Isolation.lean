import ModularLisp.Proofs.Similarity

/-!
# ModularLisp.Proofs.Isolation

**Lexical isolation.** What an evaluation comes to depends on nothing but what can be reached
from the expression and the scope: through the scopes around, the values that names are bound
to, and the scopes that closures in them have captured (`Reaches`). If a renaming of scopes
makes two such surroundings the same (`Renames`), evaluation does the same in both, up to the
identities of scopes, whatever else the two stores hold.

So the body of a closure does not see the bindings of its callers, and a file that is
imported does not see the scope that it is imported into: nothing can be reached from it.
-/

namespace ModularLisp

/-! ### What can be reached -/

/-- A closure in the expression has captured the scope. -/
inductive Expr.Captures : Expr → ScopeId → Prop
  | here (params : List String) (body : Expr) (scope : ScopeId) :
      Captures (.closure params body scope) scope
  | body (params : List String) {body : Expr} (scope : ScopeId) {c : ScopeId} :
      Captures body c → Captures (.closure params body scope) c
  | item {items : List Expr} {e : Expr} {c : ScopeId} :
      e ∈ items → Captures e c → Captures (.list items) c

/-- The scopes that can be reached from an expression and the scope it is evaluated in. -/
inductive Reaches (st : Store) (e : Expr) (scope : ScopeId) : ScopeId → Prop
  | here : Reaches st e scope scope
  | captured {c : ScopeId} : e.Captures c → Reaches st e scope c
  | outer {a o : ScopeId} {s : Scope} :
      Reaches st e scope a → st.get? a = some s → s.outer = some o → Reaches st e scope o
  | bound {a c : ScopeId} {s : Scope} {name : String} {v : Expr} :
      Reaches st e scope a → st.get? a = some s → s.get? name = some v → v.Captures c →
        Reaches st e scope c

/-- Only the scopes that are captured need to be related. -/
theorem Carries.restrict {rel : ScopeId → ScopeId → Prop} {names : String → Prop}
    {P Q : ScopeId → Prop} {e f : Expr} (h : Carries rel names e f)
    (he : ∀ c, e.Captures c → P c) (hf : ∀ c, f.Captures c → Q c) :
    Carries (fun a b => rel a b ∧ P a ∧ Q b) names e f := by
  induction h with
  | symbol hname => exact .symbol hname
  | number value => exact .number value
  | string content => exact .string content
  | list hlen _ ih =>
      refine .list hlen fun e f hef => ih e f hef ?_ ?_
      · exact fun c hc => he c (.item (List.of_mem_zip hef).1 hc)
      · exact fun c hc => hf c (.item (List.of_mem_zip hef).2 hc)
  | closure _ hscope ih =>
      refine .closure (ih ?_ ?_) ⟨hscope, he _ (.here _ _ _), hf _ (.here _ _ _)⟩
      · exact fun c hc => he c (.body _ _ hc)
      · exact fun c hc => hf c (.body _ _ hc)

/-! ### Renamings of what can be reached -/

/-- The relation `rel` renames what can be reached from `e₁` and `a₁` in the state `m₁` to
what can be reached from `e₂` and `a₂` in `m₂`: it is one-to-one, relates the scopes, carries
the expressions, and where it relates scopes that can be reached, the scopes correspond. Their
exports may differ, and so may everything else. -/
structure Renames (rel : ScopeId → ScopeId → Prop) (m₁ : Machine) (e₁ : Expr) (a₁ : ScopeId)
    (m₂ : Machine) (e₂ : Expr) (a₂ : ScopeId) : Prop where
  loading : m₁.loading = m₂.loading
  one_to_one : ∀ {a b a' b'}, rel a b → rel a' b' → (a = a' ↔ b = b')
  scope : rel a₁ a₂
  expression : Carries rel anyName e₁ e₂
  scopes : ∀ {a b}, rel a b → Reaches m₁.store e₁ a₁ a → Reaches m₂.store e₂ a₂ b →
    ∃ s t, m₁.store.get? a = some s ∧ m₂.store.get? b = some t ∧
      Scope.Corresponds rel anyName a b s t

theorem ScopeId.ne_add {a : ScopeId} {i : Nat} (h : a.index < i) (k : Nat) : a ≠ ⟨i + k⟩ := by
  intro ha
  rw [ha] at h
  exact absurd h (Nat.not_lt.mpr (Nat.le_add_right i k))

/-- The renaming `old` between scopes of two states, and between the scopes that are made
from these states on, in the order in which they are made. -/
def Renaming.extend (old : ScopeId → ScopeId → Prop) (m₁ m₂ : Machine)
    (hold : ∀ a b, old a b →
      a.index < m₁.store.nextId.index ∧ b.index < m₂.store.nextId.index)
    (hone : ∀ a b a' b', old a b → old a' b' → (a = a' ↔ b = b')) : Renaming where
  rel a b := old a b ∨
    ∃ k, a = ⟨m₁.store.nextId.index + k⟩ ∧ b = ⟨m₂.store.nextId.index + k⟩
  names := anyName
  exporting a := m₁.store.nextId.index ≤ a.index
  left := m₁.store.nextId.index
  right := m₂.store.nextId.index
  made k := Or.inr ⟨k, rfl, rfl⟩
  made_exporting k := Nat.le_add_right _ k
  old_or_made h := h.imp_left (hold _ _)
  one_to_one := by
    intro a b a' b' h h'
    rcases h with h | ⟨k, rfl, rfl⟩
    · rcases h' with h' | ⟨k', rfl, rfl⟩
      · exact hone _ _ _ _ h h'
      · obtain ⟨ha, hb⟩ := hold _ _ h
        exact iff_of_false (ScopeId.ne_add ha k') (ScopeId.ne_add hb k')
    · rcases h' with h' | ⟨k', rfl, rfl⟩
      · obtain ⟨ha, hb⟩ := hold _ _ h'
        exact iff_of_false (ScopeId.ne_add ha k).symm (ScopeId.ne_add hb k).symm
      · simp only [ScopeId.mk.injEq, Nat.add_left_cancel_iff]

/-- Two states match if the scopes that are related correspond; those to be made do not exist
yet. -/
theorem Renaming.matches_extend {old : ScopeId → ScopeId → Prop} {m₁ m₂ : Machine}
    (hold : ∀ a b, old a b →
      a.index < m₁.store.nextId.index ∧ b.index < m₂.store.nextId.index)
    (hone : ∀ a b a' b', old a b → old a' b' → (a = a' ↔ b = b'))
    (hloading : m₁.loading = m₂.loading)
    (hscopes : ∀ a b, old a b → ∃ s t, m₁.store.get? a = some s ∧ m₂.store.get? b = some t ∧
      Scope.Corresponds old anyName a b s t) :
    (extend old m₁ m₂ hold hone).Matches m₁ m₂ := by
  refine ⟨hloading, ⟨0, rfl, rfl⟩, fun {a b} hab => ?_⟩
  rcases hab with hab | ⟨k, rfl, rfl⟩
  · obtain ⟨s, t, hs, ht, hst⟩ := hscopes _ _ hab
    rw [hs, ht]
    have hlt := (hold _ _ hab).1
    refine .some ⟨hst.mono fun a b hab => Or.inl hab, fun hexporting => ?_, fun hmade => ?_⟩
    · exact absurd hlt (Nat.not_lt.mpr hexporting)
    · obtain ⟨k, rfl, -⟩ := hmade
      exact absurd hlt (Nat.not_lt.mpr (Nat.le_add_right _ k))
  · rw [Store.get?_of_le (Nat.le_add_right _ k), Store.get?_of_le (Nat.le_add_right _ k)]
    exact .none

namespace Renames

variable {rel : ScopeId → ScopeId → Prop} {m₁ m₂ : Machine} {e₁ e₂ : Expr} {a₁ a₂ : ScopeId}

/-- Scopes that are related and can be reached. -/
def Reached (rel : ScopeId → ScopeId → Prop) (m₁ : Machine) (e₁ : Expr) (a₁ : ScopeId)
    (m₂ : Machine) (e₂ : Expr) (a₂ : ScopeId) (a b : ScopeId) : Prop :=
  rel a b ∧ Reaches m₁.store e₁ a₁ a ∧ Reaches m₂.store e₂ a₂ b

theorem reached_scopes (h : Renames rel m₁ e₁ a₁ m₂ e₂ a₂) {a b : ScopeId}
    (hab : Reached rel m₁ e₁ a₁ m₂ e₂ a₂ a b) :
    ∃ s t, m₁.store.get? a = some s ∧ m₂.store.get? b = some t ∧
      Scope.Corresponds (Reached rel m₁ e₁ a₁ m₂ e₂ a₂) anyName a b s t := by
  obtain ⟨hrel, hreach₁, hreach₂⟩ := hab
  obtain ⟨s, t, hs, ht, hst⟩ := h.scopes hrel hreach₁ hreach₂
  refine ⟨s, t, hs, ht, fun name hname => ?_, ?_⟩
  · refine optionRel_imp (fun v w hv hw hvw => ?_) (hst.bindings name hname)
    refine hvw.restrict ?_ ?_
    · exact fun c hc => .bound hreach₁ hs hv hc
    · exact fun c hc => .bound hreach₂ ht hw hc
  · refine optionRel_imp (fun o p ho hp hop => ?_) hst.outer
    exact ⟨⟨hop.1, .outer hreach₁ hs ho, .outer hreach₂ ht hp⟩, hop.2⟩

/-- The renaming of what can be reached and of what is made. -/
def extended (h : Renames rel m₁ e₁ a₁ m₂ e₂ a₂) : Renaming :=
  .extend (Reached rel m₁ e₁ a₁ m₂ e₂ a₂) m₁ m₂
    (fun _ _ hab => by
      obtain ⟨s, t, hs, ht, -⟩ := h.reached_scopes hab
      exact ⟨Store.index_lt_of_get? hs, Store.index_lt_of_get? ht⟩)
    (fun _ _ _ _ hab hab' => h.one_to_one hab.1 hab'.1)

theorem matches_extended (h : Renames rel m₁ e₁ a₁ m₂ e₂ a₂) : h.extended.Matches m₁ m₂ :=
  Renaming.matches_extend _ _ h.loading fun _ _ hab => h.reached_scopes hab

theorem rel_extended (h : Renames rel m₁ e₁ a₁ m₂ e₂ a₂) : h.extended.rel a₁ a₂ :=
  Or.inl ⟨h.scope, .here, .here⟩

theorem carries_extended (h : Renames rel m₁ e₁ a₁ m₂ e₂ a₂) : h.extended.Carries e₁ e₂ :=
  (h.expression.restrict (fun _ hc => Reaches.captured hc) fun _ hc => Reaches.captured hc).mono
    fun _ _ hab => Or.inl hab

end Renames

/-! ### Isolation -/

namespace Eval

open Files (FileSystem)

variable {files : FileSystem}

/-- Both runs end or neither does; and if they end, their results agree, as `Q` relates
values, and the states they leave are related by `S`. -/
structure SameOutcome {ε α β : Type} (files : FileSystem) (x : Evaluator → Run ε α) (m₁ : Machine)
    (y : Evaluator → Run ε β) (m₂ : Machine) (Q : α → β → Prop)
    (S : Machine → Machine → Prop) : Prop where
  both : (∃ r m', Ends files x m₁ r m') ↔ ∃ r m', Ends files y m₂ r m'
  agree : ∀ r₁ m₁' r₂ m₂', Ends files x m₁ r₁ m₁' → Ends files y m₂ r₂ m₂' →
    Renaming.Agree Q r₁ r₂ ∧ S m₁' m₂'

/-- Runs that are similar with any amount of fuel have the same outcome. -/
theorem sameOutcome_of_similar {ε α β : Type} {ρ : Renaming} {Q : α → β → Prop}
    {x : Evaluator → Run ε α} {y : Evaluator → Run ε β} (hy : Steady y)
    (h : ∀ fuel, ρ.Similar (x (eval files fuel)) (y (eval files fuel)) Q) {m₁ m₂ : Machine}
    (hm : ρ.Matches m₁ m₂) : SameOutcome files x m₁ y m₂ Q ρ.Matches := by
  refine ⟨⟨?_, ?_⟩, ?_⟩
  · intro hends
    obtain ⟨r, m', fuel, hx⟩ := hends
    have hsim := h fuel m₁ m₂ hm
    rw [hx] at hsim
    obtain ⟨p, hp, -⟩ := exists_of_optionRel_some hsim
    exact ⟨p.1, p.2, fuel, hp⟩
  · intro hends
    obtain ⟨r, m', fuel, hy⟩ := hends
    have hsim := h fuel m₁ m₂ hm
    rw [hy] at hsim
    obtain ⟨o, ho, -⟩ := exists_of_optionRel_some (optionRel_flip (fun _ _ hop => hop) hsim)
    exact ⟨o.1, o.2, fuel, ho⟩
  · intro r₁ m₁' r₂ m₂' h₁ h₂
    obtain ⟨fuel, h₁⟩ := h₁
    have hsim := h fuel m₁ m₂ hm
    rw [h₁] at hsim
    obtain ⟨p, hp, hop⟩ := exists_of_optionRel_some hsim
    obtain ⟨rfl, rfl⟩ := Ends.unique hy ⟨fuel, hp⟩ h₂
    exact hop

/-- The renaming of the scopes that two runs make, and of no others. -/
def newScopes (m₁ m₂ : Machine) : Renaming :=
  .extend (fun _ _ => False) m₁ m₂ (fun _ _ h => h.elim) fun _ _ _ _ h => h.elim

/-- **Lexical isolation.** If a renaming makes what can be reached in one state the same as
what can be reached in another, evaluating an expression has the same outcome in both: both
end or neither does, they fail with the same error or give the same value under the renaming
extended to the scopes made on the way, and so do the states they leave. The same is true of
applying a closure, for what can be reached from the closure and the arguments; its caller
does not matter. And a file that is imported exports the same, or fails with the same error,
in any two states in which the same files are being loaded. -/
theorem lexical_isolation (files : FileSystem) :
    (∀ rel m₁ e₁ a₁ m₂ e₂ a₂ (h : Renames rel m₁ e₁ a₁ m₂ e₂ a₂),
      SameOutcome files (fun ev => ev e₁ a₁) m₁ (fun ev => ev e₂ a₂) m₂
        h.extended.Carries h.extended.Matches) ∧
    (∀ rel m₁ params body₁ c₁ vs m₂ body₂ c₂ ws
      (h : Renames rel m₁ (.list (.closure params body₁ c₁ :: vs)) c₁
        m₂ (.list (.closure params body₂ c₂ :: ws)) c₂),
      SameOutcome files (fun ev => apply ev params body₁ c₁ vs) m₁
        (fun ev => apply ev params body₂ c₂ ws) m₂ h.extended.Carries h.extended.Matches) ∧
    (∀ path m₁ m₂, m₁.loading = m₂.loading →
      SameOutcome files (fun ev => importExports files ev path) m₁
        (fun ev => importExports files ev path) m₂
        (List.Forall₂ fun b c => b.1 = c.1 ∧ (newScopes m₁ m₂).Carries b.2 c.2)
        (newScopes m₁ m₂).Matches) := by
  have hfiles : ∀ path forms, fileForms files path = .ok forms →
      ∀ e ∈ forms, e.Plain anyName := fun _ _ h => plain_of_fileForms h
  refine ⟨?_, ?_, ?_⟩
  · intro rel m₁ e₁ a₁ m₂ e₂ a₂ h
    refine sameOutcome_of_similar (steady_eval e₂ a₂) (fun fuel => ?_) h.matches_extended
    exact eval_similar hfiles fuel h.carries_extended h.rel_extended
  · intro rel m₁ params body₁ c₁ vs m₂ body₂ c₂ ws h
    refine sameOutcome_of_similar (steady_apply params body₂ c₂ ws) (fun fuel => ?_)
      h.matches_extended
    cases Carries.list_iff.mp h.carries_extended with
    | cons hclosure hvw =>
        cases hclosure with
        | closure hbody hcaptured =>
            exact similar_apply (fun he hab => eval_similar hfiles fuel he hab) params hbody
              hcaptured hvw
  · intro path m₁ m₂ hloading
    have hm : (newScopes m₁ m₂).Matches m₁ m₂ :=
      Renaming.matches_extend _ _ hloading fun _ _ h => h.elim
    refine sameOutcome_of_similar (steady_importExports files path) (fun fuel => ?_) hm
    refine (similar_importExports (fun he hab => eval_similar hfiles fuel he hab) hfiles
      path).mono fun bs cs hbc => ?_
    exact hbc.imp fun b c h => ⟨h.1, h.2 trivial⟩

/-- A closure that is bound in the scope it has captured, called in a store with nothing else
in it and in one where another scope binds and exports the same name. -/
theorem lexical_isolation_selfReference :
    let self (i : Nat) : Scope := (Scope.empty none).define "x" (.closure [] (.symbol "x") ⟨i⟩)
    let m₁ : Machine := ⟨Store.empty.add (self 0), []⟩
    let m₂ : Machine := ⟨(Store.empty.add ⟨[("x", .string "other")], ["x"], none⟩).add (self 1), []⟩
    let e : Expr := .list [.symbol "x"]
    ∃ h : Renames (fun a b => a = ⟨0⟩ ∧ b = ⟨1⟩) m₁ e ⟨0⟩ m₂ e ⟨1⟩,
      SameOutcome ⟨[], []⟩ (fun ev => ev e ⟨0⟩) m₁ (fun ev => ev e ⟨1⟩) m₂
        h.extended.Carries h.extended.Matches := by
  intro self m₁ m₂ e
  have h : Renames (fun a b => a = ⟨0⟩ ∧ b = ⟨1⟩) m₁ e ⟨0⟩ m₂ e ⟨1⟩ := by
    refine ⟨rfl, ?_, ⟨rfl, rfl⟩, Carries.list_iff.mpr (.cons (.symbol trivial) .nil), ?_⟩
    · rintro a b a' b' ⟨rfl, rfl⟩ ⟨rfl, rfl⟩
      simp
    · rintro a b ⟨rfl, rfl⟩ - -
      have hempty : Scope.Corresponds (fun a b => a = ⟨0⟩ ∧ b = ⟨1⟩) anyName ⟨0⟩ ⟨1⟩
          (.empty none) (.empty none) := ⟨fun _ _ => .none, .none⟩
      refine ⟨self 0, self 1, rfl, rfl, hempty.define "x" fun _ => ?_⟩
      exact .closure (.symbol trivial) ⟨rfl, rfl⟩
  exact ⟨h, (lexical_isolation ⟨[], []⟩).1 _ _ _ _ _ _ _ h⟩

end Eval

end ModularLisp
