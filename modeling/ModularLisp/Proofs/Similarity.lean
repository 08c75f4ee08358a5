import ModularLisp.Proofs.Renaming

/-!
# ModularLisp.Proofs.Similarity

**Runs that do the same under different identities.** Two states *match* if their scopes
correspond under a renaming (`Renaming.Matches`), and two runs are *similar* if, started in
states that match, either both end or neither does, and if they end they fail with the same
error or give values that the renaming carries, and leave states that match
(`Renaming.Similar`).

The scopes that the two runs make are made in step, so which of them stand for each other is
known before they are made: a `Renaming` relates them from the start. That is why one renaming
serves a whole run, and similarity is closed under every rule of evaluation
(`eval_similar`).
-/

namespace ModularLisp

/-! ### Renamings -/

/-- A one-to-one way to match the scopes of two runs. -/
structure Renaming where
  /-- The scope on the left stands for the one on the right. -/
  rel : ScopeId → ScopeId → Prop
  /-- The names in view: what others are bound to does not matter. -/
  names : String → Prop
  /-- The scopes on the left whose exports matter. -/
  exporting : ScopeId → Prop
  /-- The index of the first scope that the run on the left makes. -/
  left : Nat
  /-- The index of the first scope that the run on the right makes. -/
  right : Nat
  one_to_one : ∀ {a b a' b'}, rel a b → rel a' b' → (a = a' ↔ b = b')
  made : ∀ k, rel ⟨left + k⟩ ⟨right + k⟩
  old_or_made : ∀ {a b}, rel a b → (a.index < left ∧ b.index < right) ∨
    ∃ k, a = ⟨left + k⟩ ∧ b = ⟨right + k⟩
  made_exporting : ∀ k, exporting ⟨left + k⟩

namespace Renaming

variable (ρ : Renaming)

/-- The two expressions are the same under the renaming. -/
def Carries : Expr → Expr → Prop :=
  ModularLisp.Carries ρ.rel ρ.names

/-- The two scopes are made in the two runs, one in step with the other. -/
def Made (a b : ScopeId) : Prop :=
  ∃ k, a = ⟨ρ.left + k⟩ ∧ b = ⟨ρ.right + k⟩

/-- The scopes `s` and `t`, which are related, are the same under the renaming. -/
structure Scopes (a b : ScopeId) (s t : Scope) : Prop
    extends Scope.Corresponds ρ.rel ρ.names a b s t where
  exports : ρ.exporting a → s.exports = t.exports
  exported : ρ.Made a b → ∀ name ∈ s.exports, ρ.names name

/-- The two states are the same under the renaming, as far as scopes are related. -/
structure Matches (m₁ m₂ : Machine) : Prop where
  loading : m₁.loading = m₂.loading
  made : ρ.Made m₁.store.nextId m₂.store.nextId
  scopes : ∀ {a b}, ρ.rel a b →
    Option.Rel (ρ.Scopes a b) (m₁.store.get? a) (m₂.store.get? b)

variable {ρ} {a b : ScopeId}

theorem Made.rel (h : ρ.Made a b) : ρ.rel a b := by
  obtain ⟨k, rfl, rfl⟩ := h
  exact ρ.made k

/-- Related scopes are both older than two scopes that are made in step, or both not. -/
theorem Made.older (h : ρ.Made a b) {o p : ScopeId} (hop : ρ.rel o p) :
    o.index < a.index ↔ p.index < b.index := by
  obtain ⟨k, rfl, rfl⟩ := h
  rcases ρ.old_or_made hop with ⟨ho, hp⟩ | ⟨j, rfl, rfl⟩
  · simp only
    omega
  · simp only
    omega

namespace Matches

variable {m₁ m₂ : Machine}

theorem modify (h : ρ.Matches m₁ m₂) (hab : ρ.rel a b) {f g : Scope → Scope}
    (hfg : ∀ s t, ρ.Scopes a b s t → ρ.Scopes a b (f s) (g t)) :
    ρ.Matches { m₁ with store := m₁.store.modify a f }
      { m₂ with store := m₂.store.modify b g } := by
  refine ⟨h.loading, ?_, ?_⟩
  · simp only [Store.nextId_modify]
    exact h.made
  · intro a' b' hab'
    rw [Store.get?_modify, Store.get?_modify]
    by_cases ha : a' = a
    · have hb : b' = b := (ρ.one_to_one hab' hab).mp ha
      subst ha hb
      rw [if_pos rfl, if_pos rfl]
      exact optionRel_map hfg (h.scopes hab')
    · have hb : b' ≠ b := fun hb => ha ((ρ.one_to_one hab' hab).mpr hb)
      rw [if_neg ha, if_neg hb]
      exact h.scopes hab'

theorem add (h : ρ.Matches m₁ m₂) {s t : Scope}
    (hst : ρ.Scopes m₁.store.nextId m₂.store.nextId s t) :
    ρ.Matches { m₁ with store := m₁.store.add s } { m₂ with store := m₂.store.add t } := by
  refine ⟨h.loading, ?_, ?_⟩
  · obtain ⟨k, h₁, h₂⟩ := h.made
    refine ⟨k + 1, ?_, ?_⟩
    · rw [Store.nextId_add, h₁, Nat.add_assoc]
    · rw [Store.nextId_add, h₂, Nat.add_assoc]
  · intro a b hab
    rw [Store.get?_add, Store.get?_add]
    by_cases ha : a = m₁.store.nextId
    · have hb : b = m₂.store.nextId := (ρ.one_to_one hab h.made.rel).mp ha
      subst ha hb
      rw [if_pos rfl, if_pos rfl]
      exact .some hst
    · have hb : b ≠ m₂.store.nextId := fun hb => ha ((ρ.one_to_one hab h.made.rel).mpr hb)
      rw [if_neg ha, if_neg hb]
      exact h.scopes hab

theorem withLoading (h : ρ.Matches m₁ m₂) (f : List Files.Path → List Files.Path) :
    ρ.Matches { m₁ with loading := f m₁.loading } { m₂ with loading := f m₂.loading } :=
  ⟨congrArg f h.loading, h.made, h.scopes⟩

theorem lookup (h : ρ.Matches m₁ m₂) (hab : ρ.rel a b) {name : String} (hname : ρ.names name) :
    Option.Rel ρ.Carries (m₁.store.lookup a name) (m₂.store.lookup b name) :=
  Store.lookup_carried (fun _ _ hab => optionRel_imp (fun _ _ _ _ hst => hst.toCorresponds)
    (h.scopes hab)) hab hname

end Matches

/-! ### Similar runs -/

/-- Two results are both the same error, or values that `Q` relates. -/
inductive Agree {ε α β : Type} (Q : α → β → Prop) : Except ε α → Except ε β → Prop
  | error (e : ε) : Agree Q (.error e) (.error e)
  | ok {v : α} {w : β} : Q v w → Agree Q (.ok v) (.ok w)

variable {ε δ α β α' β' : Type} {Q : α → β → Prop} {R : α' → β' → Prop}

theorem Agree.mapError {r₁ : Except ε α} {r₂ : Except ε β} (h : Agree Q r₁ r₂) (f : ε → δ) :
    Agree Q (r₁.mapError f) (r₂.mapError f) := by
  cases h with
  | error e => exact .error (f e)
  | ok h => exact .ok h

theorem Agree.mono {r₁ : Except ε α} {r₂ : Except ε β} (h : Agree Q r₁ r₂) {Q' : α → β → Prop}
    (hQ : ∀ v w, Q v w → Q' v w) : Agree Q' r₁ r₂ := by
  cases h with
  | error e => exact .error e
  | ok h => exact .ok (hQ _ _ h)

theorem Agree.mapM {f : δ → Except ε α} {g : δ → Except ε β} {ds : List δ}
    (h : ∀ d ∈ ds, Agree Q (f d) (g d)) : Agree (List.Forall₂ Q) (ds.mapM f) (ds.mapM g) := by
  induction ds with
  | nil => exact .ok .nil
  | cons d ds ih =>
      rw [List.forall_mem_cons] at h
      have hhead := h.1
      have htail := ih h.2
      rw [List.mapM_cons, List.mapM_cons]
      generalize f d = r₁ at hhead ⊢
      generalize g d = r₂ at hhead ⊢
      generalize ds.mapM f = rs₁ at htail ⊢
      generalize ds.mapM g = rs₂ at htail ⊢
      cases hhead with
      | error e => exact .error e
      | ok hvw =>
          cases htail with
          | error e => exact .error e
          | ok hvws => exact .ok (.cons hvw hvws)

/-- Started in states that match, both runs end or neither does; and then their results agree
and the states they leave match. -/
def Similar (ρ : Renaming) (x : Run ε α) (y : Run ε β) (Q : α → β → Prop) : Prop :=
  ∀ m₁ m₂, ρ.Matches m₁ m₂ →
    Option.Rel (fun o p => Agree Q o.1 p.1 ∧ ρ.Matches o.2 p.2) (x m₁) (y m₂)

namespace Similar

theorem ofExcept {r₁ : Except ε α} {r₂ : Except ε β} (h : Agree Q r₁ r₂) :
    ρ.Similar (Run.ofExcept r₁) (Run.ofExcept r₂) Q :=
  fun _ _ hm => .some ⟨h, hm⟩

theorem pure {v : α} {w : β} (h : Q v w) :
    ρ.Similar (Pure.pure v : Run ε α) (Pure.pure w) Q :=
  ofExcept (.ok h)

theorem fail (e : ε) : ρ.Similar (Run.fail e : Run ε α) (Run.fail e : Run ε β) Q :=
  ofExcept (.error e)

theorem mono {x : Run ε α} {y : Run ε β} (hxy : ρ.Similar x y Q) {Q' : α → β → Prop}
    (hQ : ∀ v w, Q v w → Q' v w) : ρ.Similar x y Q' := by
  intro m₁ m₂ hm
  refine optionRel_imp (fun o p _ _ hop => ⟨?_, hop.2⟩) (hxy m₁ m₂ hm)
  exact hop.1.mono hQ

theorem bind {x : Run ε α} {y : Run ε β} {f : α → Run ε α'} {g : β → Run ε β'}
    (hxy : ρ.Similar x y Q) (hfg : ∀ v w, Q v w → ρ.Similar (f v) (g w) R) :
    ρ.Similar (x >>= f) (y >>= g) R := by
  intro m₁ m₂ hm
  have h := hxy m₁ m₂ hm
  rw [Run.bind_apply, Run.bind_apply]
  generalize x m₁ = o at h ⊢
  generalize y m₂ = p at h ⊢
  cases h with
  | none => exact .none
  | @some o p h =>
      obtain ⟨r₁, m₁'⟩ := o
      obtain ⟨r₂, m₂'⟩ := p
      obtain ⟨hr, hm'⟩ := h
      cases hr with
      | error e => exact .some ⟨.error e, hm'⟩
      | ok hvw => exact hfg _ _ hvw m₁' m₂' hm'

theorem mapError {x : Run ε α} {y : Run ε β} (hxy : ρ.Similar x y Q) (f : ε → δ) :
    ρ.Similar (Run.mapError f x) (Run.mapError f y) Q := by
  intro m₁ m₂ hm
  have h := hxy m₁ m₂ hm
  unfold Run.mapError
  generalize x m₁ = o at h ⊢
  generalize y m₂ = p at h ⊢
  cases h with
  | none => exact .none
  | @some o p h =>
      obtain ⟨r₁, m₁'⟩ := o
      obtain ⟨r₂, m₂'⟩ := p
      obtain ⟨hr, hm'⟩ := h
      cases hr with
      | error e => exact .some ⟨.error (f e), hm'⟩
      | ok hvw => exact .some ⟨.ok hvw, hm'⟩

theorem malformed {e f : FormError} (h : e = f) :
    ρ.Similar (Eval.malformed e : Run _ α) (Eval.malformed f : Run _ β) Q := by
  rw [h]
  exact fail _

/-! ### The store -/

theorem lookup (hab : ρ.rel a b) {name : String} (hname : ρ.names name) :
    ρ.Similar (Run.lookup a name : Run ε _) (Run.lookup b name) (Option.Rel ρ.Carries) :=
  fun _ _ hm => .some ⟨.ok (hm.lookup hab hname), hm⟩

theorem define (hab : ρ.rel a b) {name : String} {v w : Expr}
    (hvw : ρ.names name → ρ.Carries v w) :
    ρ.Similar (Run.define a name v : Run ε _) (Run.define b name w) fun _ _ => True := by
  intro m₁ m₂ hm
  refine .some ⟨.ok trivial, hm.modify hab fun s t hst => ?_⟩
  exact ⟨hst.toCorresponds.define name hvw, hst.exports, hst.exported⟩

theorem defineAll (hab : ρ.rel a b) {bs cs : List (String × Expr)}
    (hbc : Scope.Corresponds.Bindings ρ.rel ρ.names bs cs) :
    ρ.Similar (Run.defineAll a bs : Run ε _) (Run.defineAll b cs) fun _ _ => True := by
  induction hbc with
  | nil => exact pure trivial
  | @cons c d bs cs hhead _ ih =>
      obtain ⟨name, v⟩ := c
      obtain ⟨name', w⟩ := d
      obtain ⟨rfl, hvw⟩ := hhead
      exact (define hab hvw).bind fun _ _ _ => ih

theorem markExported (hab : ρ.rel a b) {name : String} (hname : ρ.names name) :
    ρ.Similar (Run.markExported a name : Run ε _) (Run.markExported b name)
      fun _ _ => True := by
  intro m₁ m₂ hm
  refine .some ⟨.ok trivial, hm.modify hab fun s t hst => ⟨?_, fun he => ?_, fun hmade => ?_⟩⟩
  · exact hst.toCorresponds.markExported name
  · unfold Scope.markExported
    rw [← hst.exports he]
    split
    · exact hst.exports he
    · rfl
  · intro n hn
    rcases Scope.mem_exports_markExported.mp hn with hn | rfl
    · exact hst.exported hmade n hn
    · exact hname

theorem addScope {s t : Scope}
    (hst : ∀ a b, ρ.Made a b → ρ.Scopes a b s t) :
    ρ.Similar (Run.addScope s : Run ε _) (Run.addScope t) ρ.Made :=
  fun _ _ hm => .some ⟨.ok hm.made, hm.add (hst _ _ hm.made)⟩

/-- The exports of scopes made in step are the same names, with carried values, or lack the
same value. -/
theorem exportedBindings (hab : ρ.Made a b) :
    ρ.Similar (Run.exportedBindings a) (Run.exportedBindings b)
      (Scope.Corresponds.Bindings ρ.rel ρ.names) := by
  intro m₁ m₂ hm
  refine .some ⟨?_, hm⟩
  have hscopes := hm.scopes hab.rel
  unfold Store.exportedBindings
  generalize m₁.store.get? a = s? at hscopes ⊢
  generalize m₂.store.get? b = t? at hscopes ⊢
  cases hscopes with
  | none => exact .ok .nil
  | @some s t hst =>
      have hexporting : ρ.exporting a := by
        obtain ⟨k, rfl, -⟩ := hab
        exact ρ.made_exporting k
      have hexports : s.exports = t.exports := hst.exports hexporting
      simp only [Option.map_some, Option.getD_some, ← hexports]
      refine Agree.mapM fun name hname => ?_
      have hvalue := hm.lookup hab.rel (hst.exported hab name hname)
      generalize m₁.store.lookup a name = v? at hvalue ⊢
      generalize m₂.store.lookup b name = w? at hvalue ⊢
      cases hvalue with
      | none => exact .error name
      | some hvw => exact .ok ⟨rfl, fun _ => hvw⟩

end Similar

/-- The scope of a new program is the same whatever the renaming is. -/
theorem scopes_prelude (a b : ScopeId) :
    ρ.Scopes a b ((Scope.empty none).defineAll Store.preludeBindings)
      ((Scope.empty none).defineAll Store.preludeBindings) := by
  have hempty : Scope.Corresponds ρ.rel ρ.names a b (.empty none) (.empty none) :=
    ⟨fun _ _ => .none, .none⟩
  refine ⟨hempty.defineAll ?_, fun _ => rfl, fun _ name hname => ?_⟩
  · exact .cons ⟨rfl, .symbol⟩ (.cons ⟨rfl, .symbol⟩ .nil)
  · rw [Scope.exports_defineAll] at hname
    cases hname

/-- The scopes of two calls with carried arguments, inside related scopes. -/
theorem scopes_callScope (hab : ρ.Made a b) (params : List String) {captured captured' : ScopeId}
    (hcaptured : ρ.rel captured captured') {vs ws : List Expr}
    (hvw : List.Forall₂ ρ.Carries vs ws) :
    ρ.Scopes a b (Eval.callScope params captured vs) (Eval.callScope params captured' ws) := by
  have hempty : Scope.Corresponds ρ.rel ρ.names a b (.empty (some captured))
      (.empty (some captured')) :=
    ⟨fun _ _ => .none, .some ⟨hcaptured, hab.older hcaptured⟩⟩
  have hbindings : Scope.Corresponds.Bindings ρ.rel ρ.names (params.zip vs) (params.zip ws) := by
    induction hvw generalizing params with
    | nil =>
        rw [List.zip_nil_right]
        exact .nil
    | cons hv _ ih =>
        cases params with
        | nil => exact .nil
        | cons p params => exact .cons ⟨rfl, fun _ => hv⟩ (ih params)
  refine ⟨hempty.defineAll hbindings, fun _ => ?_, fun _ name hname => ?_⟩
  · rw [Eval.callScope, Eval.callScope, Scope.exports_defineAll, Scope.exports_defineAll]
    rfl
  · rw [Eval.callScope, Scope.exports_defineAll] at hname
    cases hname

end Renaming

namespace Eval

open Files (FileSystem)

variable {ρ : Renaming} {a b : ScopeId} {files : FileSystem} {ev : Evaluator}

/-! ### Forms without evaluation -/

theorem paramNames_eq {es fs : List Expr} (h : List.Forall₂ ρ.Carries es fs) :
    paramNames es = paramNames fs := by
  induction h with
  | nil => rfl
  | @cons e f es fs he _ ih =>
      have hdescription := he.description_eq
      cases he with
      | symbol =>
          rw [paramNames, paramNames, ih]
      | number | string => rfl
      | list | closure => exact congrArg (fun d => Except.error (FormError.fnParam d)) hdescription

theorem clauseError_eq {e f : Expr} (h : ρ.Carries e f) {index : Nat} :
    clauseError index e = clauseError index f := by
  have hdescription := h.description_eq
  have htext := h.text_eq
  cases h with
  | symbol | number | string => rfl
  | list => exact congrArg (FormError.casePair index) htext
  | closure => exact congrArg (FormError.caseClause index) hdescription

theorem clausePair?_carried {e f : Expr} (h : ρ.Carries e f) :
    Option.Rel (fun p q => ρ.Carries p.1 q.1 ∧ ρ.Carries p.2 q.2) (clausePair? e)
      (clausePair? f) := by
  cases h with
  | symbol | number | string | closure => exact .none
  | list hlen hitems =>
      cases Carries.list_iff.mp (.list hlen hitems) with
      | nil => exact .none
      | cons he hes =>
        cases hes with
        | nil => exact .none
        | cons he' hes =>
          cases hes with
          | nil => exact .some ⟨he, he'⟩
          | cons _ _ => exact .none

theorem similar_symbolValue (hab : ρ.rel a b) {name : String} (hname : ρ.names name) :
    ρ.Similar (symbolValue name a) (symbolValue name b) ρ.Carries := by
  refine (Renaming.Similar.lookup hab hname).bind fun v? w? hvw => ?_
  cases hvw with
  | none => exact .fail _
  | some hvw => exact .pure hvw

theorem similar_evalFn (hab : ρ.rel a b) {es fs : List Expr}
    (h : List.Forall₂ ρ.Carries es fs) : ρ.Similar (evalFn es a) (evalFn fs b) ρ.Carries := by
  cases h with
  | nil => exact .fail _
  | @cons e f es fs he hes =>
    cases hes with
    | nil => cases he <;> exact .fail _
    | @cons e' f' es fs he' hes =>
      cases hes with
      | cons _ hes =>
          have hlen := hes.length_eq
          cases he <;> exact .malformed (by simp [hlen])
      | nil =>
        have hdescription := he.description_eq
        cases he with
        | list hlen hitems =>
            have hparams := paramNames_eq (Carries.list_iff.mp (.list hlen hitems))
            simp only [evalFn, hparams]
            split
            · exact .pure (.closure he' hab)
            · exact .fail _
        | symbol | number | string => exact .fail _
        | closure => exact .malformed (congrArg FormError.fnParams hdescription)

theorem similar_evalLiteral {es fs : List Expr} (h : List.Forall₂ ρ.Carries es fs) :
    ρ.Similar (evalLiteral es) (evalLiteral fs) ρ.Carries := by
  cases h with
  | nil => exact .fail _
  | cons he hes =>
      cases hes with
      | nil => exact .pure he
      | cons _ hes => exact .malformed (by simp [hes.length_eq])

theorem similar_evalExport (hab : ρ.rel a b) {es fs : List Expr}
    (h : List.Forall₂ ρ.Carries es fs) :
    ρ.Similar (evalExport es a) (evalExport fs b) ρ.Carries := by
  cases h with
  | nil => exact .fail _
  | @cons e f es fs he hes =>
      cases hes with
      | cons _ hes =>
          have hlen := hes.length_eq
          cases he <;> exact .malformed (by simp [hlen])
      | nil =>
          have hdescription := he.description_eq
          cases he with
          | symbol hname =>
              exact (Renaming.Similar.markExported hab hname).bind fun _ _ _ => .pure .empty
          | number | string => exact .fail _
          | list | closure => exact .malformed (congrArg FormError.exportName hdescription)

/-! ### Evaluation of parts -/

section

variable (hev : ∀ {e f a b}, ρ.Carries e f → ρ.rel a b → ρ.Similar (ev e a) (ev f b) ρ.Carries)
include hev

theorem similar_evalAll (hab : ρ.rel a b) {es fs : List Expr}
    (h : List.Forall₂ ρ.Carries es fs) :
    ρ.Similar (evalAll ev a es) (evalAll ev b fs) (List.Forall₂ ρ.Carries) := by
  induction h with
  | nil => exact .pure .nil
  | cons he _ ih =>
      refine (hev he hab).bind fun v w hvw => ?_
      exact ih.bind fun vs ws hvws => .pure (.cons hvw hvws)

theorem similar_runForms (hab : ρ.rel a b) {es fs : List Expr}
    (h : List.Forall₂ ρ.Carries es fs) :
    ρ.Similar (runForms ev a es) (runForms ev b fs) (Option.Rel ρ.Carries) := by
  induction h with
  | nil => exact .pure .none
  | cons he hes ih =>
      cases hes with
      | nil => exact (hev he hab).bind fun v w hvw => .pure (.some hvw)
      | cons _ _ => exact (hev he hab).bind fun _ _ _ => ih

theorem similar_apply (params : List String) {body body' : Expr} (hbody : ρ.Carries body body')
    {captured captured' : ScopeId} (hcaptured : ρ.rel captured captured') {vs ws : List Expr}
    (hvw : List.Forall₂ ρ.Carries vs ws) :
    ρ.Similar (apply ev params body captured vs) (apply ev params body' captured' ws)
      ρ.Carries := by
  unfold apply
  rw [hvw.length_eq]
  split
  · refine (Renaming.Similar.addScope fun a b hab => ?_).bind fun a b hab => hev hbody hab.rel
    exact Renaming.scopes_callScope hab params hcaptured hvw
  · exact .fail _

theorem similar_application (hab : ρ.rel a b) {e f : Expr} (he : ρ.Carries e f)
    {es fs : List Expr} (h : List.Forall₂ ρ.Carries es fs) :
    ρ.Similar (application ev e es a) (application ev f fs b) ρ.Carries := by
  refine (hev he hab).bind fun v w hvw => ?_
  have herror : EvalError.notCallable e.text v.description =
      .notCallable f.text w.description := by rw [he.text_eq, hvw.description_eq]
  cases hvw with
  | closure hbody hcaptured =>
      exact (similar_evalAll hev hab h).bind fun vs ws hvws =>
        similar_apply hev _ hbody hcaptured hvws
  | symbol | number | string | list =>
      simp only [herror]
      exact .fail _

theorem similar_evalClauses (hab : ρ.rel a b) (whole : String) (index : Nat)
    {es fs : List Expr} (h : List.Forall₂ ρ.Carries es fs) :
    ρ.Similar (evalClauses ev whole a index es) (evalClauses ev whole b index fs)
      ρ.Carries := by
  induction h generalizing index with
  | nil => exact .fail _
  | @cons e f es fs he _ ih =>
      rw [evalClauses_cons, evalClauses_cons, clauseError_eq he]
      have hpairs := clausePair?_carried he
      generalize clausePair? e = p? at hpairs ⊢
      generalize clausePair? f = q? at hpairs ⊢
      cases hpairs with
      | none => exact .fail _
      | some hpair =>
          refine (hev hpair.1 hab).bind fun v w hvw => ?_
          rw [hvw.isTrue_eq]
          split
          · exact hev hpair.2 hab
          · exact ih (index + 1)

theorem similar_evalDef (hab : ρ.rel a b) {es fs : List Expr}
    (h : List.Forall₂ ρ.Carries es fs) :
    ρ.Similar (evalDef ev es a) (evalDef ev fs b) ρ.Carries := by
  cases h with
  | nil => exact .fail _
  | @cons e f es fs he hes =>
    cases hes with
    | nil => cases he <;> exact .fail _
    | @cons e' f' es fs he' hes =>
      cases hes with
      | cons _ hes =>
          have hlen := hes.length_eq
          cases he <;> exact .malformed (by simp [hlen])
      | nil =>
        have hdescription := he.description_eq
        cases he with
        | symbol hname =>
            refine (hev he' hab).bind fun v w hvw => ?_
            exact (Renaming.Similar.define hab fun _ => hvw).bind fun _ _ _ => .pure .empty
        | number | string => exact .fail _
        | list | closure => exact .malformed (congrArg FormError.defName hdescription)

/-! ### Programs -/

/-- A file is run in the same way on both sides, because its forms are plain. -/
theorem similar_withProgram
    (hfiles : ∀ path forms, fileForms files path = .ok forms → ∀ e ∈ forms, e.Plain ρ.names)
    {α β : Type} {Q : α → β → Prop} {g : ScopeId → Option Expr → α}
    {g' : ScopeId → Option Expr → β}
    (hg : ∀ a b v? w?, ρ.Made a b → Option.Rel ρ.Carries v? w? → Q (g a v?) (g' b w?))
    (path : String) :
    ρ.Similar (withProgram files path (runAs ev g)) (withProgram files path (runAs ev g')) Q := by
  intro m₁ m₂ hm
  rw [withProgram_runAs_apply, withProgram_runAs_apply, ← hm.loading]
  cases files.canonical? path with
  | error e => exact .some ⟨.error _, hm⟩
  | ok c =>
      simp only
      by_cases hmem : c ∈ m₁.loading
      · rw [if_pos hmem, if_pos hmem]
        exact .some ⟨.error _, hm⟩
      rw [if_neg hmem, if_neg hmem]
      cases hforms : fileForms files path with
      | error e => exact .some ⟨.error _, hm⟩
      | ok forms =>
          have hplain : List.Forall₂ ρ.Carries forms forms :=
            List.forall₂_same.mpr fun e he => Carries.of_plain (hfiles path forms hforms e he)
          have hstart : ρ.Matches (fileStart c m₁) (fileStart c m₂) :=
            (hm.withLoading (· ++ [c])).add (Renaming.scopes_prelude _ _)
          have hrun := similar_runForms hev hm.made.rel hplain _ _ hstart
          simp only
          refine optionRel_map (fun o p hop => ?_) hrun
          obtain ⟨r₁, m₁'⟩ := o
          obtain ⟨r₂, m₂'⟩ := p
          obtain ⟨hr, hm'⟩ := hop
          refine ⟨?_, hm'.withLoading List.dropLast⟩
          cases hr with
          | error e => exact .error _
          | ok hvw => exact .ok (hg _ _ _ _ hm.made hvw)

variable (hfiles : ∀ path forms, fileForms files path = .ok forms →
  ∀ e ∈ forms, e.Plain ρ.names)
include hfiles

theorem similar_loadProgram (path : String) :
    ρ.Similar (loadProgram files ev path) (loadProgram files ev path) ρ.Made :=
  similar_withProgram hev hfiles (fun _ _ _ _ hab _ => hab) path

theorem similar_importExports (path : String) :
    ρ.Similar (importExports files ev path) (importExports files ev path)
      (Scope.Corresponds.Bindings ρ.rel ρ.names) := by
  refine (similar_loadProgram hev hfiles path).bind fun a b hab => ?_
  exact (Renaming.Similar.exportedBindings hab).mapError _

theorem similar_evalImport (hab : ρ.rel a b) {es fs : List Expr}
    (h : List.Forall₂ ρ.Carries es fs) :
    ρ.Similar (evalImport files ev es a) (evalImport files ev fs b) ρ.Carries := by
  cases h with
  | nil => exact .fail _
  | cons he hes =>
      cases hes with
      | cons _ _ => cases he <;> exact .fail _
      | nil =>
          cases he with
          | string path =>
              refine ((similar_importExports hev hfiles path).mapError _).bind fun bs cs hbc => ?_
              exact (Renaming.Similar.defineAll hab hbc).bind fun _ _ _ => .pure .empty
          | symbol | number | list | closure => exact .fail _

/-! ### Evaluation -/

theorem similar_evalKeyword (k : Keyword) (hab : ρ.rel a b) {es fs : List Expr}
    (hkeyword : ρ.names k.name) (h : List.Forall₂ ρ.Carries es fs) :
    ρ.Similar (evalKeyword files ev k es a) (evalKeyword files ev k fs b) ρ.Carries := by
  cases k with
  | define => exact similar_evalDef hev hab h
  | function => exact similar_evalFn hab h
  | literal => exact similar_evalLiteral h
  | importing => exact similar_evalImport hev hfiles hab h
  | exporting => exact similar_evalExport hab h
  | case =>
      have hwhole : ρ.Carries (.list (.symbol Keyword.case.name :: es))
          (.list (.symbol Keyword.case.name :: fs)) :=
        Carries.list_iff.mpr (.cons (.symbol hkeyword) h)
      show ρ.Similar (evalCase ev es a) (evalCase ev fs b) ρ.Carries
      rw [evalCase, evalCase, hwhole.text_eq]
      exact similar_evalClauses hev hab _ 0 h

theorem similar_step {e f : Expr} (he : ρ.Carries e f) (hab : ρ.rel a b) :
    ρ.Similar (step files ev e a) (step files ev f b) ρ.Carries := by
  cases he with
  | symbol hname => exact similar_symbolValue hab hname
  | number value => exact .pure (.number value)
  | string content => exact .pure (.string content)
  | closure hbody hscope => exact .pure (.closure hbody hscope)
  | list hlen hitems =>
      cases Carries.list_iff.mp (.list hlen hitems) with
      | nil => exact .pure .empty
      | @cons e f es fs he hes =>
          cases hk : keyword? e with
          | none =>
              rw [step_application files ev hk,
                step_application files ev (he.keyword?_eq ▸ hk)]
              exact similar_application hev hab he hes
          | some k =>
              rw [step_form files ev hk, step_form files ev (he.keyword?_eq ▸ hk)]
              refine similar_evalKeyword hev hfiles k hab ?_ hes
              cases he with
              | symbol hname => exact Keyword.name_of_ofName? hk ▸ hname
              | number | string | list | closure => cases hk

end

/-- **Evaluation respects renaming.** Carried expressions, evaluated in related scopes of
states that match, do the same. -/
theorem eval_similar
    (hfiles : ∀ path forms, fileForms files path = .ok forms → ∀ e ∈ forms, e.Plain ρ.names)
    (fuel : Nat) {e f : Expr} (he : ρ.Carries e f) (hab : ρ.rel a b) :
    ρ.Similar (eval files fuel e a) (eval files fuel f b) ρ.Carries := by
  induction fuel generalizing e f a b with
  | zero => exact fun _ _ _ => .none
  | succ fuel ih => exact similar_step ih hfiles he hab

end Eval

end ModularLisp
