import ModularLisp.Proofs.HiddenNames
import ModularLisp.Proofs.RepeatedImport

/-!
# ModularLisp.Proofs.Unmentioned

**What nobody mentions has no influence.** The code that an evaluation may run is known before
it starts (`MayRun`): the expression, the bodies of closures that can be reached, and the forms
of files that such code imports. A name that none of it mentions may be bound to anything in any
scope, and the evaluation does the same: in the very same scopes if it is only bound
(`Unmentioned.sameOutcome`), and up to the identities of new scopes if other evaluations went
before, which have bound it and made scopes of their own (`Unmentioned.sameOutcome_gains`).

The second case is the first one after a renaming. Between the two states there is a third one,
which has the new scopes and the old bindings (`Machine.restored`): to the one side nothing
differs but the number of scopes, to the other side nothing but the values of hidden names.
-/

namespace ModularLisp

open Files (FileSystem)
open Eval

/-! ### The code of an evaluation -/

/-- What evaluating `e` in the scope may run: `e` itself, the body of a closure in a value that
can be reached under a name that is not hidden, and the forms of a file that such code
imports. -/
inductive MayRun (files : FileSystem) (hidden : String → Prop) (m : Machine) (e : Expr)
    (scope : ScopeId) : Expr → Prop
  | expression : MayRun files hidden m e scope e
  | body {a c : ScopeId} {s : Scope} {name : String} {v body : Expr} {params : List String} :
      Reaches m.store e scope a → m.store.get? a = some s → ¬ hidden name →
      s.get? name = some v → (Expr.closure params body c).OccursIn v →
      MayRun files hidden m e scope body
  | file {f g : Expr} {path : String} {forms : List Expr} : MayRun files hidden m e scope f →
      f.Imports path → fileForms files path = .ok forms → g ∈ forms →
      MayRun files hidden m e scope g

/-- No hidden name is mentioned in what may be run. It may be a parameter of a closure, or be a
symbol in a value. -/
def Unmentioned (files : FileSystem) (hidden : String → Prop) (m : Machine) (e : Expr)
    (scope : ScopeId) : Prop :=
  ∀ f, MayRun files hidden m e scope f → ∀ name, hidden name → ¬ f.Mentions name

/-- The view of an evaluation, where new scopes begin at `base`. -/
def View.around (files : FileSystem) (hidden : String → Prop) (m : Machine) (e : Expr)
    (scope : ScopeId) (base : Nat) : View where
  hidden := hidden
  live i := Reaches m.store e scope i ∨ base ≤ i.index
  loads path := ∃ f, MayRun files hidden m e scope f ∧ f.Imports path
  base := base
  live_new _ h := Or.inr h

variable {files : FileSystem} {hidden : String → Prop} {m n k k' n' : Machine} {e : Expr}
  {scope : ScopeId}

namespace Unmentioned

variable (h : Unmentioned files hidden m e scope) {base : Nat}
include h

theorem code {f : Expr} (hf : MayRun files hidden m e scope f)
    (hcaptured : ∀ params body c, (Expr.closure params body c).OccursIn f →
      Reaches m.store e scope c) : (View.around files hidden m e scope base).Code f :=
  ⟨fun name hname hhidden => h f hf name hhidden hname, fun _ hpath => ⟨f, hf, hpath⟩,
    fun params body c hc => Or.inl (hcaptured params body c hc)⟩

theorem code_expression : (View.around files hidden m e scope base).Code e :=
  h.code .expression fun _ _ _ hc => .captured hc.captures

theorem admits : (View.around files hidden m e scope base).Admits files := by
  intro path source forms hpath hread hparse g hg
  obtain ⟨f, hf, hpath⟩ := hpath
  exact h.code (.file hf hpath (fileForms_of_parse hread hparse) hg) fun _ _ _ hc =>
    absurd hc (plain_of_parse hparse g hg).not_closure

theorem value {a : ScopeId} {s : Scope} {name : String} {v : Expr}
    (ha : Reaches m.store e scope a) (hs : m.store.get? a = some s) (hname : ¬ hidden name)
    (hv : s.get? name = some v) : (View.around files hidden m e scope base).Value v := by
  intro params body c hc
  refine ⟨h.code (.body ha hs hname hv hc) ?_, Or.inl (.bound ha hs hv hc.captures)⟩
  intro _ _ d hd
  have hinner := (hd.trans (.body params c (.self body))).trans hc
  exact .bound ha hs hv hinner.captures

/-- What can be reached is in view from every state in which it is as it was. -/
theorem sees (hold : ∀ i s, Reaches m.store e scope i → k.store.get? i = some s →
      m.store.get? i = some s) (hkn : k.SameBut hidden n) :
    (View.around files hidden m e scope k.store.size).Sees k n := by
  refine ⟨hkn, Nat.le_refl _, ?_⟩
  intro i s hi hs
  have hlt := Store.index_lt_of_get? hs
  rcases hi with hi | hi
  · have hs' := hold i s hi hs
    refine ⟨?_, ?_, ?_⟩
    · intro name v hname hv
      exact h.value hi hs' hname hv
    · intro o ho
      exact Or.inl (.outer hi hs' ho)
    · intro hbase
      exact absurd hlt (Nat.not_lt.mpr hbase)
  · exact absurd hlt (Nat.not_lt.mpr hi)

end Unmentioned

/-! ### The same outcome -/

namespace Eval.SameOutcome

variable {ε α β : Type} {x : Evaluator → Run ε α} {y z : Evaluator → Run ε β}
  {Q : α → β → Prop} {S S' T : Machine → Machine → Prop}

theorem mono (h : SameOutcome files x m y n Q S) (hS : ∀ m' n', S m' n' → S' m' n') :
    SameOutcome files x m y n Q S' := by
  refine ⟨h.both, ?_⟩
  intro r₁ m' r₂ n' h₁ h₂
  exact (h.agree _ _ _ _ h₁ h₂).imp_right (hS m' n')

theorem trans (h : SameOutcome files x m y k Q S) (h' : SameOutcome files y k z n Eq T) :
    SameOutcome files x m z n Q fun m' n' => ∃ k', S m' k' ∧ T k' n' := by
  refine ⟨h.both.trans h'.both, ?_⟩
  intro r₁ m' r₂ n' h₁ h₂
  obtain ⟨r, k', hends⟩ := h.both.mp ⟨r₁, m', h₁⟩
  obtain ⟨hr, hm'⟩ := h.agree _ _ _ _ h₁ hends
  obtain ⟨hr', hn'⟩ := h'.agree _ _ _ _ hends h₂
  refine ⟨?_, k', hm', hn'⟩
  cases hr' with
  | error => exact hr
  | ok heq => exact heq ▸ hr

/-- What is done in both of two states that a view can not tell apart has the same outcome. -/
theorem of_sees {V : View} {x : Evaluator → Run ε α} (hx : Steady x)
    (hends : ∀ k n r k', V.Sees k n → Ends files x k r k' →
      ∃ n', Ends files x n r n' ∧ V.Sees k' n') (h : V.Sees k n) :
    SameOutcome files x k x n Eq (Machine.SameBut V.hidden) := by
  refine ⟨⟨?_, ?_⟩, ?_⟩
  · rintro ⟨r, k', hk⟩
    obtain ⟨n', hn, -⟩ := hends _ _ _ _ h hk
    exact ⟨r, n', hn⟩
  · rintro ⟨r, n', hn⟩
    obtain ⟨k', hk, -⟩ := hends _ _ _ _ h.symm hn
    exact ⟨r, k', hk⟩
  · intro r₁ k' r₂ n' h₁ h₂
    obtain ⟨n₁, hn, hsees⟩ := hends _ _ _ _ h h₁
    obtain ⟨rfl, rfl⟩ := hn.unique hx h₂
    refine ⟨?_, hsees.same⟩
    cases r₁ with
    | error error => exact .error error
    | ok v => exact .ok rfl

end Eval.SameOutcome

namespace Unmentioned

/-- An evaluation does the same in two states that differ in hidden names. -/
theorem sameOutcome (h : Unmentioned files hidden m e scope) (hmn : m.SameBut hidden n) :
    SameOutcome files (fun ev => ev e scope) m (fun ev => ev e scope) n Eq
      (Machine.SameBut hidden) := by
  refine .of_sees (steady_eval e scope) ?_ (h.sees (fun _ _ _ hs => hs) hmn)
  intro k n r k' hkn hends
  obtain ⟨fuel, hends⟩ := hends
  obtain ⟨n', hn', hsees, -⟩ := evaluates_sees h.admits (evaluates_of_eval hends)
    h.code_expression (Or.inl .here) hkn
  exact ⟨n', ends_of_evaluates hn', hsees⟩

/-- The same of forms that are run one after the other. -/
theorem sameOutcome_forms {forms : List Expr} (h : Unmentioned files hidden m (.list forms) scope)
    (hold : ∀ i s, Reaches m.store (.list forms) scope i → k.store.get? i = some s →
      m.store.get? i = some s) (hkn : k.SameBut hidden n) :
    SameOutcome files (fun ev => runForms ev scope forms) k (fun ev => runForms ev scope forms) n
      Eq (Machine.SameBut hidden) := by
  refine .of_sees (steady_runForms scope forms) ?_ (h.sees hold hkn)
  intro k n r k' hkn hends
  obtain ⟨fuel, hends⟩ := hends
  obtain ⟨r₀, heach, rfl⟩ := evaluatesEach_of_runForms (fun h => evaluates_of_eval h) hends
  obtain ⟨n', hn', hsees, -⟩ := evaluatesEach_sees h.admits heach
    (fun _ he => h.code_expression.item he) (Or.inl .here) hkn
  exact ⟨n', ends_of_forms hn', hsees⟩

end Unmentioned

/-! ### More scopes -/

/-- From the first state to the second one, hidden names have been bound and scopes have been
made. -/
structure Machine.Gains (hidden : String → Prop) (m n : Machine) : Prop where
  loading : m.loading = n.loading
  scopes : ∀ i s, m.store.get? i = some s → ∃ t, n.store.get? i = some t ∧ s.SameBut hidden t

/-- The second state with the scopes of the first as they are there. -/
def Machine.restored (m n : Machine) : Machine :=
  { n with store := ⟨n.store.scopes.mapIdx fun i t => (m.store.get? ⟨i⟩).getD t⟩ }

@[simp] theorem Machine.get?_restored (m n : Machine) (i : ScopeId) :
    (m.restored n).store.get? i = (n.store.get? i).map ((m.store.get? i).getD ·) := by
  simp [restored, Store.get?]

@[simp] theorem Machine.size_restored (m n : Machine) : (m.restored n).store.size = n.store.size := by
  simp [restored, Store.size, Store.nextId]

namespace Machine.Gains

variable (h : m.Gains hidden n)
include h

theorem get?_restored {i : ScopeId} {s : Scope} (hs : m.store.get? i = some s) :
    (m.restored n).store.get? i = some s := by
  obtain ⟨t, ht, -⟩ := h.scopes i s hs
  rw [Machine.get?_restored, ht, hs]
  rfl

theorem sameBut_restored : (m.restored n).SameBut hidden n := by
  refine ⟨rfl, congrArg ScopeId.mk (m.size_restored n), ?_⟩
  intro i
  rw [Machine.get?_restored]
  cases ht : n.store.get? i with
  | none => exact .none
  | some t =>
      refine .some ?_
      cases hs : m.store.get? i with
      | none => exact .refl t
      | some s =>
          obtain ⟨t', ht', hst⟩ := h.scopes i s hs
          obtain rfl := Option.some.inj (ht.symm.trans ht')
          exact hst

theorem size_le : m.store.size ≤ n.store.size := by
  by_contra hlt
  have hnext : ∃ s, m.store.get? ⟨n.store.size⟩ = some s :=
    Store.exists_get?_iff.mpr (Nat.lt_of_not_le hlt)
  obtain ⟨s, hs⟩ := hnext
  obtain ⟨t, ht, -⟩ := h.scopes _ s hs
  exact Nat.lt_irrefl _ (Store.index_lt_of_get? ht)

end Machine.Gains

/-- Scopes of the first state stand for themselves, and those made from it on for those made
from the second state on. -/
def Renaming.later (m n : Machine) : Renaming :=
  { extend (fun a b => a = b ∧ a.index < m.store.size ∧ b.index < n.store.size) m n
      (fun _ _ h => h.2) (by rintro a b a' b' ⟨rfl, -⟩ ⟨rfl, -⟩; rfl) with
    exporting := fun _ => True
    made_exporting := fun _ => trivial }

namespace Renaming

theorem later_rel (hle : m.store.size ≤ n.store.size) {a : ScopeId} (ha : a.index < m.store.size) :
    (later m n).rel a a :=
  Or.inl ⟨rfl, ha, Nat.lt_of_lt_of_le ha hle⟩

theorem later_carries (hle : m.store.size ≤ n.store.size) (he : e.Inside .whole m.store.size) :
    (later m n).Carries e e := by
  induction he with
  | symbol => exact .symbol trivial
  | number => exact .number _
  | string => exact .string _
  | list _ ih => exact Carries.list_iff.mpr (List.forall₂_same.mpr ih)
  | closure _ hscope ih => exact .closure ih (later_rel hle hscope.2)

/-- A well-formed state matches those that have its scopes and more. -/
theorem later_matches (hm : m.store.WellFormed) (hle : m.store.size ≤ n.store.size)
    (hloading : m.loading = k.loading) (hnext : k.store.nextId = n.store.nextId)
    (hsame : Store.Same m.store k.store) : (later m n).Matches m k := by
  refine ⟨hloading, ⟨0, rfl, hnext⟩, fun {a b} hab => ?_⟩
  rcases hab with ⟨rfl, ha, -⟩ | ⟨i, rfl, rfl⟩
  · obtain ⟨s, hs⟩ := Store.exists_get?_iff.mpr ha
    rw [hs, hsame a s hs]
    have hinside := hm.scopes a s (Nat.zero_le _) hs
    refine .some ⟨⟨?_, ?_⟩, fun _ => rfl, fun _ _ _ => trivial⟩
    · intro name _
      cases hv : s.get? name with
      | none => exact .none
      | some v => exact .some (later_carries hle (hinside.values name v hv))
    · cases ho : s.outer with
      | none => exact .none
      | some o =>
          have hlt := (hinside.outer o ho).2
          exact .some ⟨later_rel hle (Nat.lt_trans hlt ha), Iff.rfl⟩
  · rw [← hnext, Store.get?_of_le (Nat.le_add_right _ i), Store.get?_of_le (Nat.le_add_right _ i)]
    exact .none

/-- The two scopes are the same under the renaming, but for what hidden names are bound to. -/
structure ScopesBut (ρ : Renaming) (hidden : String → Prop) (s t : Scope) : Prop where
  bindings : ∀ name, ¬ hidden name → Option.Rel ρ.Carries (s.get? name) (t.get? name)
  exports : s.exports = t.exports
  outer : Option.Rel ρ.rel s.outer t.outer

/-- The two states are the same under the renaming, as far as scopes are related, but for what
hidden names are bound to. -/
structure MatchesBut (ρ : Renaming) (hidden : String → Prop) (m n : Machine) : Prop where
  loading : m.loading = n.loading
  scopes : ∀ {a b}, ρ.rel a b →
    Option.Rel (ρ.ScopesBut hidden) (m.store.get? a) (n.store.get? b)

theorem Matches.matchesBut (h : (later m n).Matches k k') (h' : k'.SameBut hidden n') :
    (later m n).MatchesBut hidden k n' := by
  refine ⟨h.loading.trans h'.loading, fun {a b} hab => ?_⟩
  refine optionRel_comp ?_ (h.scopes hab) (h'.scopes b)
  intro s t u hst htu
  refine ⟨?_, ?_, ?_⟩
  · intro name hname
    rw [← htu.bindings name hname]
    exact hst.bindings name trivial
  · rw [hst.exports trivial, htu.exports]
  · rw [← htu.outer]
    exact optionRel_imp (fun _ _ _ _ hop => hop.1) hst.outer

end Renaming

/-! ### What binds hidden names -/

/-- The state when names have been bound to values in scopes. -/
def Machine.binding (m : Machine) (bindings : List (ScopeId × String × Expr)) : Machine :=
  { m with store := bindings.foldl (fun st b => st.define b.1 b.2.1 b.2.2) m.store }

theorem Machine.sameBut_binding {bindings : List (ScopeId × String × Expr)}
    (h : ∀ b ∈ bindings, hidden b.2.1) : m.SameBut hidden (m.binding bindings) := by
  have hstep : ∀ bs (n : Machine), (∀ b ∈ bs, hidden b.2.1) → m.SameBut hidden n →
      m.SameBut hidden (n.binding bs) := by
    intro bs
    induction bs with
    | nil => exact fun _ _ hmn => hmn
    | cons b bs ih =>
        intro n hbs hmn
        rw [List.forall_mem_cons] at hbs
        exact ih _ hbs.2 (hmn.modify_right b.1 fun s => .of_define s hbs.1 b.2.2)
  exact hstep bindings m h (.refl m)

/-- The scopes that were there may have changed in one place only. -/
theorem Eval.Ends.gains {place : ScopeId} {d : Expr} {r : Except EvalError Expr}
    (h : Ends files (fun ev => ev d place) m r n)
    (hplace : ∀ s t, m.store.get? place = some s → n.store.get? place = some t →
      s.SameBut hidden t) : m.Gains hidden n := by
  obtain ⟨fuel, h⟩ := h
  have hexcept := eval_effect effect_sameExcept files fuel [] d place _ _ _ h
  refine ⟨(eval_effect effect_loading files fuel [] d place _ _ _ h).symm, ?_⟩
  intro i s hs
  by_cases hi : i = place
  · subst hi
    obtain ⟨t, ht, -⟩ := hexcept.outer hs
    exact ⟨t, ht, hplace s t hs ht⟩
  · exact ⟨s, hexcept.other hi hs, .refl s⟩

/-- An import binds what the file exports. -/
theorem Eval.Imported.gains {path : String} {place : ScopeId} {bindings : List (String × Expr)}
    (h : Imported files path place m bindings n) (hbindings : ∀ b ∈ bindings, hidden b.1) :
    m.Gains hidden n := by
  refine h.form.gains ?_
  intro s t hs ht
  rw [h.get?_self hs] at ht
  obtain rfl := Option.some.inj ht
  exact .of_defineAll s hbindings

/-! ### The law of unmentioned names -/

/-- An expression has captured scopes that exist. -/
theorem Expr.Inside.index_lt_of_captures {R : Realm} {i : Nat} {c : ScopeId} (h : e.Inside R i)
    (hc : e.Captures c) : c.index < i := by
  induction hc with
  | here => exact (Expr.Inside.closure_iff.mp h).2.2
  | body _ _ _ ih => exact ih (Expr.Inside.closure_iff.mp h).1
  | item he _ ih => exact ih (Expr.Inside.list_iff.mp h _ he)

/-- What can be reached from what exists exists. -/
theorem Reaches.index_lt {i : ScopeId} (hm : m.store.WellFormed)
    (hscope : scope.index < m.store.size) (he : e.Inside .whole m.store.size)
    (h : Reaches m.store e scope i) : i.index < m.store.size := by
  induction h with
  | here => exact hscope
  | captured hc => exact he.index_lt_of_captures hc
  | outer _ hs ho ih => exact Nat.lt_trans ((hm.scopes _ _ (Nat.zero_le _) hs).outer _ ho).2 ih
  | bound _ hs hv hc _ =>
      exact ((hm.scopes _ _ (Nat.zero_le _) hs).values _ _ hv).index_lt_of_captures hc

/-- Forms do the same after hidden names have been bound and scopes made. -/
theorem Unmentioned.sameOutcome_gains {forms : List Expr}
    (h : Unmentioned files hidden m (.list forms) scope) (hm : m.store.WellFormed)
    (hscope : scope.index < m.store.size) (hforms : (Expr.list forms).Inside .whole m.store.size)
    (hmn : m.Gains hidden n) :
    SameOutcome files (fun ev => runForms ev scope forms) m (fun ev => runForms ev scope forms) n
      (Option.Rel (Renaming.later m n).Carries) ((Renaming.later m n).MatchesBut hidden) := by
  have hrestored := hmn.sameBut_restored
  have hrenamed : SameOutcome files (fun ev => runForms ev scope forms) m
      (fun ev => runForms ev scope forms) (m.restored n)
      (Option.Rel (Renaming.later m n).Carries) (Renaming.later m n).Matches := by
    have hcarries := Carries.list_iff.mp (Renaming.later_carries hmn.size_le hforms)
    refine sameOutcome_of_similar (steady_runForms scope forms) (fun fuel => ?_)
      (Renaming.later_matches hm hmn.size_le hmn.loading hrestored.nextId
        fun i s hs => hmn.get?_restored hs)
    refine similar_runForms (fun he hab => eval_similar ?_ fuel he hab)
      (Renaming.later_rel hmn.size_le hscope) hcarries
    exact fun _ _ h => plain_of_fileForms h
  have hhidden : SameOutcome files (fun ev => runForms ev scope forms) (m.restored n)
      (fun ev => runForms ev scope forms) n Eq (Machine.SameBut hidden) := by
    refine h.sameOutcome_forms (fun i s hi hs => ?_) hrestored
    obtain ⟨s', hs'⟩ := Store.exists_get?_iff.mpr (hi.index_lt hm hscope hforms)
    rw [hmn.get?_restored hs'] at hs
    rw [hs', hs]
  refine (hrenamed.trans hhidden).mono fun m' n' hstates => ?_
  obtain ⟨k', hmk, hkn⟩ := hstates
  exact hmk.matchesBut hkn

/-- **What nobody mentions has no influence.** Hidden names that are mentioned nowhere in what
an evaluation may run may be bound to anything in any scopes: the evaluation ends if it did
without, with the same value or the same error, and the scopes it leaves are the same but for
the values of hidden names. Forms may even be put before the rest of a program: a form that
changes nothing in the scope it is evaluated in but what hidden names are bound to, as the
definition of such a name, or an import of nothing but such names, makes no difference to what
the rest of the program comes to, up to the identities of the scopes that are made. -/
theorem unmentioned_names_have_no_influence (files : FileSystem) (hidden : String → Prop) :
    (∀ m e scope, Unmentioned files hidden m e scope →
      ∀ bindings : List (ScopeId × String × Expr), (∀ b ∈ bindings, hidden b.2.1) →
        SameOutcome files (fun ev => ev e scope) m (fun ev => ev e scope) (m.binding bindings)
          Eq (Machine.SameBut hidden)) ∧
    (∀ (m : Machine) forms scope, m.store.WellFormed → scope.index < m.store.size →
      (Expr.list forms).Inside .whole m.store.size →
      Unmentioned files hidden m (.list forms) scope →
        (∀ d place r n, Ends files (fun ev => ev d place) m r n →
          (∀ s t, m.store.get? place = some s → n.store.get? place = some t →
            s.SameBut hidden t) →
          SameOutcome files (fun ev => runForms ev scope forms) m
            (fun ev => runForms ev scope forms) n (Option.Rel (Renaming.later m n).Carries)
            ((Renaming.later m n).MatchesBut hidden)) ∧
        ∀ path place bindings n, Imported files path place m bindings n →
          (∀ b ∈ bindings, hidden b.1) →
          SameOutcome files (fun ev => runForms ev scope forms) m
            (fun ev => runForms ev scope forms) n (Option.Rel (Renaming.later m n).Carries)
            ((Renaming.later m n).MatchesBut hidden)) := by
  constructor
  · intro m e scope h bindings hbindings
    exact h.sameOutcome (Machine.sameBut_binding hbindings)
  · intro m forms scope hm hscope hforms h
    constructor
    · intro d place r n hends hplace
      exact h.sameOutcome_gains hm hscope hforms (hends.gains hplace)
    · intro path place bindings n himport hbindings
      exact h.sameOutcome_gains hm hscope hforms (himport.gains hbindings)

/-- A file that exports the name `true`. -/
def shadowFile : FileSystem :=
  ⟨[(["p"], .file "(export true) (def true \"shadow\")".toUTF8)], []⟩

/-- Binding `true`, directly, by a definition or by an import, does not change what a `case`
takes for true. -/
theorem unmentioned_names_have_no_influence_shadowedTruth :
    let m : Machine := ⟨Store.empty.addPrelude.define ⟨0⟩ "yes" (.symbol "true"), []⟩
    let e : Expr := Keyword.case.form [.list [.symbol "yes", .string "chosen"]]
    let Rest (n : Machine) : Prop := SameOutcome shadowFile (fun ev => runForms ev ⟨0⟩ [e]) m
      (fun ev => runForms ev ⟨0⟩ [e]) n (Option.Rel (Renaming.later m n).Carries)
      ((Renaming.later m n).MatchesBut (· = "true"))
    Ends shadowFile (fun ev => ev e ⟨0⟩) m (.ok (.string "chosen")) m ∧
      SameOutcome shadowFile (fun ev => ev e ⟨0⟩) m (fun ev => ev e ⟨0⟩)
        (m.binding [(⟨0⟩, "true", .empty)]) Eq (Machine.SameBut (· = "true")) ∧
      Rest { m with store := m.store.define ⟨0⟩ "true" (.string "shadow") } ∧
      ∃ n, Imported shadowFile "p" ⟨0⟩ m [("true", .string "shadow")] n ∧ Rest n := by
  intro m e Rest
  have hread : shadowFile.readText "p" = .ok "(export true) (def true \"shadow\")" := by cbv
  have hparse : parse "(export true) (def true \"shadow\")" = .ok
      [Keyword.exporting.form [.symbol "true"],
        Keyword.define.form [.symbol "true", .string "shadow"]] := by cbv
  have hlookup : ((m.store.addPrelude.markExported ⟨1⟩ "true").define ⟨1⟩ "true"
      (.string "shadow")).lookup ⟨1⟩ "true" = some (.string "shadow") := by cbv
  have hexports : Imports shadowFile "p" m (.ok [("true", .string "shadow")]) _ :=
    .collects (m := m) (r := .ok [("true", .string "shadow")]) (by cbv) List.not_mem_nil hread
      hparse (.cons .exports (.cons (.define .string) .nil)) rfl (.bound hlookup .nil)
  have himport : Imported shadowFile "p" ⟨0⟩ m _ _ :=
    ⟨⟨_, ends_of_imports hexports⟩, ends_importForm (ends_of_imports hexports)⟩
  have hcourse : FitCourse shadowFile .whole Machine.start [.scope ⟨0⟩, .nothing] m := by
    refine .cons (o := .newProgram) trivial ⟨0, rfl⟩ ?_
    refine .cons (o := .define ⟨0⟩ "yes" (.symbol "true")) ?_ ⟨0, rfl⟩ (.nil _)
    exact ⟨⟨Nat.zero_le _, by decide⟩, .symbol trivial⟩
  obtain ⟨hm, -⟩ := hcourse.stays Realm.reads_whole Store.wellFormed_empty
  have hsymbols : ∀ a s name v, m.store.get? a = some s → s.get? name = some v →
      ∃ symbol, v = .symbol symbol := by
    intro a s name v hs hv
    have hlt : a.index < 1 := Store.index_lt_of_get? hs
    obtain rfl : a = ⟨0⟩ := congrArg ScopeId.mk (Nat.lt_one_iff.mp hlt)
    obtain rfl : ((Scope.empty none).defineAll Store.preludeBindings).define "yes"
        (.symbol "true") = s := Option.some.inj hs
    simp only [Store.preludeBindings, Scope.defineAll, List.foldl, Scope.get?_define] at hv
    split_ifs at hv
    · exact ⟨_, (Option.some.inj hv).symm⟩
    · exact ⟨_, (Option.some.inj hv).symm⟩
    · exact ⟨_, (Option.some.inj hv).symm⟩
    · cases hv
  -- Nothing is called and nothing is imported, so the expression is all the code there is.
  have honly : ∀ e' f, (∀ path, ¬ e'.Imports path) →
      MayRun shadowFile (· = "true") m e' ⟨0⟩ f → f = e' := by
    intro e' f himports hf
    induction hf with
    | expression => rfl
    | body _ hs _ hv hc =>
        obtain ⟨symbol, rfl⟩ := hsymbols _ _ _ _ hs hv
        cases hc
    | file _ hpath _ _ ih => exact absurd (ih ▸ hpath) (himports _)
  have hunmentioned : ∀ e', (∀ path, ¬ e'.Imports path) → ¬ e'.Mentions "true" →
      Unmentioned shadowFile (· = "true") m e' ⟨0⟩ := by
    rintro e' himports hmentions f hf _ rfl
    rwa [honly e' f himports hf]
  have hexpression : Unmentioned shadowFile (· = "true") m e ⟨0⟩ := by
    refine hunmentioned e ?_ ?_
    · simp [e, Expr.Imports, importForm, Keyword.form, Keyword.name]
    · simp [e, Expr.Mentions, Keyword.form, Keyword.name]
  have hforms : Unmentioned shadowFile (· = "true") m (.list [e]) ⟨0⟩ := by
    refine hunmentioned _ ?_ ?_
    · simp [e, Expr.Imports, importForm, Keyword.form, Keyword.name]
    · simp [e, Expr.Mentions, Keyword.form, Keyword.name]
  have hinside : (Expr.list [e]).Inside .whole m.store.size := by
    have hname : ∀ name, (Expr.symbol name).Inside .whole m.store.size := fun _ => .symbol trivial
    simp [e, Keyword.form, Expr.Inside.list_iff, hname, Expr.Inside.string]
  obtain ⟨hbinding, hrest⟩ := unmentioned_names_have_no_influence shadowFile (· = "true")
  obtain ⟨hdefinition, himports⟩ := hrest m [e] ⟨0⟩ hm (by decide) hinside hforms
  refine ⟨?_, hbinding m e ⟨0⟩ hexpression _ (by simp), ?_, _, himport, ?_⟩
  · exact ends_of_evaluates (.case (.chosen (.bound (by cbv)) .string))
  · refine hdefinition (Keyword.define.form [.symbol "true", .string "shadow"]) ⟨0⟩ _ _
      (ends_of_evaluates (.define .string)) fun s t hs ht => ?_
    rw [Store.define, Store.get?_modify_self, hs] at ht
    obtain rfl := Option.some.inj ht
    exact @Scope.SameBut.of_define (· = "true") s "true" rfl _
  · exact himports _ _ _ _ himport (by simp)

end ModularLisp
