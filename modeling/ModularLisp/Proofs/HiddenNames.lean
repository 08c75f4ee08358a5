import ModularLisp.Proofs.Isolation
import ModularLisp.Proofs.RuleSteps

/-!
# ModularLisp.Proofs.HiddenNames

**Names that are not mentioned.** Some names are hidden: no code mentions them, whatever they
are bound to. Code is the expression that is evaluated, the bodies of closures that it may come
to call, and the forms of files that it may come to import. Values that are no closures are not
code; a hidden name may occur in them as a symbol, since nothing evaluates a value.

Two states that differ in nothing but the values of hidden names (`Machine.SameBut`) can not be
told apart by an evaluation: every rule that applies in one applies in the other, with the same
result, and leaves states of this kind again (`evaluates_sees`). For that the code must stay
within scopes of which it is known that they bind no code with hidden names, and these are the
scopes in view (`View`): those that could be reached in the beginning, and all new ones.

That a name is handled in a special way by some rule, as a keyword or as `true`, does not
matter, because no rule asks what such a name is bound to.
-/

namespace ModularLisp

open Eval (importForm)

/-! ### What occurs in code -/

/-- The first expression is the second one or a part of it; the body of a closure is a part of
the closure. -/
inductive Expr.OccursIn : Expr → Expr → Prop
  | self (e : Expr) : OccursIn e e
  | item {f e : Expr} {items : List Expr} : e ∈ items → OccursIn f e → OccursIn f (.list items)
  | body {f body : Expr} (params : List String) (scope : ScopeId) : OccursIn f body →
      OccursIn f (.closure params body scope)

namespace Expr.OccursIn

variable {e f g : Expr}

theorem trans (h : f.OccursIn g) (h' : g.OccursIn e) : f.OccursIn e := by
  induction h' with
  | self => exact h
  | item he _ ih => exact .item he ih
  | body params scope _ ih => exact .body params scope ih

@[simp] theorem list_iff {items : List Expr} :
    f.OccursIn (.list items) ↔ f = .list items ∨ ∃ e ∈ items, f.OccursIn e := by
  constructor
  · intro h
    cases h with
    | self => exact Or.inl rfl
    | item he h => exact Or.inr ⟨_, he, h⟩
  · rintro (rfl | ⟨e, he, h⟩)
    · exact .self _
    · exact .item he h

@[simp] theorem symbol_iff {name : String} :
    f.OccursIn (.symbol name) ↔ f = .symbol name := by
  constructor
  · intro h
    cases h with
    | self => rfl
  · rintro rfl
    exact .self _

@[simp] theorem string_iff {content : String} :
    f.OccursIn (.string content) ↔ f = .string content := by
  constructor
  · intro h
    cases h with
    | self => rfl
  · rintro rfl
    exact .self _

/-- The scopes that closures in an expression have captured are those of closures that occur in
it. -/
theorem captures {params : List String} {body : Expr} {c : ScopeId}
    (h : (Expr.closure params body c).OccursIn e) : e.Captures c := by
  induction h with
  | self => exact .here _ _ _
  | item he _ ih => exact .item he ih
  | body params scope _ ih => exact .body params scope ih

end Expr.OccursIn

/-- The name occurs in the expression as a symbol. -/
def Expr.Mentions (e : Expr) (name : String) : Prop :=
  (Expr.symbol name).OccursIn e

/-- An import of the path occurs in the expression. -/
def Expr.Imports (e : Expr) (path : String) : Prop :=
  (importForm path).OccursIn e

/-- What is read from a text has no closures. -/
theorem Expr.Plain.not_closure {names : String → Prop} {e : Expr} (h : e.Plain names)
    {params : List String} {body : Expr} {c : ScopeId} :
    ¬ (Expr.closure params body c).OccursIn e := by
  induction h with
  | symbol | number | string =>
      intro hc
      cases hc
  | list _ ih =>
      intro hc
      cases hc with
      | item he hc => exact ih _ he hc

/-! ### States that differ in hidden names -/

variable {hidden : String → Prop}

/-- The two scopes are the same but for what hidden names are bound to. -/
structure Scope.SameBut (hidden : String → Prop) (s t : Scope) : Prop where
  bindings : ∀ name, ¬ hidden name → s.get? name = t.get? name
  exports : s.exports = t.exports
  outer : s.outer = t.outer

namespace Scope.SameBut

variable {s t u : Scope}

theorem refl (s : Scope) : s.SameBut hidden s :=
  ⟨fun _ _ => rfl, rfl, rfl⟩

theorem symm (h : s.SameBut hidden t) : t.SameBut hidden s :=
  ⟨fun name hname => (h.bindings name hname).symm, h.exports.symm, h.outer.symm⟩

theorem trans (h : s.SameBut hidden t) (h' : t.SameBut hidden u) : s.SameBut hidden u :=
  ⟨fun name hname => (h.bindings name hname).trans (h'.bindings name hname),
    h.exports.trans h'.exports, h.outer.trans h'.outer⟩

/-- Binding a hidden name makes no other difference. -/
theorem of_define (s : Scope) {name : String} (hname : hidden name) (value : Expr) :
    s.SameBut hidden (s.define name value) := by
  refine ⟨?_, rfl, rfl⟩
  intro other hother
  rw [get?_define, if_neg]
  rintro rfl
  exact hother hname

theorem of_defineAll (s : Scope) {bindings : List (String × Expr)}
    (h : ∀ b ∈ bindings, hidden b.1) : s.SameBut hidden (s.defineAll bindings) := by
  induction bindings generalizing s with
  | nil => exact refl s
  | cons b rest ih =>
      rw [List.forall_mem_cons] at h
      exact (of_define s h.1 b.2).trans (ih _ h.2)

theorem define (h : s.SameBut hidden t) (name : String) (value : Expr) :
    (s.define name value).SameBut hidden (t.define name value) := by
  refine ⟨?_, h.exports, h.outer⟩
  intro other hother
  rw [get?_define, get?_define, h.bindings other hother]

theorem defineAll (h : s.SameBut hidden t) (bindings : List (String × Expr)) :
    (s.defineAll bindings).SameBut hidden (t.defineAll bindings) := by
  induction bindings generalizing s t with
  | nil => exact h
  | cons b rest ih => exact ih (h.define b.1 b.2)

theorem markExported (h : s.SameBut hidden t) (name : String) :
    (s.markExported name).SameBut hidden (t.markExported name) := by
  refine ⟨?_, ?_, ?_⟩
  · intro other hother
    simp [h.bindings other hother]
  · unfold Scope.markExported
    rw [← h.exports]
    split <;> simp [h.exports]
  · simp [h.outer]

end Scope.SameBut

/-- The two states are the same but for what hidden names are bound to. -/
structure Machine.SameBut (hidden : String → Prop) (m n : Machine) : Prop where
  loading : m.loading = n.loading
  nextId : m.store.nextId = n.store.nextId
  scopes : ∀ i, Option.Rel (Scope.SameBut hidden) (m.store.get? i) (n.store.get? i)

namespace Machine.SameBut

variable {m n : Machine}

theorem refl (m : Machine) : m.SameBut hidden m := by
  refine ⟨rfl, rfl, ?_⟩
  intro i
  cases m.store.get? i with
  | none => exact .none
  | some s => exact .some (.refl s)

theorem symm (h : m.SameBut hidden n) : n.SameBut hidden m := by
  refine ⟨h.loading.symm, h.nextId.symm, ?_⟩
  intro i
  exact optionRel_flip (fun _ _ hst => hst.symm) (h.scopes i)

theorem exists_get? (h : m.SameBut hidden n) {i : ScopeId} {s : Scope}
    (hs : m.store.get? i = some s) : ∃ t, n.store.get? i = some t ∧ s.SameBut hidden t := by
  have hscopes := h.scopes i
  rw [hs] at hscopes
  exact exists_of_optionRel_some hscopes

theorem modify (h : m.SameBut hidden n) (i : ScopeId) {f : Scope → Scope}
    (hf : ∀ s t, s.SameBut hidden t → (f s).SameBut hidden (f t)) :
    SameBut hidden { m with store := m.store.modify i f }
      { n with store := n.store.modify i f } := by
  refine ⟨h.loading, by simpa using h.nextId, ?_⟩
  intro j
  rw [Store.get?_modify, Store.get?_modify]
  split
  · exact optionRel_map hf (h.scopes i)
  · exact h.scopes j

/-- A change of hidden names keeps states the same. -/
theorem modify_right (h : m.SameBut hidden n) (i : ScopeId) {f : Scope → Scope}
    (hf : ∀ s : Scope, s.SameBut hidden (f s)) :
    m.SameBut hidden { n with store := n.store.modify i f } := by
  refine ⟨h.loading, by simpa using h.nextId, ?_⟩
  intro j
  rw [Store.get?_modify]
  split
  · next hji =>
      subst hji
      have hscopes := h.scopes j
      generalize m.store.get? j = s? at hscopes ⊢
      generalize n.store.get? j = t? at hscopes ⊢
      cases hscopes with
      | none => exact .none
      | @some s t hst => exact .some (hst.trans (hf t))
  · exact h.scopes j

theorem add (h : m.SameBut hidden n) (s : Scope) :
    SameBut hidden { m with store := m.store.add s } { n with store := n.store.add s } := by
  refine ⟨h.loading, by simp [Store.nextId_add, h.nextId], ?_⟩
  intro j
  rw [Store.get?_add, Store.get?_add, h.nextId]
  split
  · exact .some (.refl s)
  · exact h.scopes j

/-- A name that is not hidden has the same value everywhere. -/
theorem lookup_eq (h : m.SameBut hidden n) (scope : ScopeId) {name : String}
    (hname : ¬ hidden name) : m.store.lookup scope name = n.store.lookup scope name := by
  induction hn : scope.index using Nat.strongRecOn generalizing scope with
  | _ k ih =>
    subst hn
    unfold Store.lookup
    have hscopes := h.scopes scope
    generalize m.store.get? scope = s? at hscopes ⊢
    generalize n.store.get? scope = t? at hscopes ⊢
    cases hscopes with
    | none => rfl
    | @some s t hst =>
        simp only [hst.bindings name hname, hst.outer]
        split
        · rfl
        split
        · rfl
        split
        · next hlt => exact ih _ hlt _ rfl
        · rfl

end Machine.SameBut

/-! ### Views -/

/-- What evaluation has to do with: the hidden names, the scopes that code may come to, and the
paths that it may come to import. -/
structure View where
  hidden : String → Prop
  live : ScopeId → Prop
  loads : String → Prop
  /-- The index of the first scope that is new. -/
  base : Nat
  live_new : ∀ i : ScopeId, base ≤ i.index → live i

namespace View

variable {V : View} {e v : Expr}

/-- The expression may be evaluated: it mentions no hidden name, imports paths in view only, and
its closures have captured scopes in view. -/
structure Code (V : View) (e : Expr) : Prop where
  names : ∀ name, e.Mentions name → ¬ V.hidden name
  paths : ∀ path, e.Imports path → V.loads path
  captured : ∀ params body c, (Expr.closure params body c).OccursIn e → V.live c

/-- The expression may be a value: the bodies of closures in it are code. -/
def Value (V : View) (v : Expr) : Prop :=
  ∀ params body c, (Expr.closure params body c).OccursIn v → V.Code body ∧ V.live c

theorem Code.of_occursIn {f : Expr} (h : V.Code e) (hf : f.OccursIn e) : V.Code f :=
  ⟨fun name hname => h.names name (hname.trans hf), fun path hpath => h.paths path (hpath.trans hf),
    fun params body c hc => h.captured params body c (hc.trans hf)⟩

theorem Code.value (h : V.Code e) : V.Value e :=
  fun params body c hc =>
    ⟨h.of_occursIn (.trans (.body params c (.self body)) hc), h.captured params body c hc⟩

theorem Code.not_hidden {name : String} (h : V.Code (.symbol name)) : ¬ V.hidden name :=
  h.names name (.self _)

theorem Code.item {items : List Expr} (h : V.Code (.list items)) (he : e ∈ items) : V.Code e :=
  h.of_occursIn (.item he (.self e))

theorem Code.items {head : Expr} {arguments : List Expr} (h : V.Code (.list (head :: arguments))) :
    ∀ e ∈ arguments, V.Code e :=
  fun _ he => h.item (List.mem_cons_of_mem _ he)

theorem Value.symbol (name : String) : V.Value (.symbol name) :=
  fun _ _ _ h => by cases h

theorem Value.empty : V.Value (.list []) := by
  intro params body c h
  cases h with
  | item he => cases he

theorem Value.closure_iff {params : List String} {body : Expr} {c : ScopeId} :
    V.Value (.closure params body c) ↔ V.Code body ∧ V.live c := by
  constructor
  · exact fun h => h _ _ _ (.self _)
  · rintro ⟨hbody, hc⟩ _ _ _ h
    cases h with
    | self => exact ⟨hbody, hc⟩
    | body _ _ h => exact hbody.value _ _ _ h

/-- The scope of identity `i` binds hidden names to anything and others to values, lies in a
scope in view, and exports no hidden name if it is new. -/
structure Sound (V : View) (i : ScopeId) (s : Scope) : Prop where
  values : ∀ name v, ¬ V.hidden name → s.get? name = some v → V.Value v
  outer : ∀ o, s.outer = some o → V.live o
  exports : V.base ≤ i.index → ∀ name ∈ s.exports, ¬ V.hidden name

namespace Sound

variable {i : ScopeId} {s : Scope}

theorem empty {outer : Option ScopeId} (houter : ∀ o, outer = some o → V.live o) :
    V.Sound i (.empty outer) :=
  ⟨fun _ _ _ h => (nomatch h), houter, fun _ _ h => absurd h List.not_mem_nil⟩

theorem define (h : V.Sound i s) (name : String) (hv : V.Value v) :
    V.Sound i (s.define name v) := by
  refine ⟨?_, h.outer, h.exports⟩
  intro other w hother hw
  rw [Scope.get?_define] at hw
  split at hw
  · exact Option.some.inj hw ▸ hv
  · exact h.values other w hother hw

theorem defineAll {bindings : List (String × Expr)} (h : V.Sound i s)
    (hbindings : ∀ b ∈ bindings, V.Value b.2) : V.Sound i (s.defineAll bindings) := by
  induction bindings generalizing s with
  | nil => exact h
  | cons b rest ih =>
      rw [List.forall_mem_cons] at hbindings
      exact ih (h.define b.1 hbindings.1) hbindings.2

theorem markExported (h : V.Sound i s) {name : String} (hname : ¬ V.hidden name) :
    V.Sound i (s.markExported name) := by
  refine ⟨?_, ?_, ?_⟩
  · intro other w hother hw
    rw [Scope.get?_markExported] at hw
    exact h.values other w hother hw
  · intro o ho
    rw [Scope.outer_markExported] at ho
    exact h.outer o ho
  · intro hi other hother
    rcases Scope.mem_exports_markExported.mp hother with hother | rfl
    · exact h.exports hi other hother
    · exact hname

theorem of_sameBut {t : Scope} (h : V.Sound i s) (hst : s.SameBut V.hidden t) : V.Sound i t := by
  refine ⟨?_, ?_, ?_⟩
  · intro name w hname hw
    exact h.values name w hname (by rw [hst.bindings name hname, hw])
  · intro o ho
    exact h.outer o (by rw [hst.outer, ho])
  · intro hi name hname
    exact h.exports hi name (by rwa [hst.exports])

end Sound

/-- The two states are the same but for hidden names, and the scopes in view are sound. -/
structure Sees (V : View) (m n : Machine) : Prop where
  same : m.SameBut V.hidden n
  base : V.base ≤ m.store.size
  sound : ∀ i s, V.live i → m.store.get? i = some s → V.Sound i s

namespace Sees

variable {m n : Machine} {scope : ScopeId} {name : String}

theorem symm (h : V.Sees m n) : V.Sees n m := by
  refine ⟨h.same.symm, ?_, ?_⟩
  · rw [Store.size, ← h.same.nextId]
    exact h.base
  · intro i t hi ht
    obtain ⟨s, hs, hst⟩ := h.same.symm.exists_get? ht
    exact (h.sound i s hi hs).of_sameBut hst.symm

theorem modify (h : V.Sees m n) (i : ScopeId) {f : Scope → Scope}
    (hsame : ∀ s t, s.SameBut V.hidden t → (f s).SameBut V.hidden (f t))
    (hsound : ∀ s, V.Sound i s → V.Sound i (f s)) :
    V.Sees { m with store := m.store.modify i f } { n with store := n.store.modify i f } := by
  refine ⟨h.same.modify i hsame, by simpa using h.base, ?_⟩
  intro j s hj hs
  rw [Store.get?_modify] at hs
  split at hs
  · next hji =>
      subst hji
      obtain ⟨s₀, hs₀, rfl⟩ := Option.map_eq_some_iff.mp hs
      exact hsound s₀ (h.sound j s₀ hj hs₀)
  · exact h.sound j s hj hs

theorem define (h : V.Sees m n) (name : String) (hv : V.Value v) :
    V.Sees { m with store := m.store.define scope name v }
      { n with store := n.store.define scope name v } :=
  h.modify scope (fun _ _ hst => hst.define name v) fun _ hs => hs.define name hv

theorem defineEach (h : V.Sees m n) (scope : ScopeId) {bindings : List (String × Expr)}
    (hbindings : ∀ b ∈ bindings, V.Value b.2) :
    V.Sees { m with store := m.store.defineEach scope bindings }
      { n with store := n.store.defineEach scope bindings } := by
  rw [Store.defineEach_eq_modify, Store.defineEach_eq_modify]
  exact h.modify scope (fun _ _ hst => hst.defineAll bindings) fun _ hs => hs.defineAll hbindings

theorem markExported (h : V.Sees m n) (hname : ¬ V.hidden name) :
    V.Sees { m with store := m.store.markExported scope name }
      { n with store := n.store.markExported scope name } :=
  h.modify scope (fun _ _ hst => hst.markExported name) fun _ hs => hs.markExported hname

theorem live_nextId (h : V.Sees m n) : V.live m.store.nextId :=
  V.live_new _ h.base

/-- A new scope that is sound may be added. -/
theorem add (h : V.Sees m n) {s : Scope} (hs : V.Sound m.store.nextId s) :
    V.Sees { m with store := m.store.add s } { n with store := n.store.add s } := by
  refine ⟨h.same.add s, ?_, ?_⟩
  · rw [Store.size_add]
    exact Nat.le_succ_of_le h.base
  · intro j t hj ht
    rw [Store.get?_add] at ht
    split at ht
    · next hjm =>
        subst hjm
        exact Option.some.inj ht ▸ hs
    · exact h.sound j t hj ht

theorem addPrelude (h : V.Sees m n) :
    V.Sees { m with store := m.store.addPrelude } { n with store := n.store.addPrelude } := by
  have hempty : V.Sound m.store.nextId (.empty none) := .empty fun o ho => nomatch ho
  refine h.add (hempty.defineAll fun b hb => ?_)
  simp only [Store.preludeBindings, List.mem_cons, List.not_mem_nil, or_false] at hb
  rcases hb with rfl | rfl
  · exact .symbol _
  · exact .symbol _

theorem addEmpty (h : V.Sees m n) {captured : ScopeId} (hcaptured : V.live captured) :
    V.Sees { m with store := m.store.addEmpty (some captured) }
      { n with store := n.store.addEmpty (some captured) } :=
  h.add (.empty fun _ ho => Option.some.inj ho ▸ hcaptured)

/-- The list of files being loaded may be changed in the same way. -/
theorem withLoading (h : V.Sees m n) (f : List Files.Path → List Files.Path) {m₀ n₀ : Machine}
    (h₀ : m₀.loading = n₀.loading) :
    V.Sees { m with loading := f m₀.loading } { n with loading := f n₀.loading } :=
  ⟨⟨congrArg f h₀, h.same.nextId, h.same.scopes⟩, h.base, h.sound⟩

/-- What is found from a scope in view is a value. -/
theorem value_of_lookup (h : V.Sees m n) (hscope : V.live scope) (hname : ¬ V.hidden name)
    (hv : m.store.lookup scope name = some v) : V.Value v := by
  fun_induction Store.lookup m.store scope name with
  | case2 scope s hs value hvalue =>
      exact Option.some.inj hv ▸ (h.sound scope s hscope hs).values name value hname hvalue
  | case4 scope s hs hnone o houter hlt ih =>
      exact ih ((h.sound scope s hscope hs).outer o houter) hv
  | case1 | case3 | case5 => cases hv

end Sees

end View

/-! ### Evaluation in two states -/

open Files (FileSystem)
open View (Sees)

variable {files : FileSystem} {V : View}

/-- Names that are not hidden are exposed with the same values. -/
theorem View.Sees.exposes {m n : Machine} (h : V.Sees m n) {scope : ScopeId} (hscope : V.live scope)
    {names : List String} (hnames : ∀ name ∈ names, ¬ V.hidden name)
    {r : Except String (List (String × Expr))} (hr : m.store.Exposes scope names r) :
    n.store.Exposes scope names r ∧
      ∀ bindings, r = .ok bindings → ∀ b ∈ bindings, ¬ V.hidden b.1 ∧ V.Value b.2 := by
  induction hr with
  | nil => exact ⟨.nil, fun _ hb b hmem => by cases hb; cases hmem⟩
  | @unbound name names hnone =>
      rw [List.forall_mem_cons] at hnames
      rw [h.same.lookup_eq scope hnames.1] at hnone
      exact ⟨.unbound hnone, fun _ hb => nomatch hb⟩
  | @bound name names value r hv _ ih =>
      rw [List.forall_mem_cons] at hnames
      obtain ⟨hrest, hvalues⟩ := ih hnames.2
      have hvalue := h.value_of_lookup hscope hnames.1 hv
      rw [h.same.lookup_eq scope hnames.1] at hv
      refine ⟨.bound hv hrest, fun bindings hb => ?_⟩
      cases r with
      | error e => cases hb
      | ok rest =>
          obtain rfl := Except.ok.inj hb
          exact List.forall_mem_cons.mpr ⟨⟨hnames.1, hvalue⟩, hvalues rest rfl⟩

/-- The forms of files that may be imported are code. -/
def View.Admits (V : View) (files : FileSystem) : Prop :=
  ∀ path source forms, V.loads path → files.readText path = .ok source →
    parse source = .ok forms → ∀ e ∈ forms, V.Code e

mutual

/-- An evaluation in one state is one in the other. -/
theorem evaluates_sees (hfiles : V.Admits files) {e : Expr} {scope : ScopeId} {m m' : Machine}
    {r : Except EvalError Expr} (h : Evaluates files e scope m r m') :
    ∀ ⦃n⦄, V.Code e → V.live scope → V.Sees m n →
      ∃ n', Evaluates files e scope n r n' ∧ V.Sees m' n' ∧ ∀ v, r = .ok v → V.Value v :=
  match h with
  | .bound hv => by
      intro n he hscope hn
      have hvalue := hn.value_of_lookup hscope he.not_hidden hv
      rw [hn.same.lookup_eq scope he.not_hidden] at hv
      exact ⟨n, .bound hv, hn, fun v h => Except.ok.inj h ▸ hvalue⟩
  | .unbound hv => by
      intro n he hscope hn
      rw [hn.same.lookup_eq scope he.not_hidden] at hv
      exact ⟨n, .unbound hv, hn, fun v h => nomatch h⟩
  | .number => fun n he _ hn =>
      ⟨n, .number, hn, fun v h => Except.ok.inj h ▸ he.value⟩
  | .string => fun n he _ hn =>
      ⟨n, .string, hn, fun v h => Except.ok.inj h ▸ he.value⟩
  | .closure => fun n he _ hn =>
      ⟨n, .closure, hn, fun v h => Except.ok.inj h ▸ he.value⟩
  | .empty => fun n he _ hn =>
      ⟨n, .empty, hn, fun v h => Except.ok.inj h ▸ he.value⟩
  | .malformed hshape => fun n _ _ hn =>
      ⟨n, .malformed hshape, hn, fun v h => nomatch h⟩
  | .define h => by
      intro n he hscope hn
      have hitems := he.items
      obtain ⟨n₁, h₁, hn₁, hv⟩ := evaluates_sees hfiles h (hitems _ (by simp)) hscope hn
      exact ⟨_, .define h₁, hn₁.define _ (hv _ rfl), fun v h => Except.ok.inj h ▸ .empty⟩
  | .defineFails h => by
      intro n he hscope hn
      have hitems := he.items
      obtain ⟨n₁, h₁, hn₁, -⟩ := evaluates_sees hfiles h (hitems _ (by simp)) hscope hn
      exact ⟨n₁, .defineFails h₁, hn₁, fun v h => nomatch h⟩
  | .function => by
      intro n he hscope hn
      have hitems := he.items
      refine ⟨n, .function, hn, fun v h => Except.ok.inj h ▸ ?_⟩
      exact View.Value.closure_iff.mpr ⟨hitems _ (by simp), hscope⟩
  | .literal => by
      intro n he hscope hn
      have hitems := he.items
      exact ⟨n, .literal, hn, fun v h => Except.ok.inj h ▸ (hitems _ (by simp)).value⟩
  | .case h => by
      intro n he hscope hn
      obtain ⟨n', h', hn', hv⟩ := selects_sees hfiles h he.items hscope hn
      exact ⟨n', .case h', hn', hv⟩
  | .imports h => by
      intro n he hscope hn
      obtain ⟨n₁, h₁, hn₁, hbindings⟩ := imports_sees hfiles h (he.paths _ (.self _)) hn
      refine ⟨_, .imports h₁, hn₁.defineEach _ fun b hb => (hbindings _ rfl b hb).2, ?_⟩
      exact fun v h => Except.ok.inj h ▸ .empty
  | .importFails h => by
      intro n he hscope hn
      obtain ⟨n₁, h₁, hn₁, -⟩ := imports_sees hfiles h (he.paths _ (.self _)) hn
      exact ⟨n₁, .importFails h₁, hn₁, fun v h => nomatch h⟩
  | .exports => by
      intro n he hscope hn
      have hitems := he.items
      refine ⟨_, .exports, hn.markExported (hitems _ (by simp)).not_hidden, ?_⟩
      exact fun v h => Except.ok.inj h ▸ .empty
  | .headFails hhead h => by
      intro n he hscope hn
      obtain ⟨n₁, h₁, hn₁, -⟩ := evaluates_sees hfiles h (he.item (by simp)) hscope hn
      exact ⟨n₁, .headFails hhead h₁, hn₁, fun v h => nomatch h⟩
  | .notCallable hhead h hvalue => by
      intro n he hscope hn
      obtain ⟨n₁, h₁, hn₁, -⟩ := evaluates_sees hfiles h (he.item (by simp)) hscope hn
      exact ⟨n₁, .notCallable hhead h₁ hvalue, hn₁, fun v h => nomatch h⟩
  | .argumentFails hhead h hes => by
      intro n he hscope hn
      obtain ⟨n₁, h₁, hn₁, -⟩ := evaluates_sees hfiles h (he.item (by simp)) hscope hn
      obtain ⟨n₂, h₂, hn₂, -⟩ := evaluatesEach_sees hfiles hes he.items hscope hn₁
      exact ⟨n₂, .argumentFails hhead h₁ h₂, hn₂, fun v h => nomatch h⟩
  | .arity hhead h hes hlen => by
      intro n he hscope hn
      obtain ⟨n₁, h₁, hn₁, -⟩ := evaluates_sees hfiles h (he.item (by simp)) hscope hn
      obtain ⟨n₂, h₂, hn₂, -⟩ := evaluatesEach_sees hfiles hes he.items hscope hn₁
      exact ⟨n₂, .arity hhead h₁ h₂ hlen, hn₂, fun v h => nomatch h⟩
  | @Evaluates.call _ _ _ params _ _ _ values _ _ m₂ _ _ hhead h hes hlen hbody => by
      intro n he hscope hn
      obtain ⟨n₁, h₁, hn₁, hclosure⟩ := evaluates_sees hfiles h (he.item (by simp)) hscope hn
      obtain ⟨n₂, h₂, hn₂, hvalues⟩ := evaluatesEach_sees hfiles hes he.items hscope hn₁
      obtain ⟨hcode, hcaptured⟩ := View.Value.closure_iff.mp (hclosure _ rfl)
      have hbound : ∀ b ∈ params.zip values, V.Value b.2 :=
        fun b hb => hvalues _ rfl b.2 (List.of_mem_zip hb).2
      have hstart := (hn₂.addEmpty hcaptured).defineEach m₂.store.nextId hbound
      obtain ⟨n', h', hn', hv⟩ := evaluates_sees hfiles hbody hcode hn₂.live_nextId hstart
      rw [hn₂.same.nextId] at h'
      exact ⟨n', .call hhead h₁ h₂ hlen h', hn', hv⟩

theorem evaluatesEach_sees (hfiles : V.Admits files) {es : List Expr} {scope : ScopeId}
    {m m' : Machine} {r : Except EvalError (List Expr)} (h : EvaluatesEach files es scope m r m') :
    ∀ ⦃n⦄, (∀ e ∈ es, V.Code e) → V.live scope → V.Sees m n →
      ∃ n', EvaluatesEach files es scope n r n' ∧ V.Sees m' n' ∧
        ∀ vs, r = .ok vs → ∀ v ∈ vs, V.Value v :=
  match h with
  | .nil => fun n _ _ hn =>
      ⟨n, .nil, hn, fun vs h => Except.ok.inj h ▸ fun v hv => absurd hv List.not_mem_nil⟩
  | .fails h => by
      intro n hes hscope hn
      rw [List.forall_mem_cons] at hes
      obtain ⟨n₁, h₁, hn₁, -⟩ := evaluates_sees hfiles h hes.1 hscope hn
      exact ⟨n₁, .fails h₁, hn₁, fun vs h => nomatch h⟩
  | @EvaluatesEach.cons _ _ _ _ _ _ _ _ r h hrest => by
      intro n hes hscope hn
      rw [List.forall_mem_cons] at hes
      obtain ⟨n₁, h₁, hn₁, hv⟩ := evaluates_sees hfiles h hes.1 hscope hn
      obtain ⟨n', h', hn', hvs⟩ := evaluatesEach_sees hfiles hrest hes.2 hscope hn₁
      refine ⟨n', .cons h₁ h', hn', fun vs h => ?_⟩
      cases r with
      | error e => cases h
      | ok rest =>
          obtain rfl := Except.ok.inj h
          exact List.forall_mem_cons.mpr ⟨hv _ rfl, hvs rest rfl⟩

theorem selects_sees (hfiles : V.Admits files) {whole : Expr} {index : Nat}
    {clauses : List Expr} {scope : ScopeId} {m m' : Machine} {r : Except EvalError Expr}
    (h : Selects files whole index clauses scope m r m') :
    ∀ ⦃n⦄, (∀ e ∈ clauses, V.Code e) → V.live scope → V.Sees m n →
      ∃ n', Selects files whole index clauses scope n r n' ∧ V.Sees m' n' ∧
        ∀ v, r = .ok v → V.Value v :=
  match h with
  | .exhausted => fun n _ _ hn =>
      ⟨n, .exhausted, hn, fun v h => nomatch h⟩
  | .noClause hother => fun n _ _ hn =>
      ⟨n, .noClause hother, hn, fun v h => nomatch h⟩
  | .noPair hlen => fun n _ _ hn =>
      ⟨n, .noPair hlen, hn, fun v h => nomatch h⟩
  | .predicateFails h => by
      intro n hclauses hscope hn
      rw [List.forall_mem_cons] at hclauses
      obtain ⟨n₁, h₁, hn₁, -⟩ := evaluates_sees hfiles h (hclauses.1.item (by simp)) hscope hn
      exact ⟨n₁, .predicateFails h₁, hn₁, fun v h => nomatch h⟩
  | .chosen h hresult => by
      intro n hclauses hscope hn
      rw [List.forall_mem_cons] at hclauses
      obtain ⟨n₁, h₁, hn₁, -⟩ := evaluates_sees hfiles h (hclauses.1.item (by simp)) hscope hn
      obtain ⟨n', h', hn', hv⟩ :=
        evaluates_sees hfiles hresult (hclauses.1.item (by simp)) hscope hn₁
      exact ⟨n', .chosen h₁ h', hn', hv⟩
  | .passed h hvalue hrest => by
      intro n hclauses hscope hn
      rw [List.forall_mem_cons] at hclauses
      obtain ⟨n₁, h₁, hn₁, -⟩ := evaluates_sees hfiles h (hclauses.1.item (by simp)) hscope hn
      obtain ⟨n', h', hn', hv⟩ := selects_sees hfiles hrest hclauses.2 hscope hn₁
      exact ⟨n', .passed h₁ hvalue h', hn', hv⟩

theorem imports_sees (hfiles : V.Admits files) {path : String} {m m' : Machine}
    {r : Except ProgramError (List (String × Expr))} (h : Imports files path m r m') :
    ∀ ⦃n⦄, V.loads path → V.Sees m n → ∃ n', Imports files path n r n' ∧ V.Sees m' n' ∧
      ∀ bindings, r = .ok bindings → ∀ b ∈ bindings, ¬ V.hidden b.1 ∧ V.Value b.2 :=
  match h with
  | .lost hc => fun n _ hn =>
      ⟨n, .lost hc, hn, fun _ h => nomatch h⟩
  | .cycle hc hmem => fun n _ hn =>
      ⟨n, .cycle hc (hn.same.loading ▸ hmem), hn, fun _ h => nomatch h⟩
  | .unreadable hc hmem hread => by
      intro n hpath hn
      exact ⟨n, .unreadable hc (hn.same.loading ▸ hmem) hread, hn, fun _ h => nomatch h⟩
  | .noProgram hc hmem hread hparse => by
      intro n hpath hn
      exact ⟨n, .noProgram hc (hn.same.loading ▸ hmem) hread hparse, hn, fun _ h => nomatch h⟩
  | @Imports.formFails _ _ _ _ _ c _ _ hc hmem hread hparse heach => by
      intro n hpath hn
      have hstart := hn.addPrelude.withLoading (· ++ [c]) hn.same.loading
      obtain ⟨n₁, h₁, hn₁, -⟩ := evaluatesEach_sees hfiles heach (hfiles _ _ _ hpath hread hparse)
        hn.live_nextId hstart
      rw [hn.same.nextId] at h₁
      exact ⟨_, .formFails hc (hn.same.loading ▸ hmem) hread hparse h₁,
        hn₁.withLoading id hn.same.loading, fun _ h => nomatch h⟩
  | @Imports.collects _ _ _ _ _ c _ _ _ r hc hmem hread hparse heach hs hexposes => by
      intro n hpath hn
      have hstart := hn.addPrelude.withLoading (· ++ [c]) hn.same.loading
      obtain ⟨n₁, h₁, hn₁, -⟩ := evaluatesEach_sees hfiles heach (hfiles _ _ _ hpath hread hparse)
        hn.live_nextId hstart
      obtain ⟨t, ht, hst⟩ := hn₁.same.exists_get? hs
      have hnames := (hn₁.sound _ _ hn.live_nextId hs).exports hn.base
      obtain ⟨hexposes', hbindings⟩ := hn₁.exposes hn.live_nextId hnames hexposes
      rw [hn.same.nextId] at h₁ ht hexposes'
      rw [hst.exports] at hexposes'
      refine ⟨_, .collects hc (hn.same.loading ▸ hmem) hread hparse h₁ ht hexposes',
        hn₁.withLoading id hn.same.loading, fun bindings hb => ?_⟩
      cases r with
      | error name => cases hb
      | ok bindings' => exact Except.ok.inj hb ▸ hbindings bindings' rfl

end

end ModularLisp
