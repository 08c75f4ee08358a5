import ModularLisp.Proofs.Operation
import ModularLisp.Proofs.ScopeChain

/-!
# ModularLisp.Proofs.WellFormed

**The store stays well-formed.** Whatever is done with a well-formed store, one operation
after the other, leaves a well-formed store, as long as each operation is done with scopes
that exist and values whose closures have captured scopes that exist (`Operation.Fits`). What
operations give back is of that kind again (`Answer.Inside`), so it can be used in later ones.
Nothing goes wrong in the course of an operation either, even if it never ends.

A store that is worked with only grows (`Store.Grows`): its scopes stay where they are, no name
is unbound again, and new exports come behind those that are there.
-/

namespace ModularLisp

open Files (FileSystem)

/-! ### Growth -/

/-- The scope has become `s'`: it lies where it was, binds what it bound, if to other values,
and exports what it exported, in the same order and before anything else. -/
structure Scope.Grows (s s' : Scope) : Prop where
  outer : s'.outer = s.outer
  names : ∀ name, (s.get? name).isSome → (s'.get? name).isSome
  exports : s.exports <+: s'.exports

theorem Scope.Grows.refl (s : Scope) : s.Grows s :=
  ⟨rfl, fun _ h => h, List.prefix_rfl⟩

theorem Scope.Grows.trans {s₁ s₂ s₃ : Scope} (h₁ : s₁.Grows s₂) (h₂ : s₂.Grows s₃) :
    s₁.Grows s₃ :=
  ⟨h₂.outer.trans h₁.outer, fun name h => h₂.names name (h₁.names name h),
    h₁.exports.trans h₂.exports⟩

theorem Scope.grows_define (s : Scope) (name : String) (value : Expr) :
    s.Grows (s.define name value) := by
  refine ⟨rfl, fun m hm => ?_, List.prefix_rfl⟩
  rw [get?_define]
  split
  · rfl
  · exact hm

theorem Scope.grows_markExported (s : Scope) (name : String) : s.Grows (s.markExported name) := by
  refine ⟨s.outer_markExported name, fun m hm => ?_, ?_⟩
  · rwa [get?_markExported]
  · rw [exports_markExported, mark]
    split
    · exact List.prefix_rfl
    · exact List.prefix_append _ _

/-- Every scope that was there has grown, or is as it was. -/
def Store.Grows (st st' : Store) : Prop :=
  ∀ id s, st.get? id = some s → ∃ s', st'.get? id = some s' ∧ s.Grows s'

namespace Store.Grows

variable {st st₁ st₂ : Store}

theorem refl (st : Store) : st.Grows st :=
  fun _ s hs => ⟨s, hs, .refl s⟩

theorem trans (h₁ : st.Grows st₁) (h₂ : st₁.Grows st₂) : st.Grows st₂ := by
  intro id s hs
  obtain ⟨s₁, hs₁, hgrows₁⟩ := h₁ id s hs
  obtain ⟨s₂, hs₂, hgrows₂⟩ := h₂ id s₁ hs₁
  exact ⟨s₂, hs₂, hgrows₁.trans hgrows₂⟩

theorem add (st : Store) (s : Scope) : st.Grows (st.add s) :=
  fun _ _ hs => ⟨_, get?_add_of_some hs s, .refl _⟩

theorem modify {f : Scope → Scope} (hf : ∀ s : Scope, s.Grows (f s)) (id : ScopeId) :
    st.Grows (st.modify id f) := by
  intro i s hs
  by_cases hi : i = id
  · subst hi
    exact ⟨f s, by rw [get?_modify_self, hs, Option.map_some], hf s⟩
  · exact ⟨s, by rwa [get?_modify_of_ne hi], .refl s⟩

end Store.Grows

/-- The store grows while something is evaluated. -/
theorem Eval.effect_grows : Effect fun _ m _ m' => m.store.Grows m'.store where
  refl _ m := .refl m.store
  trans h₁ h₂ := h₁.trans h₂
  begins _ _ _ m _ := .refl m.store
  define s _ name value := .modify (fun s => s.grows_define name value) s
  exports s _ _ name := .modify (fun s => s.grows_markExported name) s
  call _ h := (Store.Grows.add _ _).trans h
  unread _ _ _ _ := .refl _
  load _ _ _ _ h := (Store.Grows.add _ _).trans h

theorem Operation.grows_of_leads {files : FileSystem} {o : Operation} {m m' : Machine}
    (h : o.Leads files m m') : m.store.Grows m'.store := by
  obtain ⟨fuel, h⟩ := h
  have hrun : o.Runs → m.store.Grows m'.store := fun hruns =>
    effect Eval.effect_grows (s := o.scope?.getD ⟨0⟩) hruns (fun i hi => by rw [hi]; rfl) h
  cases o with
  | newRoot | newProgram | enclose =>
      obtain rfl := Option.some.inj h
      exact .add _ _
  | define scope name value =>
      obtain rfl := Option.some.inj h
      exact .modify (fun s => s.grows_define name value) scope
  | markExported scope name =>
      obtain rfl := Option.some.inj h
      exact .modify (fun s => s.grows_markExported name) scope
  | eval | apply | runForms | evaluateSource | loadProgram | runFile | importExports =>
      exact hrun trivial

/-! ### What operations give back -/

/-- What an operation gives back. -/
inductive Answer
  /-- It failed, or was done for its effect. -/
  | nothing
  | scope (id : ScopeId)
  | values (vs : List Expr)

/-- The answer is made of what the realm has when there are `n` scopes. -/
def Answer.Inside (R : Realm) (n : Nat) : Answer → Prop
  | nothing => True
  | scope id => R.Has n id
  | values vs => ∀ v ∈ vs, v.Inside R n

theorem Answer.Inside.mono {R : Realm} {n k : Nat} {a : Answer} (h : a.Inside R n)
    (hnk : n ≤ k) : a.Inside R k := by
  cases a with
  | nothing => trivial
  | scope id => exact Realm.Has.mono h hnk
  | values vs => exact fun v hv => (h v hv).mono hnk

variable {ε α : Type}

/-- The answer that is made of a value; a failure gives nothing back. -/
def Answer.ofExcept (f : α → Answer) : Except ε α → Answer
  | .ok a => f a
  | .error _ => nothing

/-- Runs `x` and makes an answer of its result. -/
def Run.answering (x : Run ε α) (f : α → Answer) : Run Empty Answer := fun m =>
  (x m).map fun o => (.ok (.ofExcept f o.1), o.2)

theorem Run.after_answering (x : Run ε α) (f : α → Answer) (m : Machine) :
    (x.answering f).after m = x.after m := by
  simp only [after, answering, Option.map_map, Function.comp_def]

namespace Operation

variable (files : FileSystem) (ev : Evaluator)

/-- What an operation does, with what it gives back. -/
def run : Operation → Run Empty Answer
  | newRoot => (Run.addScope (.empty none) : Run Empty _).answering .scope
  | newProgram => (Run.addPrelude : Run Empty _).answering .scope
  | enclose outer => (Run.addScope (.empty (some outer)) : Run Empty _).answering .scope
  | define scope name value =>
      (Run.define scope name value : Run Empty _).answering fun _ => .nothing
  | markExported scope name =>
      (Run.markExported scope name : Run Empty _).answering fun _ => .nothing
  | eval e scope => (ev e scope).answering fun v => .values [v]
  | apply params body captured arguments =>
      (Eval.apply ev params body captured arguments).answering fun v => .values [v]
  | runForms forms scope => (Eval.runForms ev scope forms).answering fun v? => .values v?.toList
  | evaluateSource source scope =>
      (Eval.evaluateSource ev source scope).answering fun v? => .values v?.toList
  | loadProgram path => (Eval.loadProgram files ev path).answering .scope
  | runFile path => (Eval.runFile files ev path).answering fun v? => .values v?.toList
  | importExports path =>
      (Eval.importExports files ev path).answering fun bindings => .values (bindings.map Prod.snd)

/-- The operation `o`, started in `m`, ends, gives `a` and leaves the state `m'`. -/
def Gives (o : Operation) (m : Machine) (a : Answer) (m' : Machine) : Prop :=
  ∃ fuel, o.run files (Eval.eval files fuel) m = some (.ok a, m')

theorem after_run (o : Operation) (m : Machine) :
    (o.run files ev).after m = o.after files ev m := by
  cases o with
  | newRoot | newProgram | enclose | define | markExported => rfl
  | eval | apply | runForms | evaluateSource | loadProgram | runFile | importExports =>
      exact Run.after_answering _ _ m

variable {files}

theorem leads_of_gives {o : Operation} {m m' : Machine} {a : Answer}
    (h : o.Gives files m a m') : o.Leads files m m' := by
  obtain ⟨fuel, h⟩ := h
  refine ⟨fuel, ?_⟩
  rw [← after_run]
  exact Run.after_eq_some_iff.mpr ⟨_, h⟩

/-- The operation is done with expressions and scopes of the realm, as it is when there are `n`
scopes. -/
def Fits (R : Realm) (n : Nat) : Operation → Prop
  | newRoot | newProgram | loadProgram _ | runFile _ | importExports _ => True
  | enclose outer => R.Has n outer
  | define scope _ value => R.Has n scope ∧ value.Inside R n
  | markExported scope _ => R.Has n scope
  | eval e scope => R.Has n scope ∧ e.Inside R n
  | apply params body captured arguments =>
      (Expr.closure params body captured).Inside R n ∧ ∀ v ∈ arguments, v.Inside R n
  | runForms forms scope => R.Has n scope ∧ ∀ e ∈ forms, e.Inside R n
  | evaluateSource _ scope => R.Has n scope

end Operation

/-! ### Operations stay in a realm -/

namespace Realm

variable {R : Realm} {n : Nat} {t : Machine → List Moment}

theorem Confines.answering {Q : Nat → α → Prop} {x : Run ε α} (hx : R.Confines n x t Q)
    {f : α → Answer} (hf : ∀ k a, Q k a → (f a).Inside R k) :
    R.Confines n (x.answering f) t (Answer.Inside R) := by
  refine ⟨hx.moments, fun m r m' hm hn h => ?_⟩
  obtain ⟨⟨r₀, m₀⟩, hx₀, heq⟩ := Option.map_eq_some_iff.mp h
  obtain ⟨rfl, rfl⟩ := Prod.mk.inj heq
  obtain ⟨hm₀, hle, hQ⟩ := hx.ends _ _ _ hm hn hx₀
  refine ⟨hm₀, hle, fun a ha => ?_⟩
  obtain rfl := Except.ok.inj ha
  cases r₀ with
  | error e => trivial
  | ok a₀ => exact hf _ a₀ (hQ a₀ rfl)

/-- An operation that is done with what the realm has stays in it. -/
theorem operation_confined (hR : R.Reads) (files : FileSystem) (fuel : Nat) {o : Operation}
    (ho : o.Fits R n) :
    R.Confines n (o.run files (Eval.eval files fuel))
      (o.moments files (Eval.eval files fuel) (Eval.evalMoments files fuel))
      (Answer.Inside R) := by
  have hev : ∀ loads {n e scope}, e.Inside R n → R.Has n scope →
      R.Confines n (Eval.eval files fuel e scope) (Eval.evalMoments files fuel loads e scope)
        (Expr.Inside R) := fun loads {_ _ _} he hs => eval_confined hR files fuel loads he hs
  have hvalue : ∀ k v, v.Inside R k → (Answer.values [v]).Inside R k :=
    fun k v hv w hw => List.mem_singleton.mp hw ▸ hv
  have hvalue? : ∀ k (v? : Option Expr), (∀ v ∈ v?, v.Inside R k) →
      (Answer.values v?.toList).Inside R k :=
    fun k v? hv v hmem => hv v (Option.mem_toList.mp hmem)
  cases o with
  | newRoot =>
      have hadd : R.Confines n (Run.addScope (.empty none) : Run Empty _) _ R.Has :=
        .addScope fun k _ _ => .empty fun o ho => nomatch ho
      exact hadd.answering fun _ _ h => h
  | newProgram => exact (Confines.addPrelude hR).answering fun _ _ h => h
  | enclose outer =>
      have hadd : R.Confines n (Run.addScope (.empty (some outer)) : Run Empty _) _ R.Has :=
        .addScope fun k hk _ => .empty fun o ho' => Option.some.inj ho' ▸ ho.mono hk
      exact hadd.answering fun _ _ h => h
  | define scope name value =>
      exact (Confines.define scope name ho.2).answering fun _ _ _ => trivial
  | markExported scope name =>
      exact (Confines.markExported scope name).answering fun _ _ _ => trivial
  | eval e scope => exact (hev [] ho.2 ho.1).answering hvalue
  | apply params body captured arguments =>
      obtain ⟨hbody, hcaptured⟩ := Expr.Inside.closure_iff.mp ho.1
      exact (Confines.apply hev [] params hbody hcaptured ho.2).answering hvalue
  | runForms forms scope => exact (Confines.runForms hev [] ho.1 ho.2).answering hvalue?
  | evaluateSource source scope =>
      exact (Confines.evaluateSource hev [] hR ho source).answering hvalue?
  | loadProgram path => exact (Confines.loadProgram hev [] hR path).answering fun _ _ h => h
  | runFile path => exact (Confines.runFile hev [] hR path).answering hvalue?
  | importExports path =>
      refine (Confines.importExports hev [] hR path).answering fun k bindings hb v hv => ?_
      obtain ⟨b, hmem, rfl⟩ := List.mem_map.mp hv
      exact hb b hmem

end Realm

/-! ### Courses of operations -/

/-- Operations that fit the states they are started in lead from `m` to `m'`, one after the
other and each to its end, and give the answers. -/
inductive FitCourse (files : FileSystem) (R : Realm) : Machine → List Answer → Machine → Prop
  | nil (m : Machine) : FitCourse files R m [] m
  | cons {o : Operation} {m m₁ m' : Machine} {a : Answer} {as : List Answer} :
      o.Fits R m.store.size → o.Gives files m a m₁ → FitCourse files R m₁ as m' →
        FitCourse files R m (a :: as) m'

theorem FitCourse.stays {files : FileSystem} {R : Realm} (hR : R.Reads) {m m' : Machine}
    {as : List Answer} (h : FitCourse files R m as m') (hm : m.store.Inside R) :
    m'.store.Inside R ∧ m.store.size ≤ m'.store.size ∧ (∀ a ∈ as, a.Inside R m'.store.size) ∧
      m.store.Grows m'.store := by
  induction h with
  | nil m => exact ⟨hm, Nat.le_refl _, fun a ha => absurd ha List.not_mem_nil, .refl _⟩
  | cons hfits hgives _ ih =>
      have hgrows := Operation.grows_of_leads (Operation.leads_of_gives hgives)
      obtain ⟨fuel, hrun⟩ := hgives
      obtain ⟨hm₁, hle, hanswer⟩ :=
        (Realm.operation_confined hR files fuel hfits).ends _ _ _ hm (Nat.le_refl _) hrun
      obtain ⟨hm', hle', hanswers, hgrows'⟩ := ih hm₁
      refine ⟨hm', Nat.le_trans hle hle', ?_, hgrows.trans hgrows'⟩
      exact List.forall_mem_cons.mpr ⟨(hanswer _ rfl).mono hle', hanswers⟩

/-! ### The law of the store -/

/-- **The store stays well-formed.** Starting from nothing or from any well-formed store, any
operations in any order, successful or not, leave a well-formed store, which has grown, and
give only values and scopes that exist in it; and at every moment on the way the store is
well-formed and what is evaluated exists in it. So looking up a name comes to an end whenever
it is done, from every scope. -/
theorem store_stays_wellFormed (files : FileSystem) :
    Machine.start.store.WellFormed ∧
    (∀ m as m', m.store.WellFormed → FitCourse files .whole m as m' →
      m'.store.WellFormed ∧ (∀ a ∈ as, a.Inside .whole m'.store.size) ∧
        m.store.Grows m'.store) ∧
    (∀ (o : Operation) m, m.store.WellFormed → o.Fits .whole m.store.size → ∀ fuel,
      ∀ mo ∈ o.moments files (Eval.eval files fuel) (Eval.evalMoments files fuel) m,
        mo.Inside .whole) ∧
    (∀ st : Store, st.WellFormed → ∀ id : ScopeId, id.index < st.size → ∀ name r,
      st.Finds name id r ↔ st.lookup id name = r) := by
  refine ⟨Store.wellFormed_empty, ?_, ?_, ?_⟩
  · intro m as m' hm h
    obtain ⟨hm', -, hanswers, hgrows⟩ := h.stays Realm.reads_whole hm
    exact ⟨hm', hanswers, hgrows⟩
  · intro o m hm ho fuel mo hmo
    exact (Realm.operation_confined Realm.reads_whole files fuel ho).moments m hm (Nat.le_refl _)
      mo hmo
  · intro st hst id hid name r
    exact hst.finds_iff hid

/-- A closure that is bound in the scope it has captured, seen from inside the scope of a call
after a failure there. -/
theorem store_stays_wellFormed_selfCapture :
    let self : Expr := .closure [] (.symbol "f") ⟨0⟩
    let bound := Store.empty.addPrelude.define ⟨0⟩ "f" self
    let m' : Machine := ⟨(bound.addEmpty (some ⟨0⟩)).addEmpty (some ⟨1⟩), []⟩
    FitCourse ⟨[], []⟩ .whole Machine.start
        [.scope ⟨0⟩, .values [.empty], .values [self], .scope ⟨2⟩, .nothing] m' ∧
      m'.store.WellFormed ∧ m'.store.Finds "f" ⟨2⟩ (some self) := by
  intro self bound m'
  have hname : ∀ n name, (Expr.symbol name).Inside .whole n := fun _ _ => .symbol trivial
  have hself : self.Inside .whole 1 := .closure (hname _ _) ⟨Nat.zero_le _, by decide⟩
  have hcourse : FitCourse ⟨[], []⟩ .whole Machine.start
      [.scope ⟨0⟩, .values [.empty], .values [self], .scope ⟨2⟩, .nothing] m' := by
    refine .cons (o := .newProgram) trivial ⟨0, rfl⟩ ?_
    refine .cons (o := .eval (.list [.symbol "def", .symbol "f",
      .list [.symbol "fn", .list [], .symbol "f"]]) ⟨0⟩) ?_ ⟨2, rfl⟩ ?_
    · exact ⟨⟨Nat.zero_le _, by decide⟩, by simp [Expr.Inside.list_iff, hname]⟩
    refine .cons (o := .apply [] self ⟨0⟩ []) ?_ ⟨1, rfl⟩ ?_
    · exact ⟨.closure hself ⟨Nat.zero_le _, by decide⟩, fun v hv => absurd hv List.not_mem_nil⟩
    refine .cons (o := .enclose ⟨1⟩) ⟨Nat.zero_le _, by decide⟩ ⟨0, rfl⟩ ?_
    refine .cons (o := .eval (.list [.symbol "fn"]) ⟨2⟩) ?_ ⟨1, rfl⟩ (.nil _)
    exact ⟨⟨Nat.zero_le _, by decide⟩, by simp [Expr.Inside.list_iff, hname]⟩
  obtain ⟨hstart, hstays, -, hfinds⟩ := store_stays_wellFormed ⟨[], []⟩
  obtain ⟨hm', hanswers, -⟩ := hstays _ _ _ hstart hcourse
  have hmade : Realm.whole.Has m'.store.size ⟨2⟩ := hanswers (.scope ⟨2⟩) (by simp)
  exact ⟨hcourse, hm', (hfinds _ hm' ⟨2⟩ hmade.2 "f" _).mpr (by cbv)⟩

end ModularLisp
