import ModularLisp.Proofs.Realm

/-!
# ModularLisp.Proofs.Confinement

**Runs stay in their realm.** A run that starts in a store of a realm, with expressions and
scopes of it, meets nothing else on the way and leaves and gives nothing else
(`Realm.Confines`). That is so for every realm that holds what texts are read as
(`Realm.Reads`): expressions come from texts, from the store and from nowhere else, and of
what evaluation makes itself a closure has captured the scope at hand and a new scope lies in
the one that a closure has captured.

The number of scopes is part of what is claimed, because a scope is of the realm only once it
is made: every clause is about all stores that have at least `n` scopes, and says of the
result what is true with the scopes there are then. Lemmas about the rules of evaluation are
over an evaluator that is confined itself, and `eval_confined` ties the knot.
-/

namespace ModularLisp

open Files (FileSystem)

/-- The parts of a clause are of the realm if the clause is. -/
theorem Expr.Inside.of_clausePair? {R : Realm} {n : Nat} {clause : Expr} {pair : Expr × Expr}
    (h : clause.Inside R n) (hpair : Eval.clausePair? clause = some pair) :
    pair.1.Inside R n ∧ pair.2.Inside R n := by
  unfold Eval.clausePair? at hpair
  split at hpair
  · obtain rfl := Option.some.inj hpair
    exact ⟨list_iff.mp h _ (by simp), list_iff.mp h _ (by simp)⟩
  · cases hpair

/-- What happens at this moment happens in a store of the realm, and what is evaluated is of
the realm like the scope it is evaluated in. -/
structure Moment.Inside (R : Realm) (mo : Moment) : Prop where
  store : mo.machine.store.Inside R
  evaluated : ∀ e scope, mo.activity = .evaluating e scope →
    e.Inside R mo.machine.store.size ∧ R.Has mo.machine.store.size scope

namespace Realm

/-- The realm holds everything that is read from texts, and what programs start with. -/
structure Reads (R : Realm) : Prop where
  prelude : ∀ b ∈ Store.preludeBindings, b.2.Inside R 0
  parsed : ∀ source forms, parse source = .ok forms → ∀ e ∈ forms, e.Inside R 0

variable {R : Realm} {n k : Nat} {ε δ α β : Type} {t : Machine → List Moment}
  {Q : Nat → α → Prop}

/-- Started in a store of the realm with at least `n` scopes, the run meets only moments `t`
that lie in the realm; and if it ends, the store it leaves lies in it and has no fewer scopes,
and its value satisfies `Q` for the number of scopes there are then. -/
structure Confines (R : Realm) (n : Nat) (x : Run ε α) (t : Machine → List Moment)
    (Q : Nat → α → Prop) : Prop where
  moments : ∀ m, m.store.Inside R → n ≤ m.store.size → ∀ mo ∈ t m, mo.Inside R
  ends : ∀ m r m', m.store.Inside R → n ≤ m.store.size → x m = some (r, m') →
    m'.store.Inside R ∧ m.store.size ≤ m'.store.size ∧ ∀ a, r = .ok a → Q m'.store.size a

namespace Confines

/-! ### Sequences -/

theorem ofExcept {r : Except ε α} (h : ∀ k a, n ≤ k → r = .ok a → Q k a) :
    R.Confines n (Run.ofExcept r) (fun _ => []) Q := by
  refine ⟨fun _ _ _ mo hmo => absurd hmo List.not_mem_nil, fun m r' m' hm hn hx => ?_⟩
  obtain ⟨rfl, rfl⟩ := Run.outcome_inj hx
  exact ⟨hm, Nat.le_refl _, fun a ha => h _ a hn ha⟩

theorem pure {a : α} (h : ∀ k, n ≤ k → Q k a) :
    R.Confines n (Pure.pure a : Run ε α) (fun _ => []) Q :=
  ofExcept fun k _ hk ha => Except.ok.inj ha ▸ h k hk

theorem fail (e : ε) : R.Confines n (Run.fail e : Run ε α) (fun _ => []) Q :=
  ofExcept fun _ _ _ ha => nomatch ha

theorem bind {x : Run ε α} {f : α → Run ε β} {u : α → Machine → List Moment}
    {S : Nat → β → Prop} (hx : R.Confines n x t Q)
    (hf : ∀ k a, n ≤ k → Q k a → R.Confines k (f a) (u a) S) :
    R.Confines n (x >>= f) (fun m => t m ++ x.thenMoments u m) S := by
  refine ⟨fun m hm hn mo hmo => ?_, fun m r m' hm hn h => ?_⟩
  · rcases List.mem_append.mp hmo with hmo | hmo
    · exact hx.moments m hm hn mo hmo
    · obtain ⟨a, m₁, hxa, hmo⟩ := Run.mem_thenMoments.mp hmo
      obtain ⟨hm₁, hle, hQ⟩ := hx.ends _ _ _ hm hn hxa
      have hfa := hf _ a (Nat.le_trans hn hle) (hQ a rfl)
      exact hfa.moments m₁ hm₁ (Nat.le_refl _) mo hmo
  · rcases Run.bind_eq_some_iff.mp h with ⟨e, hxe, rfl⟩ | ⟨a, m₁, hxa, hfr⟩
    · obtain ⟨hm', hle, -⟩ := hx.ends _ _ _ hm hn hxe
      exact ⟨hm', hle, fun a ha => nomatch ha⟩
    · obtain ⟨hm₁, hle, hQ⟩ := hx.ends _ _ _ hm hn hxa
      have hfa := hf _ a (Nat.le_trans hn hle) (hQ a rfl)
      obtain ⟨hm', hle', hS⟩ := hfa.ends _ _ _ hm₁ (Nat.le_refl _) hfr
      exact ⟨hm', Nat.le_trans hle hle', hS⟩

/-- What follows a run without a moment of its own adds none. -/
theorem bind_silent {x : Run ε α} {f : α → Run ε β} {S : Nat → β → Prop}
    (hx : R.Confines n x t Q)
    (hf : ∀ k a, n ≤ k → Q k a → R.Confines k (f a) (fun _ => []) S) :
    R.Confines n (x >>= f) t S := by
  simpa using hx.bind hf

theorem mapError {f : ε → δ} {x : Run ε α} (hx : R.Confines n x t Q) :
    R.Confines n (Run.mapError f x) t Q := by
  refine ⟨hx.moments, fun m r m' hm hn h => ?_⟩
  obtain ⟨r₀, hxr, rfl⟩ := Run.mapError_eq_some_iff.mp h
  obtain ⟨hm', hle, hQ⟩ := hx.ends _ _ _ hm hn hxr
  refine ⟨hm', hle, fun a ha => ?_⟩
  cases r₀ with
  | error e => cases ha
  | ok a₀ => exact Except.ok.inj ha ▸ hQ a₀ rfl

/-! ### The store -/

theorem lookup {scope : ScopeId} (hscope : R.Has n scope) (name : String) :
    R.Confines n (Run.lookup scope name : Run ε _) (fun _ => [])
      fun k v? => ∀ v ∈ v?, v.Inside R k := by
  refine ⟨fun _ _ _ mo hmo => absurd hmo List.not_mem_nil, fun m r m' hm hn hx => ?_⟩
  obtain ⟨rfl, rfl⟩ := Run.outcome_inj hx
  refine ⟨hm, Nat.le_refl _, fun v? hv? v hv => ?_⟩
  obtain rfl := Except.ok.inj hv?
  exact hm.lookup hscope.1 hv

/-- A change of one scope by which scopes do not come to lie outside. -/
theorem modify {scope : ScopeId} {f : Scope → Scope}
    (hf : ∀ k s, n ≤ k → s.Inside R k scope → (f s).Inside R k scope) :
    R.Confines n (fun m => some (.ok (), { m with store := m.store.modify scope f }) : Run ε Unit)
      (fun _ => []) fun _ _ => True := by
  refine ⟨fun _ _ _ mo hmo => absurd hmo List.not_mem_nil, fun m r m' hm hn hx => ?_⟩
  obtain ⟨rfl, rfl⟩ := Run.outcome_inj hx
  refine ⟨hm.modify fun s hs => hf _ s hn hs, ?_, fun _ _ => trivial⟩
  rw [Store.size_modify]

theorem define (scope : ScopeId) (name : String) {value : Expr} (hvalue : value.Inside R n) :
    R.Confines n (Run.define scope name value : Run ε _) (fun _ => []) fun _ _ => True :=
  modify fun _ _ hk hs => hs.define name (hvalue.mono hk)

theorem defineAll (scope : ScopeId) {bindings : List (String × Expr)}
    (h : ∀ b ∈ bindings, b.2.Inside R n) :
    R.Confines n (Run.defineAll scope bindings : Run ε _) (fun _ => []) fun _ _ => True := by
  have hrun : (Run.defineAll scope bindings : Run ε Unit) = fun m =>
      some (.ok (), { m with store := m.store.modify scope (·.defineAll bindings) }) :=
    funext fun m => Run.defineAll_apply scope bindings m
  rw [hrun]
  exact modify fun _ _ hk hs => hs.defineAll fun b hb => (h b hb).mono hk

theorem markExported (scope : ScopeId) (name : String) :
    R.Confines n (Run.markExported scope name : Run ε _) (fun _ => []) fun _ _ => True :=
  modify fun _ _ _ hs => hs.markExported name

theorem addScope {s : Scope} (hs : ∀ k, n ≤ k → R.base ≤ k → s.Inside R k ⟨k⟩) :
    R.Confines n (Run.addScope s : Run ε _) (fun _ => []) R.Has := by
  refine ⟨fun _ _ _ mo hmo => absurd hmo List.not_mem_nil, fun m r m' hm hn hx => ?_⟩
  obtain ⟨rfl, rfl⟩ := Run.outcome_inj hx
  refine ⟨hm.add (hs _ hn hm.base_le), ?_, fun id hid => ?_⟩
  · rw [Store.size_add]
    exact Nat.le_succ _
  · obtain rfl := Except.ok.inj hid
    exact hm.has_nextId s

theorem addPrelude (hR : R.Reads) :
    R.Confines n (Run.addPrelude : Run ε _) (fun _ => []) R.Has := by
  refine addScope (s := (Scope.empty none).defineAll Store.preludeBindings) fun k _ _ => ?_
  have hempty : (Scope.empty none).Inside R k ⟨k⟩ := .empty fun o ho => nomatch ho
  exact hempty.defineAll fun b hb => (hR.prelude b hb).mono (Nat.zero_le k)

theorem exportedBindings {scope : ScopeId} (hscope : R.Has n scope) :
    R.Confines n (Run.exportedBindings scope) (fun _ => [])
      fun k bindings => ∀ b ∈ bindings, b.2.Inside R k := by
  refine ⟨fun _ _ _ mo hmo => absurd hmo List.not_mem_nil, fun m r m' hm hn hx => ?_⟩
  obtain ⟨rfl, rfl⟩ := Run.outcome_inj hx
  exact ⟨hm, Nat.le_refl _, fun bindings hb => hm.exportedBindings (hscope.mono hn) hb⟩

/-! ### The rules of evaluation -/

section

variable {files : FileSystem} {ev : Evaluator} {tr : Tracer} {scope : ScopeId}
  (hev : ∀ loads {n e scope}, e.Inside R n → R.Has n scope →
    R.Confines n (ev e scope) (tr loads e scope) (Expr.Inside R))
  (loads : List Files.Path)
include hev

theorem evalAll (hscope : R.Has n scope) {es : List Expr} (hes : ∀ e ∈ es, e.Inside R n) :
    R.Confines n (Eval.evalAll ev scope es) (Eval.sequenceMoments ev tr loads scope es)
      fun k vs => ∀ v ∈ vs, v.Inside R k := by
  induction es generalizing n with
  | nil => exact pure fun _ _ _ hv => absurd hv List.not_mem_nil
  | cons e es ih =>
      rw [List.forall_mem_cons] at hes
      refine (hev loads hes.1 hscope).bind fun k v hk hv => ?_
      have htail := ih (hscope.mono hk) fun e he => (hes.2 e he).mono hk
      refine htail.bind_silent fun l vs hl hvs => pure fun j hj => ?_
      exact List.forall_mem_cons.mpr
        ⟨hv.mono (Nat.le_trans hl hj), fun w hw => (hvs w hw).mono hj⟩

theorem runForms (hscope : R.Has n scope) {forms : List Expr}
    (hforms : ∀ e ∈ forms, e.Inside R n) :
    R.Confines n (Eval.runForms ev scope forms) (Eval.sequenceMoments ev tr loads scope forms)
      fun k v? => ∀ v ∈ v?, v.Inside R k := by
  induction forms generalizing n with
  | nil => exact pure fun _ _ _ hv => nomatch hv
  | cons e es ih =>
      rw [List.forall_mem_cons] at hforms
      cases es with
      | nil =>
          refine (hev loads hforms.1 hscope).bind fun k v _ hv => pure fun j hj w hw => ?_
          exact Option.some.inj hw ▸ hv.mono hj
      | cons e' es =>
          refine (hev loads hforms.1 hscope).bind fun k _ hk _ => ?_
          exact ih (hscope.mono hk) fun e he => (hforms.2 e he).mono hk

theorem apply (params : List String) {body : Expr} (hbody : body.Inside R n)
    {captured : ScopeId} (hcaptured : R.Has n captured) {arguments : List Expr}
    (harguments : ∀ v ∈ arguments, v.Inside R n) :
    R.Confines n (Eval.apply ev params body captured arguments)
      (Eval.applyMoments tr loads params body captured arguments) (Expr.Inside R) := by
  unfold Eval.apply Eval.applyMoments
  split
  · have hadd : R.Confines n (Run.addScope (Eval.callScope params captured arguments) :
        Run EvalError _) (fun _ => []) fun k id => R.Has k id :=
      addScope fun k hk _ => .callScope params (hcaptured.mono hk)
        fun v hv => (harguments v hv).mono hk
    exact hadd.bind fun k id hk hid => hev loads (hbody.mono hk) hid
  · exact fail _

theorem application (hscope : R.Has n scope) {head : Expr} (hhead : head.Inside R n)
    {arguments : List Expr} (harguments : ∀ e ∈ arguments, e.Inside R n) :
    R.Confines n (Eval.application ev head arguments scope)
      (Eval.applicationMoments ev tr loads head arguments scope) (Expr.Inside R) := by
  refine (hev loads hhead hscope).bind fun k value hk hvalue => ?_
  cases value with
  | closure params body captured =>
      obtain ⟨hbody, hcaptured⟩ := Expr.Inside.closure_iff.mp hvalue
      have hall := evalAll hev loads (hscope.mono hk) fun e he => (harguments e he).mono hk
      refine hall.bind fun j values hj hvalues => ?_
      exact apply hev loads params (hbody.mono hj) (hcaptured.mono hj) hvalues
  | symbol | number | string | list => exact fail _

theorem evalClauses (hscope : R.Has n scope) (whole : String) (index : Nat)
    {clauses : List Expr} (hclauses : ∀ e ∈ clauses, e.Inside R n) :
    R.Confines n (Eval.evalClauses ev whole scope index clauses)
      (Eval.clauseMoments ev tr loads scope clauses) (Expr.Inside R) := by
  induction clauses generalizing index n with
  | nil => exact fail _
  | cons clause rest ih =>
      rw [List.forall_mem_cons] at hclauses
      show R.Confines n _ (fun m => Eval.clauseMoments ev tr loads scope (clause :: rest) m) _
      simp only [Eval.evalClauses_cons, Eval.clauseMoments]
      cases hp : Eval.clausePair? clause with
      | none => exact fail _
      | some pair =>
          obtain ⟨hpredicate, hresult⟩ := hclauses.1.of_clausePair? hp
          refine (hev loads hpredicate hscope).bind fun k value hk _ => ?_
          by_cases hv : value.isTrue
          · simp only [if_pos hv]
            exact hev loads (hresult.mono hk) (hscope.mono hk)
          · simp only [if_neg hv]
            exact ih (hscope.mono hk) (index + 1) fun e he => (hclauses.2 e he).mono hk

/-! ### Programs -/

section
variable (hR : R.Reads)
include hR

omit hev in
/-- The forms of a file are of the realm, like everything that is read. -/
theorem inside_of_fileForms {path : String} {forms : List Expr}
    (h : Eval.fileForms files path = .ok forms) : ∀ e ∈ forms, e.Inside R n := by
  obtain ⟨source, -, hsource⟩ := Eval.exists_parse_of_fileForms files h
  exact fun e he => (hR.parsed source forms hsource e he).mono (Nat.zero_le n)

theorem withProgram {g : ScopeId → Option Expr → α}
    (hg : ∀ k id v?, R.Has k id → (∀ v ∈ v?, v.Inside R k) → Q k (g id v?)) (path : String) :
    R.Confines n (Eval.withProgram files path (Eval.runAs ev g))
      (Eval.programMoments files ev tr loads path) Q := by
  -- The forms are evaluated in the scope that comes next, in the state with that scope added.
  have hstart : ∀ c m, m.store.Inside R → (Eval.fileStart c m).store.Inside R ∧
      R.Has (Eval.fileStart c m).store.size m.store.nextId := fun c m hm => by
    have hprelude : R.Confines m.store.size (Run.addPrelude : Run EvalError _) _ _ :=
      addPrelude hR
    obtain ⟨hm', -, hroot⟩ := hprelude.ends m _ _ hm (Nat.le_refl _) rfl
    exact ⟨hm', hroot _ rfl⟩
  have hforms : ∀ c m forms, m.store.Inside R → Eval.fileForms files path = .ok forms →
      R.Confines (Eval.fileStart c m).store.size (Eval.runForms ev m.store.nextId forms)
        (Eval.sequenceMoments ev tr (loads ++ [c]) m.store.nextId forms)
        fun k v? => ∀ v ∈ v?, v.Inside R k := fun c m forms hm hforms =>
    runForms hev _ (hstart c m hm).2 (inside_of_fileForms hR hforms)
  refine ⟨fun m hm hn mo hmo => ?_, fun m r m' hm hn h => ?_⟩
  · unfold Eval.programMoments at hmo
    cases hc : files.canonical? path with
    | error e => simp [hc] at hmo
    | ok c =>
        simp only [hc] at hmo
        by_cases hmem : c ∈ m.loading
        · simp [if_pos hmem] at hmo
        rw [if_neg hmem] at hmo
        rcases List.mem_cons.mp hmo with rfl | hmo
        · exact ⟨hm, fun e scope he => nomatch he⟩
        cases hf : Eval.fileForms files path with
        | error e => simp [hf] at hmo
        | ok forms =>
            simp only [hf] at hmo
            exact (hforms c m forms hm hf).moments _ (hstart c m hm).1 (Nat.le_refl _) mo hmo
  · cases (Eval.withProgram_eq_some_iff files).mp h with
    | lost | cycle | unread => exact ⟨hm, Nat.le_refl _, fun a ha => nomatch ha⟩
    | @run c forms r m₁ hc hmem hf hrun =>
        obtain ⟨hm₁, hle, hv⟩ :=
          (hforms c m forms hm hf).ends _ _ _ (hstart c m hm).1 (Nat.le_refl _) hrun
        have hsize : m.store.size ≤ (Eval.fileStart c m).store.size := by
          rw [Eval.store_fileStart, Store.addPrelude, Store.size_add]
          exact Nat.le_succ _
        refine ⟨hm₁, Nat.le_trans hsize hle, fun a ha => ?_⟩
        cases r with
        | error e => cases ha
        | ok v? =>
            obtain rfl := Except.ok.inj ha
            exact hg _ _ v? ((hstart c m hm).2.mono hle) (hv v? rfl)

theorem loadProgram (path : String) :
    R.Confines n (Eval.loadProgram files ev path)
      (Eval.programMoments files ev tr loads path) R.Has :=
  withProgram hev loads hR (fun _ _ _ hid _ => hid) path

theorem runFile (path : String) :
    R.Confines n (Eval.runFile files ev path) (Eval.programMoments files ev tr loads path)
      fun k v? => ∀ v ∈ v?, v.Inside R k := by
  rw [Eval.runFile_eq]
  exact withProgram hev loads hR (fun _ _ _ _ hv => hv) path

theorem importExports (path : String) :
    R.Confines n (Eval.importExports files ev path)
      (Eval.programMoments files ev tr loads path)
      fun k bindings => ∀ b ∈ bindings, b.2.Inside R k :=
  (loadProgram hev loads hR path).bind_silent fun _ _ _ hid => (exportedBindings hid).mapError

theorem evaluateSource (hscope : R.Has n scope) (source : String) :
    R.Confines n (Eval.evaluateSource ev source scope)
      (Eval.sourceMoments ev tr loads source scope) fun k v? => ∀ v ∈ v?, v.Inside R k := by
  have hrun : ∀ forms, parse source = .ok forms →
      R.Confines n (Run.mapError .eval (Eval.runForms ev scope forms) : Run ProgramError _)
        (Eval.sequenceMoments ev tr loads scope forms) fun k v? => ∀ v ∈ v?, v.Inside R k :=
    fun forms hforms => (runForms hev loads hscope fun e he =>
      (hR.parsed source forms hforms e he).mono (Nat.zero_le n)).mapError
  refine ⟨fun m hm hn mo hmo => ?_, fun m r m' hm hn h => ?_⟩
  · unfold Eval.sourceMoments at hmo
    cases hp : parse source with
    | error e => simp [hp] at hmo
    | ok forms =>
        simp only [hp] at hmo
        exact (hrun forms hp).moments m hm hn mo hmo
  · rw [Eval.evaluateSource_apply] at h
    cases hp : parse source with
    | error e =>
        simp only [hp] at h
        obtain ⟨rfl, rfl⟩ := Run.outcome_inj h
        exact ⟨hm, Nat.le_refl _, fun a ha => nomatch ha⟩
    | ok forms =>
        simp only [hp] at h
        exact (hrun forms hp).ends m r m' hm hn h

/-! ### Special forms -/

end

theorem evalDef (hscope : R.Has n scope) {arguments : List Expr}
    (harguments : ∀ e ∈ arguments, e.Inside R n) :
    R.Confines n (Eval.evalDef ev arguments scope)
      (Eval.keywordMoments files ev tr loads .define arguments scope) (Expr.Inside R) := by
  rcases arguments with _ | ⟨a, _ | ⟨e, _ | ⟨_, _⟩⟩⟩
  · exact fail _
  · cases a <;> exact fail _
  · cases a with
    | symbol name =>
        refine (hev loads (harguments e (by simp)) hscope).bind_silent fun k value _ hvalue => ?_
        exact (define scope name hvalue).bind_silent fun _ _ _ _ => pure fun _ _ => .empty
    | number | string | list | closure => exact fail _
  · cases a <;> exact fail _

omit hev in
theorem evalFn (hscope : R.Has n scope) {arguments : List Expr}
    (harguments : ∀ e ∈ arguments, e.Inside R n) :
    R.Confines n (Eval.evalFn arguments scope) (fun _ => []) (Expr.Inside R) := by
  unfold Eval.evalFn
  split
  · next params body =>
      split
      · exact pure fun k hk => .closure ((harguments body (by simp)).mono hk) (hscope.mono hk)
      · exact fail _
  · exact fail _
  · exact fail _

omit hev in
theorem evalLiteral {arguments : List Expr} (harguments : ∀ e ∈ arguments, e.Inside R n) :
    R.Confines n (Eval.evalLiteral arguments) (fun _ => []) (Expr.Inside R) := by
  unfold Eval.evalLiteral
  split
  · exact pure fun k hk => (harguments _ List.mem_cons_self).mono hk
  · exact fail _

omit hev in
theorem evalExport (arguments : List Expr) :
    R.Confines n (Eval.evalExport arguments scope) (fun _ => []) (Expr.Inside R) := by
  unfold Eval.evalExport
  split
  · exact (markExported scope _).bind_silent fun _ _ _ _ => pure fun _ _ => .empty
  · exact fail _
  · exact fail _

variable (hR : R.Reads)
include hR

theorem evalImport (arguments : List Expr) :
    R.Confines n (Eval.evalImport files ev arguments scope)
      (Eval.keywordMoments files ev tr loads .importing arguments scope) (Expr.Inside R) := by
  rcases arguments with _ | ⟨a, _ | ⟨_, _⟩⟩
  · exact fail _
  · cases a with
    | string path =>
        refine (importExports hev loads hR path).mapError.bind_silent fun k bindings _ hb => ?_
        exact (defineAll scope hb).bind_silent fun _ _ _ _ => pure fun _ _ => .empty
    | symbol | number | list | closure => exact fail _
  · cases a <;> exact fail _

theorem evalKeyword (hscope : R.Has n scope) (key : Keyword) {arguments : List Expr}
    (harguments : ∀ e ∈ arguments, e.Inside R n) :
    R.Confines n (Eval.evalKeyword files ev key arguments scope)
      (Eval.keywordMoments files ev tr loads key arguments scope) (Expr.Inside R) := by
  cases key with
  | define => exact evalDef hev loads hscope harguments
  | function => exact evalFn hscope harguments
  | literal => exact evalLiteral harguments
  | case => exact evalClauses hev loads hscope _ 0 harguments
  | importing => exact evalImport hev loads hR arguments
  | exporting => exact evalExport arguments

theorem step (hscope : R.Has n scope) {e : Expr} (he : e.Inside R n) :
    R.Confines n (Eval.step files ev e scope) (Eval.stepMoments files ev tr loads e scope)
      (Expr.Inside R) := by
  cases he with
  | @symbol name hname =>
      refine (lookup hscope name).bind_silent fun k v? hk hv => ?_
      cases v? with
      | none => exact fail _
      | some v => exact pure fun j hj => (hv v rfl).mono hj
  | number hvalue => exact pure fun _ _ => .number hvalue
  | string content => exact pure fun _ _ => .string content
  | closure hbody hcaptured =>
      exact pure fun _ hk => .closure (hbody.mono hk) (hcaptured.mono hk)
  | @list items hitems =>
      cases items with
      | nil => exact pure fun _ _ => .empty
      | cons head arguments =>
          rw [List.forall_mem_cons] at hitems
          cases hk : Eval.keyword? head with
          | none =>
              have hmoments : Eval.stepMoments files ev tr loads (.list (head :: arguments)) scope =
                  Eval.applicationMoments ev tr loads head arguments scope :=
                funext fun m => Eval.stepMoments_application files ev tr loads hk arguments scope m
              rw [Eval.step_application files ev hk, hmoments]
              exact application hev loads hscope hitems.1 hitems.2
          | some key =>
              have hmoments : Eval.stepMoments files ev tr loads (.list (head :: arguments)) scope =
                  Eval.keywordMoments files ev tr loads key arguments scope :=
                funext fun m => Eval.stepMoments_form files ev tr loads hk arguments scope m
              rw [Eval.step_form files ev hk, hmoments]
              exact evalKeyword hev loads hR hscope key hitems.2

end

end Confines

/-- **Evaluation stays in its realm.** Whatever is evaluated with expressions and scopes of a
realm that holds what is read, nothing else comes up on the way or comes of it. -/
theorem eval_confined (hR : R.Reads) (files : FileSystem) (fuel : Nat)
    (loads : List Files.Path) {e : Expr} (he : e.Inside R n) {scope : ScopeId}
    (hscope : R.Has n scope) :
    R.Confines n (Eval.eval files fuel e scope) (Eval.evalMoments files fuel loads e scope)
      (Expr.Inside R) := by
  induction fuel generalizing n loads e scope with
  | zero =>
      exact ⟨fun _ _ _ mo hmo => absurd hmo List.not_mem_nil, fun m r m' _ _ h => nomatch h⟩
  | succ fuel ih =>
      have hstep : R.Confines n (Eval.step files (Eval.eval files fuel) e scope)
          (Eval.stepMoments files (Eval.eval files fuel) (Eval.evalMoments files fuel) loads e scope)
          (Expr.Inside R) := .step (fun loads {_ _ _} he hs => ih loads he hs) loads hR hscope he
      refine ⟨fun m hm hn mo hmo => ?_, hstep.ends⟩
      rcases List.mem_cons.mp hmo with rfl | hmo
      · refine ⟨hm, fun e' scope' hactivity => ?_⟩
        obtain ⟨rfl, rfl⟩ := Activity.evaluating.inj hactivity
        exact ⟨he.mono hn, hscope.mono hn⟩
      · exact hstep.moments m hm hn mo hmo

end Realm

end ModularLisp
