import ModularLisp.Proofs.RulesAgree

/-!
# ModularLisp.Proofs.CallFree

**Imports alone never loop.** An expression that calls no closure has only its parts to
evaluate and the files it imports, so it can run for ever only by way of files that import one
another without end. They can not: a file that is being loaded is not loaded again, and the
places in the file system are finitely many (`Files.FileSystem.canonicalPaths`).

The measure combines the two. The outer induction is on the number of places that are not on
the list of files being loaded (`unloaded`), which gets smaller with each file that is opened;
inside it, for one such list, the induction is on the expression. Both only ever ask the rules
for a derivation, so nothing here mentions fuel.
-/

namespace ModularLisp

open Files (FileSystem)

/-! ### Expressions that call nothing -/

/-- No closure is called when the expression is evaluated: it is an atom or the empty list, or a
special form whose parts are of the same kind as far as they may be evaluated. -/
inductive Expr.CallFree : Expr → Prop
  | symbol (name : String) : CallFree (.symbol name)
  | number (x : Number) : CallFree (.number x)
  | string (content : String) : CallFree (.string content)
  | closure (params : List String) (body : Expr) (scope : ScopeId) :
      CallFree (.closure params body scope)
  | empty : CallFree (.list [])
  /-- The value matters only if the form has the right shape. -/
  | define {arguments : List Expr} :
      (∀ name value, arguments = [.symbol name, value] → CallFree value) →
      CallFree (Keyword.define.form arguments)
  /-- Clauses that are no pairs do not matter. -/
  | case {clauses : List Expr} :
      (∀ predicate result, .list [predicate, result] ∈ clauses → CallFree predicate) →
      (∀ predicate result, .list [predicate, result] ∈ clauses → CallFree result) →
      CallFree (Keyword.case.form clauses)
  | other {k : Keyword} {arguments : List Expr} : k ≠ .define → k ≠ .case →
      CallFree (k.form arguments)

namespace Eval

/-- The operation `x`, started in `m`, ends with a value or an error. -/
def Halts {ε α : Type} (files : FileSystem) (x : Evaluator → Run ε α) (m : Machine) : Prop :=
  ∃ r m', Ends files x m r m'

variable {files : FileSystem}

/-- An evaluation leaves the list of files being loaded as it was. -/
theorem loading_of_evaluates {e : Expr} {scope : ScopeId} {m m' : Machine}
    {r : Except EvalError Expr} (h : Evaluates files e scope m r m') :
    m'.loading = m.loading := by
  obtain ⟨fuel, h⟩ := ends_of_evaluates h
  exact eval_effect effect_loading files fuel [] e scope _ _ _ h

/-! ### Evaluation with a list of files being loaded -/

/-- While these files are being loaded, evaluating the expression comes to an end, in every
scope and store. -/
def Settles (files : FileSystem) (loading : List Files.Path) (e : Expr) : Prop :=
  ∀ scope (m : Machine), m.loading = loading → ∃ r m', Evaluates files e scope m r m'

/-- While these files are being loaded, every import comes to an end. -/
def ImportsSettle (files : FileSystem) (loading : List Files.Path) : Prop :=
  ∀ path (m : Machine), m.loading = loading → ∃ r m', Imports files path m r m'

section

variable {loading : List Files.Path}

theorem each_settles {es : List Expr} (h : ∀ e ∈ es, Settles files loading e) (scope : ScopeId)
    {m : Machine} (hm : m.loading = loading) :
    ∃ r m', EvaluatesEach files es scope m r m' := by
  induction es generalizing m with
  | nil => exact ⟨_, _, .nil⟩
  | cons e es ih =>
      rw [List.forall_mem_cons] at h
      obtain ⟨r, m₁, he⟩ := h.1 scope m hm
      cases r with
      | error error => exact ⟨_, _, .fails he⟩
      | ok value =>
          obtain ⟨rs, m₂, hes⟩ := ih h.2 ((loading_of_evaluates he).trans hm)
          exact ⟨_, _, .cons he hes⟩

theorem selects_settles {clauses : List Expr}
    (hpredicate : ∀ predicate result, .list [predicate, result] ∈ clauses →
      Settles files loading predicate)
    (hresult : ∀ predicate result, .list [predicate, result] ∈ clauses →
      Settles files loading result)
    (whole : Expr) (index : Nat) (scope : ScopeId) {m : Machine} (hm : m.loading = loading) :
    ∃ r m', Selects files whole index clauses scope m r m' := by
  induction clauses generalizing index m with
  | nil => exact ⟨_, _, .exhausted⟩
  | cons clause rest ih =>
      rcases clause_cases clause with ⟨predicate, result, rfl⟩ | ⟨items, rfl, hlen⟩ | hother
      · obtain ⟨r, m₁, hp⟩ := hpredicate predicate result List.mem_cons_self scope m hm
        -- The predicate may import files, but they are off the list again when it is done.
        have hm₁ := (loading_of_evaluates hp).trans hm
        cases r with
        | error error => exact ⟨_, _, .predicateFails hp⟩
        | ok value =>
            by_cases htrue : value = .symbol Expr.trueName
            · subst htrue
              obtain ⟨r₂, m₂, hr⟩ := hresult predicate result List.mem_cons_self scope m₁ hm₁
              exact ⟨_, _, .chosen hp hr⟩
            · obtain ⟨r₂, m₂, hrest⟩ := ih
                (fun p q hpq => hpredicate p q (List.mem_cons_of_mem _ hpq))
                (fun p q hpq => hresult p q (List.mem_cons_of_mem _ hpq)) (index + 1) hm₁
              exact ⟨_, _, .passed hp htrue hrest⟩
      · exact ⟨_, _, .noPair hlen⟩
      · exact ⟨_, _, .noClause hother⟩

/-- What calls nothing settles if imports do. -/
theorem settles_of_callFree (himports : ImportsSettle files loading) {e : Expr}
    (h : e.CallFree) : Settles files loading e := by
  induction h with
  | symbol name =>
      intro scope m hm
      cases hv : m.store.lookup scope name with
      | none => exact ⟨_, _, .unbound hv⟩
      | some value => exact ⟨_, _, .bound hv⟩
  | number x => exact fun scope m hm => ⟨_, _, .number⟩
  | string content => exact fun scope m hm => ⟨_, _, .string⟩
  | closure params body captured => exact fun scope m hm => ⟨_, _, .closure⟩
  | empty => exact fun scope m hm => ⟨_, _, .empty⟩
  | @define arguments _ ih =>
      intro scope m hm
      rcases malformed_or_shaped .define arguments with ⟨error, hshape⟩ | hshape
      · exact ⟨_, _, .malformed hshape⟩
      cases hshape with
      | @define name e =>
          obtain ⟨r, m₁, he⟩ := ih name e rfl scope m hm
          cases r with
          | error error => exact ⟨_, _, .defineFails he⟩
          | ok value => exact ⟨_, _, .define he⟩
  | case _ _ ihpredicate ihresult =>
      intro scope m hm
      obtain ⟨r, m', hselects⟩ := selects_settles ihpredicate ihresult _ 0 scope hm
      exact ⟨_, _, .case hselects⟩
  | @other k arguments hdefine hcase =>
      intro scope m hm
      rcases malformed_or_shaped k arguments with ⟨error, hshape⟩ | hshape
      · exact ⟨_, _, .malformed hshape⟩
      cases hshape with
      | define => exact absurd rfl hdefine
      | case => exact absurd rfl hcase
      | function => exact ⟨_, _, .function⟩
      | literal => exact ⟨_, _, .literal⟩
      | exporting => exact ⟨_, _, .exports⟩
      | @importing path =>
          obtain ⟨r, m₁, himport⟩ := himports path m hm
          cases r with
          | error cause => exact ⟨_, _, .importFails himport⟩
          | ok bindings => exact ⟨_, _, .imports himport⟩

end

/-! ### Files -/

section

variable {path : String} {m : Machine}

/-- A load comes to an end if the forms of the file do, once it is on the list. -/
theorem halts_load {α : Type} (g : ScopeId → Option Expr → α)
    (hforms : ∀ c forms, files.canonical? path = .ok c → c ∉ m.loading →
      fileForms files path = .ok forms → ∀ e ∈ forms, Settles files (m.loading ++ [c]) e) :
    Halts files (fun ev => withProgram files path (runAs ev g)) m := by
  cases hc : files.canonical? path with
  | error e => exact ⟨_, _, 0, (withProgram_eq_some_iff files).mpr (.lost hc)⟩
  | ok c =>
      by_cases hmem : c ∈ m.loading
      · exact ⟨_, _, 0, (withProgram_eq_some_iff files).mpr (.cycle hc hmem)⟩
      cases hf : fileForms files path with
      | error e => exact ⟨_, _, 0, (withProgram_eq_some_iff files).mpr (.unread hc hmem hf)⟩
      | ok forms =>
          obtain ⟨source, hread, hparse⟩ := exists_parse_of_fileForms files hf
          obtain ⟨r, m₁, heach⟩ := each_settles (hforms c forms hc hmem hf) m.store.nextId
            (loading_fileStart c m)
          exact ⟨_, _, Ends.load g hc hmem hread hparse (ends_of_each heach)⟩

/-- What is read as a file is the content of some entry. -/
theorem mem_entries_of_readBytes {content : ByteArray} (h : files.readBytes path = .ok content) :
    ∃ p, (p, Files.Entry.file content) ∈ files.entries := by
  unfold FileSystem.readBytes at h
  split at h
  · cases h
  split at h
  · cases h
  next p hp =>
    split at h
    · next content' hentry =>
        obtain rfl := Except.ok.inj h
        unfold FileSystem.entry? at hentry
        split at hentry
        · cases hentry
        · obtain ⟨l₁, l₂, hl, -⟩ := List.lookup_eq_some_iff.mp hentry
          exact ⟨p, by rw [hl]; simp⟩
    · cases h
    · cases h

/-- The forms of a file are those of some entry that is a text. -/
theorem exists_entry_of_fileForms {forms : List Expr} (h : fileForms files path = .ok forms) :
    ∃ p content source, (p, Files.Entry.file content) ∈ files.entries ∧
      String.fromUTF8? content = some source ∧ parse source = .ok forms := by
  obtain ⟨source, hread, hparse⟩ := exists_parse_of_fileForms files h
  unfold FileSystem.readText at hread
  split at hread
  · cases hread
  next content hbytes =>
    obtain ⟨p, hp⟩ := mem_entries_of_readBytes hbytes
    split at hread
    · next text htext =>
        obtain rfl := Except.ok.inj hread
        exact ⟨p, content, text, hp, htext, hparse⟩
    · cases hread

/-- Collecting exports takes no evaluation. -/
theorem imports_of_halts (h : Halts files (fun ev => loadProgram files ev path) m) :
    ∃ r m', Imports files path m r m' := by
  have hhalts : Halts files (fun ev => importExports files ev path) m := by
    obtain ⟨r, m₁, hload⟩ := h
    cases r with
    | error cause => exact ⟨_, _, hload.bind_error⟩
    | ok root =>
        have hcollect : Run.mapError (fun name => ProgramError.eval (.unboundSymbol name))
            (Run.exportedBindings root) m₁ = some (_, m₁) :=
          Run.mapError_eq_some_iff.mpr ⟨_, rfl, rfl⟩
        exact ⟨_, _, Ends.bind (steady_loadProgram files path) (steady_const _) hload
          (.of_eq (fun _ => rfl) hcollect)⟩
  obtain ⟨r, m', fuel, hfuel⟩ := hhalts
  exact ⟨r, m', imports_of_importExports evaluates_of_eval hfuel⟩

end

/-! ### The measure -/

/-- The places of the file system that are not on the list of files being loaded. -/
def unloaded (files : FileSystem) (loading : List Files.Path) : Set Files.Path :=
  { c ∈ files.canonicalPaths | c ∉ loading }

theorem finite_unloaded (files : FileSystem) (loading : List Files.Path) :
    (unloaded files loading).Finite :=
  files.finite_canonicalPaths.subset fun _ hc => hc.1

/-- Opening a file that is not being loaded leaves fewer places that are not. -/
theorem ncard_unloaded_lt {path : String} {c : Files.Path} {loading : List Files.Path}
    (hc : files.canonical? path = .ok c) (hmem : c ∉ loading) :
    (unloaded files (loading ++ [c])).ncard < (unloaded files loading).ncard := by
  refine Set.ncard_lt_ncard ⟨fun d hd => ?_, fun hsubset => ?_⟩ (finite_unloaded files loading)
  · exact ⟨hd.1, fun hmem => hd.2 (List.mem_append_left _ hmem)⟩
  · have hopened : c ∈ unloaded files (loading ++ [c]) := hsubset ⟨⟨path, hc⟩, hmem⟩
    exact hopened.2 (by simp)

/-! ### The law of imports without calls -/

section

variable (hfiles : ∀ path forms, fileForms files path = .ok forms → ∀ e ∈ forms, e.CallFree)
include hfiles

/-- Every import comes to an end, whatever is being loaded. -/
theorem importsSettle (loading : List Files.Path) : ImportsSettle files loading := by
  -- While the forms of the file are evaluated its path is on the list, and fewer places are left.
  induction hn : (unloaded files loading).ncard using Nat.strongRecOn generalizing loading with
  | _ n ih =>
    subst hn
    rintro path m rfl
    refine imports_of_halts (halts_load (fun root _ => root) fun c forms hc hmem hf e he => ?_)
    have hsettle := ih _ (ncard_unloaded_lt hc hmem) (m.loading ++ [c]) rfl
    exact settles_of_callFree hsettle (hfiles path forms hf e he)

/-- The forms of every file come to an end, whatever is being loaded. -/
theorem forms_settle {path : String} {forms : List Expr} (hf : fileForms files path = .ok forms)
    (loading : List Files.Path) : ∀ e ∈ forms, Settles files loading e :=
  fun e he => settles_of_callFree (importsSettle hfiles loading) (hfiles path forms hf e he)

/-- **Imports alone never loop.** If no form of any file calls a closure, then every expression
that calls none comes to an end in every scope and from every state, and so does every way of
running a file; whatever the files import, themselves included. -/
theorem callFree_halts (m : Machine) :
    (∀ e : Expr, e.CallFree → ∀ scope, Halts files (fun ev => ev e scope) m) ∧
    ∀ path, Halts files (fun ev => runFile files ev path) m ∧
      Halts files (fun ev => loadProgram files ev path) m ∧
      Halts files (fun ev => importExports files ev path) m := by
  refine ⟨fun e he scope => ?_, fun path => ⟨?_, ?_, ?_⟩⟩
  · obtain ⟨r, m', h⟩ := settles_of_callFree (importsSettle hfiles m.loading) he scope m rfl
    exact ⟨r, m', ends_of_evaluates h⟩
  · simp only [runFile_eq]
    exact halts_load _ fun c forms _ _ hf => forms_settle hfiles hf _
  · exact halts_load _ fun c forms _ _ hf => forms_settle hfiles hf _
  · obtain ⟨r, m', h⟩ := importsSettle hfiles m.loading path m rfl
    exact ⟨r, m', ends_of_imports h⟩

end

/-- Two files that import each other and themselves, under several spellings, once in a
predicate; besides, they import a file that is no program and one that is not there. -/
def tangledFiles : FileSystem :=
  ⟨[(["a"], .file "(import \"b\") (def x (import \"b\"))".toUTF8),
    (["b"], .file "(case ((import \"./b\") (import \"a\"))) (import \"c\") (import \"d\")".toUTF8),
    (["c"], .file "(f".toUTF8)], []⟩

/-- Importing and running these files comes to an end. -/
theorem callFree_halts_tangledFiles :
    (∀ path forms, fileForms tangledFiles path = .ok forms → ∀ e ∈ forms, e.CallFree) ∧
      Halts tangledFiles (fun ev => ev (importForm "a") ⟨0⟩) Machine.start ∧
      Halts tangledFiles (fun ev => runFile tangledFiles ev "b") Machine.start := by
  have himport : ∀ path, (importForm path).CallFree := fun path =>
    .other (k := .importing) (by decide) (by decide)
  have hfiles : ∀ path forms, fileForms tangledFiles path = .ok forms →
      ∀ e ∈ forms, e.CallFree := by
    intro path forms h
    obtain ⟨p, content, source, hentry, htext, hparse⟩ := exists_entry_of_fileForms h
    simp only [tangledFiles, List.mem_cons, Prod.mk.injEq, Files.Entry.file.injEq,
      List.not_mem_nil, or_false] at hentry
    rcases hentry with ⟨-, rfl⟩ | ⟨-, rfl⟩ | ⟨-, rfl⟩
    · obtain rfl : source = "(import \"b\") (def x (import \"b\"))" :=
        Option.some.inj (htext.symm.trans (by cbv))
      have hforms : forms = [importForm "b", Keyword.define.form [.symbol "x", importForm "b"]] :=
        Except.ok.inj (hparse.symm.trans (by cbv))
      rw [hforms, List.forall_mem_cons, List.forall_mem_singleton]
      refine ⟨himport _, .define fun name value heq => ?_⟩
      obtain ⟨rfl, -⟩ := List.cons.inj (List.cons.inj heq).2
      exact himport _
    · obtain rfl : source =
          "(case ((import \"./b\") (import \"a\"))) (import \"c\") (import \"d\")" :=
        Option.some.inj (htext.symm.trans (by cbv))
      have hforms : forms = [Keyword.case.form [.list [importForm "./b", importForm "a"]],
          importForm "c", importForm "d"] := Except.ok.inj (hparse.symm.trans (by cbv))
      rw [hforms, List.forall_mem_cons, List.forall_mem_cons, List.forall_mem_singleton]
      refine ⟨.case ?_ ?_, himport _, himport _⟩
      all_goals
        intro predicate result hclause
        obtain ⟨rfl, rfl⟩ : predicate = importForm "./b" ∧ result = importForm "a" := by
          simpa using hclause
        exact himport _
    · obtain rfl : source = "(f" := Option.some.inj (htext.symm.trans (by cbv))
      have hbad : (parse "(f").toOption = none := by cbv
      rw [hparse] at hbad
      cases hbad
  obtain ⟨hexprs, hpaths⟩ := callFree_halts hfiles Machine.start
  exact ⟨hfiles, hexprs _ (himport "a") ⟨0⟩, (hpaths "b").1⟩

end Eval

end ModularLisp
