import ModularLisp.CommandLine.Basic
import ModularLisp.Proofs.ImportCycle
import ModularLisp.Proofs.LineByLine

/-!
# ModularLisp.Proofs.NestedCauses

**An error tells every import once.** An error of a program may wrap an error of evaluation, and a
failed import wraps the error of a program again. Only the import is a level of its own, with a text
and with the error below it as its cause; an error that merely wraps another has the text and the
cause of what it wraps (`ProgramError.source?`). So when the causes of an error are asked for one
after the other (`ProgramError.Tells`), there is one text for each import on the way and one for
what went wrong in the end.

Both the report of a run and the line of a session list what is told in this way
(`Eval.every_import_told_once`).
-/

namespace ModularLisp

open Files (FileSystem)

/-! ### Walking along causes -/

/-- What caused an error of evaluation, if it was caused by another error. -/
def EvalError.source? : EvalError → Option ProgramError
  | importFailed _ cause => some cause
  | _ => none

namespace ProgramError

/-- What caused an error of a program. One that wraps an error of evaluation has the cause of
that. -/
def source? : ProgramError → Option ProgramError
  | eval error => error.source?
  | io _ | parse _ | cycle _ => none

/-- The texts met on the way from an error to its cause, to the cause of that, and so on. -/
inductive Tells : ProgramError → List String → Prop
  | last {e : ProgramError} : e.source? = none → Tells e [e.message]
  | next {e cause : ProgramError} {texts : List String} : e.source? = some cause →
      Tells cause texts → Tells e (e.message :: texts)

theorem chain_of_source?_none {e : ProgramError} (h : e.source? = none) :
    e.chain = [e.message] := by
  cases e with
  | io | parse | cycle => rfl
  | eval error =>
      cases error with
      | importFailed => cases h
      | unboundSymbol | notCallable | arityMismatch | invalidForm | noMatchingCase => rfl

theorem chain_of_source?_some {e cause : ProgramError} (h : e.source? = some cause) :
    e.chain = e.message :: cause.chain := by
  cases e with
  | io | parse | cycle => cases h
  | eval error =>
      cases error with
      | importFailed path inner =>
          obtain rfl := Option.some.inj h
          rfl
      | unboundSymbol | notCallable | arityMismatch | invalidForm | noMatchingCase => cases h

/-- What is told, and nothing else, is the chain of the error. -/
theorem Tells.eq_chain {e : ProgramError} {texts : List String} (h : e.Tells texts) :
    texts = e.chain := by
  induction h with
  | last hnone => exact (chain_of_source?_none hnone).symm
  | next hsome _ ih => rw [chain_of_source?_some hsome, ih]

end ProgramError

/-! ### Imports inside imports -/

namespace Eval

/-- The error is no failed import. -/
def NoImport (e : ProgramError) : Prop :=
  ∀ path inner, e ≠ .eval (.importFailed path inner)

theorem noImport_iff {e : ProgramError} : NoImport e ↔ e.source? = none := by
  constructor
  · intro h
    cases e with
    | io | parse | cycle => rfl
    | eval error =>
        cases error with
        | importFailed path inner => exact absurd rfl (h path inner)
        | unboundSymbol | notCallable | arityMismatch | invalidForm | noMatchingCase => rfl
  · rintro h path inner rfl
    cases h

/-- Every error is that of nested imports, of which there may be none, around another error. -/
theorem exists_importChain : (e : ProgramError) →
    ∃ cause paths, NoImport cause ∧ e = importChain cause paths
  | .io _ | .parse _ | .cycle _ => ⟨_, [], noImport_iff.mpr rfl, rfl⟩
  | .eval (.unboundSymbol _) | .eval (.notCallable ..) | .eval (.arityMismatch ..)
  | .eval (.invalidForm _) | .eval (.noMatchingCase _) => ⟨_, [], noImport_iff.mpr rfl, rfl⟩
  | .eval (.importFailed path inner) => by
      obtain ⟨cause, paths, hcause, hinner⟩ := exists_importChain inner
      exact ⟨cause, path :: paths, hcause, by rw [hinner, importChain]⟩

/-- What is told of imports inside imports: a text for each, outermost first, and the text of what
went wrong in the end. -/
def nestedTexts (cause : ProgramError) (paths : List String) : List String :=
  paths.map (fun path => "Error importing module '" ++ path ++ "'") ++ [cause.message]

variable {cause : ProgramError}

theorem tells_importChain (h : NoImport cause) (paths : List String) :
    (importChain cause paths).Tells (nestedTexts cause paths) := by
  induction paths with
  | nil => exact .last (noImport_iff.mp h)
  | cons path paths ih => exact .next rfl ih

theorem chain_importChain (h : NoImport cause) (paths : List String) :
    (importChain cause paths).chain = nestedTexts cause paths :=
  (tells_importChain h paths).eq_chain.symm

theorem length_nestedTexts (cause : ProgramError) (paths : List String) :
    (nestedTexts cause paths).length = paths.length + 1 := by
  rw [nestedTexts, List.length_append, List.length_map, List.length_singleton]

end Eval

/-! ### Where errors are shown -/

namespace CommandLine

/-- Running the text or the file as a program of its own fails with the error. -/
def Source.Fails (files : FileSystem) (e : ProgramError) : Source → Prop
  | text source => ∃ m', Eval.Ends files
      (fun ev => Eval.evaluateSource ev source Machine.start.store.nextId)
      { Machine.start with store := Machine.start.store.addPrelude } (.error e) m'
  | file path => ∃ m', Eval.Ends files (fun ev => Eval.runFile files ev path) Machine.start
      (.error e) m'

/-- What is said to have been attempted. -/
def Source.attempt : Source → String
  | text _ => "Failed to evaluate expression"
  | file path => "Failed to run '" ++ path ++ "'"

/-- A run that fails has status one, no output and a report of the chain of the error. -/
theorem Source.Fails.execute {inv : Invocation} {source : Source} {e : ProgramError}
    (h : source.Fails inv.files e)
    (hrequest : Request.ofArguments? inv.arguments = some (.run source)) :
    ∃ n, ∀ fuel, n ≤ fuel →
      execute inv fuel = some ⟨1, "", report source.attempt e.chain, inv.files⟩ := by
  have hexecute : ∀ fuel, CommandLine.execute inv fuel = runSource inv.files fuel source := by
    intro fuel
    rw [CommandLine.execute, hrequest]
  cases source with
  | text source =>
      obtain ⟨m', hends⟩ := h
      obtain ⟨n, hends⟩ := hends.eventually (Eval.steady_evaluateSource _ _)
      refine ⟨n, fun fuel hfuel => ?_⟩
      rw [hexecute, runSource, hends fuel hfuel]
      rfl
  | file path =>
      obtain ⟨m', hends⟩ := h
      obtain ⟨n, hends⟩ := hends.eventually (Eval.steady_runFile _ _)
      refine ⟨n, fun fuel hfuel => ?_⟩
      rw [hexecute, runSource, hends fuel hfuel]
      rfl

/-- The causes of a report. A single one has no number; of several the outermost has the number
zero. -/
theorem causeList_nestedTexts (cause : ProgramError) (paths : List String) :
    causeList (Eval.nestedTexts cause paths) =
      if paths = [] then "    " ++ indentRest "    " cause.message ++ "\n"
      else String.join ((Eval.nestedTexts cause paths).mapIdx numberedCause) := by
  cases paths with
  | nil => rfl
  | cons path paths =>
      rw [if_neg (List.cons_ne_nil _ _), causeList]
      intro text htext
      have hlength := congrArg List.length htext
      simp [Eval.length_nestedTexts] at hlength

end CommandLine

namespace Session

variable {files : FileSystem} {typed line : String}

/-- A line that fails shows the chain of its error and leaves the state that the failure left. -/
theorem take_failing (h : Leaves typed line) (hblank : trimmed line ≠ "")
    (hexit : trimmed line ≠ ".exit") {s : State} {e : ProgramError} {m' : Machine}
    (hends : Eval.Ends files (fun ev => Eval.evaluateSource ev (trimmed line) s.scope) s.machine
      (.error e) m') :
    ∃ n, ∀ fuel, n ≤ fuel → s.take files fuel typed = some ⟨"", CommandLine.failureLine e.chain,
      { s with line := s.line + 1, history := s.history.add line, machine := m' }, .running⟩ := by
  obtain ⟨n, hends⟩ := hends.eventually (Eval.steady_evaluateSource _ _)
  refine ⟨n, fun fuel hfuel => ?_⟩
  rw [take_eq_run h hblank hexit, State.run, hends fuel hfuel]

end Session

namespace Eval

open CommandLine Session

/-! ### The law of nested causes -/

/-- **Every import is told once.** Every error of a program is that of imports inside one another,
of which there may be none, around an error that is no failed import. The causes asked for from
it one after the other have exactly these texts: one for each import, outermost first, and that of
the error inside. So a command line whose run fails with it writes what was attempted and then
these texts, numbered from zero if there are several, shows nothing else and has status one; and a
line of a session that fails with it shows these texts on one line. -/
theorem every_import_told_once :
    (∀ e : ProgramError, ∃ cause paths, NoImport cause ∧ e = importChain cause paths) ∧
    ∀ cause paths, NoImport cause →
      (∀ texts, (importChain cause paths).Tells texts ↔ texts = nestedTexts cause paths) ∧
      (nestedTexts cause paths).length = paths.length + 1 ∧
      (∀ (inv : Invocation) source, Request.ofArguments? inv.arguments = some (.run source) →
        source.Fails inv.files (importChain cause paths) →
        ∃ n, ∀ fuel, n ≤ fuel → execute inv fuel = some
          ⟨1, "", "Error: " ++ source.attempt ++ "\n\nCaused by:\n" ++
            (if paths = [] then "    " ++ indentRest "    " cause.message ++ "\n"
              else String.join ((nestedTexts cause paths).mapIdx numberedCause)), inv.files⟩) ∧
      ∀ files (s : State) typed line m', Leaves typed line → trimmed line ≠ "" →
        trimmed line ≠ ".exit" →
        Ends files (fun ev => evaluateSource ev (trimmed line) s.scope) s.machine
          (.error (importChain cause paths)) m' →
        ∃ n, ∀ fuel, n ≤ fuel → s.take files fuel typed = some
          ⟨"", "\x1b[1m\x1b[31mError\x1b[39m\x1b[0m: " ++
            ": ".intercalate (nestedTexts cause paths) ++ "\n",
            { s with line := s.line + 1, history := s.history.add line, machine := m' },
            .running⟩ := by
  refine ⟨exists_importChain, fun cause paths hcause => ?_⟩
  have hchain := chain_importChain hcause paths
  refine ⟨fun texts => ⟨fun h => h.eq_chain.trans hchain, ?_⟩, length_nestedTexts cause paths, ?_,
    ?_⟩
  · rintro rfl
    exact tells_importChain hcause paths
  · intro inv source hrequest hfails
    obtain ⟨n, hrun⟩ := hfails.execute hrequest
    refine ⟨n, fun fuel hfuel => ?_⟩
    rw [hrun fuel hfuel, hchain, report, causeList_nestedTexts]
  · intro files s typed line m' hleaves hblank hexit hends
    obtain ⟨n, htake⟩ := take_failing hleaves hblank hexit hends
    refine ⟨n, fun fuel hfuel => ?_⟩
    rw [htake fuel hfuel, hchain]
    rfl

/-- A file that imports another one, and that one means nothing. -/
def importOfUnbound : FileSystem :=
  ⟨[(["o"], .file "(import \"b\")".toUTF8), (["b"], .file "boom".toUTF8)], []⟩

/-- Two imports inside each other around a name without a value: three causes, listed below each
other by a run and joined by a session. -/
theorem every_import_told_once_unbound :
    ∃ fuel reply,
      execute ⟨["run", "-e", "(import \"o\")"], "", [], importOfUnbound⟩ fuel = some
        ⟨1, "", "Error: Failed to evaluate expression\n\nCaused by:\n" ++
          "    0: Error importing module 'o'\n    1: Error importing module 'b'\n" ++
          "    2: Unbound symbol: boom\n", importOfUnbound⟩ ∧
      (State.start .empty).take importOfUnbound fuel "(import \"o\")" = some reply ∧
      reply.errors = "\x1b[1m\x1b[31mError\x1b[39m\x1b[0m: Error importing module 'o': " ++
        "Error importing module 'b': Unbound symbol: boom\n" := by
  have hline : trimmed "(import \"o\")" = "(import \"o\")" := by cbv
  have hends : Ends importOfUnbound
      (fun ev => evaluateSource ev (trimmed "(import \"o\")") (State.start .empty).scope)
      (State.start .empty).machine
      (.error (importChain (.eval (.unboundSymbol "boom")) ["o", "b"]))
      { Machine.start with store := Machine.start.store.addPrelude.addPrelude.addPrelude } :=
    ⟨4, by cbv⟩
  have hcauses : nestedTexts (.eval (.unboundSymbol "boom")) ["o", "b"] =
      ["Error importing module 'o'", "Error importing module 'b'", "Unbound symbol: boom"] := rfl
  obtain ⟨-, -, hrun, hsession⟩ := every_import_told_once.2 (.eval (.unboundSymbol "boom"))
    ["o", "b"] (noImport_iff.mpr rfl)
  obtain ⟨n, hrun⟩ := hrun ⟨["run", "-e", "(import \"o\")"], "", [], importOfUnbound⟩
    (.text "(import \"o\")") (by cbv) ⟨_, hline ▸ hends⟩
  obtain ⟨n', hsession⟩ := hsession importOfUnbound (.start .empty) "(import \"o\")"
    "(import \"o\")" _ (by decide +kernel) (by cbv) (by cbv) hends
  refine ⟨max n n', _, (hrun _ (by omega)).trans ?_, hsession _ (by omega), ?_⟩
  · rw [hcauses]
    rfl
  · rw [hcauses]
    rfl

end Eval

end ModularLisp
