import ModularLisp.CommandLine.Basic
import ModularLisp.Proofs.Adjacency
import ModularLisp.Proofs.FormByForm
import ModularLisp.Proofs.RulesAgree

/-!
# ModularLisp.Proofs.LineByLine

**A session and one run of all its lines.** A session runs each line as a program by itself, a
command line runs one text. Where no line fails, both do the same
(`session_agrees_with_whole_text`), and that takes two things: the text of all lines has the
forms of the lines, one line after the other (`Session.parse_joined`), and running forms one
after the other in one scope is running them line by line (`Session.Course.evaluatesEach`).

The first is about line feeds. A line feed ends an atom, and it ends a comment that the end
of its line ended before; so a program is not changed by what stands on the lines after it
(`Grammar.program_lineFeed`).
-/

namespace ModularLisp

/-! ### Texts of several lines -/

namespace Grammar

theorem atomEnd_lineFeed (t : List Char) : AtomEnd ('\n' :: t) :=
  atomEnd_cons (by decide) t

theorem AtomEnd.append_of_atomEnd {s t : List Char} (h : AtomEnd s) (ht : AtomEnd t) :
    AtomEnd (s ++ t) := by
  cases s with
  | nil => exact ht
  | cons c s => exact h

/-- What comes after a sequence of forms does not change it if it goes on with no atom. -/
theorem Forms.append_of_atomEnd {s r t : List Char} {es : List Expr} (h : Forms s es r)
    (ht : AtomEnd t) : Forms (s ++ t) es (r ++ t) := by
  induction es generalizing s with
  | nil =>
      cases h
      exact .nil _
  | cons e es ih =>
      cases h with
      | cons htrivia hform hforms =>
          have hend := hform.atomEnd.imp_right fun h => h.append_of_atomEnd ht
          exact .cons (htrivia.append hform.ne_nil t) (hform.append t hend) (ih hforms)

/-- Trivia at the end of a text are trivia whatever comes after them, or the end of the text ends a
comment among them. -/
theorem Trivia.closed_or_open {r : List Char} (h : Trivia r []) : (∀ t, Trivia (r ++ t) t) ∨
    ∃ body, (∀ c ∈ body, c ≠ '\n' ∧ c ≠ '\r') ∧ Trivia r (';' :: body) := by
  generalize hend : [] = last at h
  induction h with
  | none =>
      subst hend
      exact .inl .none
  | blank hc _ ih =>
      refine (ih hend).imp (fun hclosed t => .blank hc (hclosed t)) ?_
      rintro ⟨body, hbody, htrivia⟩
      exact ⟨body, hbody, .blank hc htrivia⟩
  | @comment body s _ hbody hlineEnd _ ih =>
      by_cases hs : s = []
      · subst hs
        exact .inr ⟨body, hbody, by rw [List.append_nil]; exact .none _⟩
      refine (ih hend).imp (fun hclosed t => ?_) ?_
      · rw [List.cons_append, List.append_assoc]
        exact .comment hbody (hlineEnd.append hs t) (hclosed t)
      · rintro ⟨body', hbody', htrivia⟩
        exact ⟨body', hbody', .comment hbody hlineEnd htrivia⟩

/-- Trivia up to the end of a line are trivia up to the next line. -/
theorem Trivia.append_lineFeed {s : List Char} (h : Trivia s []) (t : List Char) :
    Trivia (s ++ '\n' :: t) t := by
  have hfeed : Trivia ('\n' :: t) t := .blank (by decide) (.none t)
  rcases h.closed_or_open with hclosed | ⟨body, hbody, hopen⟩
  · exact (hclosed _).trans hfeed
  · have hcomment : Trivia (';' :: (body ++ '\n' :: t)) t := .comment hbody (.lineFeed t) hfeed
    exact (hopen.append (List.cons_ne_nil _ _) _).trans hcomment

/-- Behind a program and a line feed there are the forms that there are without them. -/
theorem forms?_lineFeed {s : List Char} {es : List Expr} (hs : Program s es) (t : List Char) :
    Reader.forms? (s ++ '\n' :: t) = (Reader.forms? t).map fun p => (es ++ p.1, p.2) := by
  obtain ⟨r, hforms, htrivia⟩ := hs
  -- What follows the forms of the program is trivia up to the line feed.
  rw [forms?_of_forms (hforms.append_of_atomEnd (atomEnd_lineFeed t)),
    Reader.forms?_of_trivia (htrivia.append_lineFeed t)]

/-- Two programs with a line feed between them are one program. -/
theorem program_lineFeed {s t : List Char} {es fs : List Expr} (hs : Program s es)
    (ht : Program t fs) : Program (s ++ '\n' :: t) (es ++ fs) := by
  rw [program_iff] at ht ⊢
  rw [forms?_lineFeed hs, ht]
  rfl

end Grammar

theorem parse_lineFeed {s t : String} {es fs : List Expr} (hs : parse s = .ok es)
    (ht : parse t = .ok fs) : parse (s ++ "\n" ++ t) = .ok (es ++ fs) := by
  rw [Grammar.parse_eq_ok_iff] at hs ht ⊢
  have hprogram := Grammar.program_lineFeed hs ht
  rwa [show (s ++ "\n" ++ t).toList = s.toList ++ '\n' :: t.toList by simp]

theorem parse_empty : parse "" = .ok [] :=
  Grammar.parse_eq_ok_iff.mpr (Grammar.program_iff.mpr Grammar.forms?_nil)

/-- Programs that are written on lines of one text are one program. -/
theorem parse_intercalate {texts : List String} {programs : List (List Expr)}
    (h : List.Forall₂ (fun text forms => parse text = .ok forms) texts programs) :
    parse ("\n".intercalate texts) = .ok programs.flatten := by
  induction h with
  | nil => exact parse_empty
  | @cons text forms texts programs htext hrest ih =>
      cases hrest with
      | nil => simpa using htext
      | cons =>
          rw [String.intercalate_cons_cons, List.flatten_cons]
          exact parse_lineFeed htext ih

section

open Files (FileSystem)
open Eval

variable {files : FileSystem} {scope : ScopeId} {m m₁ m' : Machine}

/-! ### Forms one after the other -/

theorem evaluatesEach_cons_ok_iff {e : Expr} {es values : List Expr} :
    EvaluatesEach files (e :: es) scope m (.ok values) m' ↔ ∃ value rest m₁,
      values = value :: rest ∧ Evaluates files e scope m (.ok value) m₁ ∧
        EvaluatesEach files es scope m₁ (.ok rest) m' := by
  constructor
  · intro h
    generalize hr : Except.ok values = r at h
    cases h with
    | fails => cases hr
    | @cons _ value _ _ _ m₁ _ r he hes =>
        cases r with
        | error error => cases hr
        | ok rest => exact ⟨value, rest, m₁, Except.ok.inj hr, he, hes⟩
  · rintro ⟨value, rest, m₁, rfl, he, hes⟩
    exact .cons he hes

theorem EvaluatesEach.append {es es' values values' : List Expr}
    (h : EvaluatesEach files es scope m (.ok values) m₁)
    (h' : EvaluatesEach files es' scope m₁ (.ok values') m') :
    EvaluatesEach files (es ++ es') scope m (.ok (values ++ values')) m' := by
  induction es generalizing m values with
  | nil =>
      cases h
      exact h'
  | cons e es ih =>
      obtain ⟨value, rest, m₂, rfl, he, hes⟩ := evaluatesEach_cons_ok_iff.mp h
      exact .cons he (ih hes)

theorem EvaluatesEach.length_eq {es values : List Expr}
    (h : EvaluatesEach files es scope m (.ok values) m') : values.length = es.length := by
  induction es generalizing m values with
  | nil =>
      cases h
      rfl
  | cons e es ih =>
      obtain ⟨value, rest, m₂, rfl, he, hes⟩ := evaluatesEach_cons_ok_iff.mp h
      simp [ih hes]

/-- What it takes to run a text with success: its forms are evaluated one after the other. -/
theorem evaluatesEach_of_source {source : String} {value : Option Expr}
    (h : Ends files (fun ev => evaluateSource ev source scope) m (.ok value) m') :
    ∃ forms values, parse source = .ok forms ∧
      EvaluatesEach files forms scope m (.ok values) m' ∧ value = values.getLast? := by
  obtain ⟨fuel, h⟩ := h
  simp only [evaluateSource_apply] at h
  cases hparse : parse source with
  | error e => simp [hparse] at h
  | ok forms =>
      simp only [hparse] at h
      obtain ⟨r₀, hrun, hr₀⟩ := Run.mapError_eq_some_iff.mp h
      obtain ⟨r₁, heach, rfl⟩ := evaluatesEach_of_runForms (fun h => evaluates_of_eval h) hrun
      cases r₁ with
      | error e => cases hr₀
      | ok values => exact ⟨forms, values, rfl, heach, Except.ok.inj hr₀⟩

/-- An operation that ends does so with all fuel from some amount on. -/
theorem Eval.Ends.eventually {ε α : Type} {x : Evaluator → Run ε α} (hx : Steady x)
    {r : Except ε α} (h : Ends files x m r m') :
    ∃ n, ∀ fuel, n ≤ fuel → x (eval files fuel) m = some (r, m') := by
  obtain ⟨n, h⟩ := h
  exact ⟨n, fun fuel hfuel => hx (eval_below files hfuel) _ _ h⟩

end

namespace Session

open Files (FileSystem)

variable (files : FileSystem)

/-! ### Lines one after the other -/

/-- Lines taken one after the other in a scope, all of them with success: the value of each,
and the state after the last. No line is the one that ends a session. -/
inductive Course (scope : ScopeId) :
    Machine → List String → List (Option Expr) → Machine → Prop
  | nil (m : Machine) : Course scope m [] [] m
  | blank {m m' : Machine} {line : String} {lines : List String}
      {values : List (Option Expr)} : trimmed line = "" → Course scope m lines values m' →
      Course scope m (line :: lines) (none :: values) m'
  | line {m m₁ m' : Machine} {line : String} {lines : List String} {value : Option Expr}
      {values : List (Option Expr)} : trimmed line ≠ "" → trimmed line ≠ ".exit" →
      Eval.Ends files (fun ev => Eval.evaluateSource ev (trimmed line) scope) m (.ok value) m₁ →
      Course scope m₁ lines values m' → Course scope m (line :: lines) (value :: values) m'

/-- The text of the lines. -/
def joined (lines : List String) : String :=
  "\n".intercalate (lines.map trimmed)

variable {files} {scope : ScopeId} {m m' : Machine} {lines : List String}
  {values : List (Option Expr)}

/-- The forms of the lines are evaluated one after the other. A line has a value if it has a
form, and the last of the values is that of the last form. -/
theorem Course.evaluatesEach (h : Course files scope m lines values m') :
    ∃ programs results,
      List.Forall₂ (fun line forms => parse (trimmed line) = .ok forms) lines programs ∧
      List.Forall₂ (fun forms value => value = none ↔ forms = []) programs values ∧
      EvaluatesEach files programs.flatten scope m (.ok results) m' ∧
      results.getLast? = values.reduceOption.getLast? := by
  induction h with
  | nil m => exact ⟨[], [], .nil, .nil, .nil, rfl⟩
  | blank hline _ ih =>
      obtain ⟨programs, results, hparse, hvalues, heach, hlast⟩ := ih
      refine ⟨[] :: programs, results, .cons ?_ hparse, .cons (by simp) hvalues, heach, hlast⟩
      rw [hline, parse_empty]
  | @line m m₁ m' line lines value values _ _ hends _ ih =>
      obtain ⟨programs, results, hparse, hvalues, heach, hlast⟩ := ih
      obtain ⟨forms, first, hforms, hfirst, rfl⟩ := evaluatesEach_of_source hends
      refine ⟨forms :: programs, first ++ results, .cons hforms hparse, .cons ?_ hvalues,
        hfirst.append heach, ?_⟩
      · rw [List.getLast?_eq_none_iff, ← List.length_eq_zero_iff, hfirst.length_eq,
          List.length_eq_zero_iff]
      · cases hvalue : first.getLast? with
        | none => simp_all [List.reduceOption_cons_of_none]
        | some value =>
            simp_all [List.reduceOption_cons_of_some, List.getLast?_append, List.getLast?_cons]

/-- The text of the lines has the forms of the lines, one line after the other. -/
theorem parse_joined {programs : List (List Expr)}
    (h : List.Forall₂ (fun line forms => parse (trimmed line) = .ok forms) lines programs) :
    parse (joined lines) = .ok programs.flatten :=
  parse_intercalate (List.forall₂_map_left_iff.mpr h)

/-! ### Sessions without failures -/

/-- The typed line is this line when every backspace in it has done its work. -/
def Leaves (typed line : String) : Prop :=
  erase? typed.toList = some line.toList

instance (typed line : String) : Decidable (Leaves typed line) :=
  inferInstanceAs (Decidable (erase? typed.toList = some line.toList))

/-- The session ends before these typed lines, or with the first of them. -/
inductive Closing : List String → Prop
  | inputEnds : Closing []
  | exit {typed line : String} (later : List String) : Leaves typed line →
      trimmed line = ".exit" → Closing (typed :: later)

/-- What asks for the line with the given number, if lines are asked for. -/
def asking (prompting : Bool) (line : Nat) : String :=
  if prompting then "flisp (" ++ toString line ++ ")> " else ""

/-- What is shown of a session in which lines from the given number on have these values, up
to and including what asks for the line after them. -/
def transcript (prompting : Bool) : Nat → List (Option Expr) → String
  | line, [] => asking prompting line
  | line, value :: values =>
      asking prompting line ++ CommandLine.shown value ++ transcript prompting (line + 1) values

/-- Where lines are not asked for, only their values are shown. -/
theorem transcript_false (line : Nat) (values : List (Option Expr)) :
    transcript false line values = String.join (values.map CommandLine.shown) := by
  induction values generalizing line with
  | nil => rfl
  | cons value values ih => simp [transcript, asking, ih]

/-- The session has ended as it should, without a failure. -/
structure Reply.Concludes (reply : Reply) (output : String) (m : Machine) : Prop where
  output : reply.output = output
  errors : reply.errors = ""
  phase : reply.phase = .ended
  machine : reply.state.machine = m

section

variable {fuel : Nat} {typed line : String}

theorem take_of_leaves (h : Leaves typed line) (s : State) :
    s.take files fuel typed = s.takeErased files fuel line := by
  unfold Leaves at h
  simp only [State.take, h, String.ofList_toList]

theorem take_blank (h : Leaves typed line) (hline : trimmed line = "") (s : State) :
    s.take files fuel typed = some ⟨"", "", { s with line := s.line + 1 }, .running⟩ := by
  rw [take_of_leaves h]
  simp [State.takeErased, hline]

theorem take_exit (h : Leaves typed line) (hline : trimmed line = ".exit") (s : State) :
    s.take files fuel typed = some ⟨farewell, "",
      { s with line := s.line + 1, history := s.history.add line }, .ended⟩ := by
  rw [take_of_leaves h]
  simp [State.takeErased, hline]

/-- A line is entered as it is and run trimmed. -/
theorem take_eq_run (h : Leaves typed line) (hblank : trimmed line ≠ "")
    (hexit : trimmed line ≠ ".exit") (s : State) : s.take files fuel typed =
      { s with line := s.line + 1, history := s.history.add line }.run files fuel
        (trimmed line) := by
  rw [take_of_leaves h]
  simp only [State.takeErased, hblank, hexit, if_false]

theorem take_line (h : Leaves typed line) (hblank : trimmed line ≠ "")
    (hexit : trimmed line ≠ ".exit") {s : State} {value : Option Expr} {m : Machine}
    (heval : Eval.evaluateSource (Eval.eval files fuel) (trimmed line) s.scope s.machine =
      some (.ok value, m)) :
    s.take files fuel typed = some ⟨CommandLine.shown value, "",
      { s with line := s.line + 1, history := s.history.add line, machine := m }, .running⟩ := by
  rw [take_eq_run h hblank hexit, State.run, heval]

variable {prompting : Bool}

theorem takeAll_of_running {s s₁ : State} {output : String} {rest : List String}
    {later : Reply} (h : s.take files fuel typed = some ⟨output, "", s₁, .running⟩)
    (hlater : s₁.takeAll files fuel prompting rest = some later) :
    s.takeAll files fuel prompting (typed :: rest) = some { later with
      output := asking prompting s.line ++ output ++ later.output } := by
  simp [State.takeAll, h, hlater, asking, State.prompt]

theorem concludes_of_closing {closing : List String} (h : Closing closing) (s : State) :
    ∃ reply, s.takeAll files fuel prompting closing = some reply ∧
      reply.Concludes (asking prompting s.line ++ farewell) s.machine := by
  cases h with
  | inputEnds => exact ⟨_, rfl, rfl, rfl, rfl, rfl⟩
  | @exit typed line later hleaves hexit =>
      refine ⟨⟨asking prompting s.line ++ farewell, "",
        { s with line := s.line + 1, history := s.history.add line }, .ended⟩, ?_,
        rfl, rfl, rfl, rfl⟩
      simp [State.takeAll, take_exit hleaves hexit, asking, State.prompt]

end

/-- A session over lines that do not fail shows their values, and leaves the state that they
leave one after the other. -/
theorem Course.concludes (h : Course files scope m lines values m') {typed : List String}
    (htyped : List.Forall₂ Leaves typed lines) :
    ∃ n, ∀ fuel, n ≤ fuel → ∀ prompting closing, Closing closing → ∀ s : State,
      s.machine = m → s.scope = scope →
      ∃ reply, s.takeAll files fuel prompting (typed ++ closing) = some reply ∧
        reply.Concludes (transcript prompting s.line values ++ farewell) m' := by
  induction h generalizing typed with
  | nil m =>
      cases htyped
      refine ⟨0, ?_⟩
      intro fuel _ prompting closing hclosing s hs _
      exact hs ▸ concludes_of_closing hclosing s
  | @blank m m' line lines values hline _ ih =>
      cases htyped with
      | cons hleaves htyped =>
          obtain ⟨n, ih⟩ := ih htyped
          refine ⟨n, ?_⟩
          intro fuel hfuel prompting closing hclosing s hs hscope
          obtain ⟨later, hlater, hconcludes⟩ :=
            ih fuel hfuel prompting closing hclosing { s with line := s.line + 1 } hs hscope
          refine ⟨_, takeAll_of_running (take_blank hleaves hline s) hlater, ?_,
            hconcludes.errors, hconcludes.phase, hconcludes.machine⟩
          simp [hconcludes.output, transcript, CommandLine.shown, String.append_assoc]
  | @line m m₁ m' line lines value values hblank hexit hends _ ih =>
      cases htyped with
      | cons hleaves htyped =>
          obtain ⟨n, ih⟩ := ih htyped
          obtain ⟨n', heval⟩ := hends.eventually (Eval.steady_evaluateSource _ _)
          refine ⟨max n n', ?_⟩
          intro fuel hfuel prompting closing hclosing s hs hscope
          have htake := take_line hleaves hblank hexit (s := s)
            (by rw [hs, hscope]; exact heval fuel (by omega))
          obtain ⟨later, hlater, hconcludes⟩ :=
            ih fuel (by omega) prompting closing hclosing
              { s with line := s.line + 1, history := s.history.add line, machine := m₁ } rfl hscope
          refine ⟨_, takeAll_of_running htake hlater, ?_,
            hconcludes.errors, hconcludes.phase, hconcludes.machine⟩
          simp [hconcludes.output, transcript, String.append_assoc]

/-! ### The session and the whole text -/

/-- **A session agrees with one run of the text of its lines**, if no line fails. Let lines be
taken one after the other in the scope of a new session, with these values and this state at
the end. Then the text of the lines has the forms of the lines, one line after the other, and
run in that scope it has the value of the last line with a form and leaves the same state. The
session shows the values of the lines in turn and says farewell, and whatever is typed after
the line that ends it changes nothing of that. A command line that runs the text shows the
value of the last line with a form. -/
theorem session_agrees_with_whole_text (files : FileSystem) (history : History)
    {typed lines : List String} {values : List (Option Expr)} {m : Machine}
    (htyped : List.Forall₂ Leaves typed lines)
    (hcourse : Course files (State.start history).scope (State.start history).machine
      lines values m) :
    (∃ programs : List (List Expr),
      List.Forall₂ (fun line forms => parse (trimmed line) = .ok forms) lines programs ∧
      List.Forall₂ (fun forms value => value = none ↔ forms = []) programs values ∧
      parse (joined lines) = .ok programs.flatten) ∧
    Eval.Ends files
      (fun ev => Eval.evaluateSource ev (joined lines) (State.start history).scope)
      (State.start history).machine (.ok values.reduceOption.getLast?) m ∧
    (∀ line, transcript false line values = String.join (values.map CommandLine.shown)) ∧
    ∃ n, ∀ fuel, n ≤ fuel →
      (∀ prompting closing, Closing closing → ∃ reply,
        (State.start history).takeAll files fuel prompting (typed ++ closing) = some reply ∧
        reply.Concludes (transcript prompting 1 values ++ farewell) m) ∧
      CommandLine.runSource files fuel (.text (joined lines)) =
        some ⟨0, CommandLine.shown values.reduceOption.getLast?, "", files⟩ := by
  obtain ⟨programs, results, hparse, hvalues, heach, hlast⟩ := hcourse.evaluatesEach
  have hjoined := parse_joined hparse
  have hends := Eval.ends_of_source hjoined heach
  simp only [Except.map, Except.mapError, hlast] at hends
  obtain ⟨n, hsession⟩ := hcourse.concludes htyped
  obtain ⟨n', hrun⟩ := hends.eventually (Eval.steady_evaluateSource _ _)
  refine ⟨⟨programs, hparse, hvalues, hjoined⟩, hends, ?_, max n n', ?_⟩
  · intro line
    exact transcript_false line values
  intro fuel hfuel
  constructor
  · intro prompting closing hclosing
    exact hsession fuel (by omega) prompting closing hclosing _ rfl rfl
  · have hrun := hrun fuel (by omega)
    simp only [State.start] at hrun
    simp [CommandLine.runSource, hrun, CommandLine.conclude]

/-- A definition with a comment after it, a blank line, and a line with a backspace, before the
line that ends the session and one that is no program. -/
theorem session_agrees_with_whole_text_comment :
    let typed := ["(def x true) ;a", " ", "7\x08x"]
    ∃ fuel reply,
      (State.start .empty).takeAll ⟨[], []⟩ fuel false (typed ++ [".exit", ")"]) = some reply ∧
      reply.output = "true\nExiting.\n" ∧
      CommandLine.runSource ⟨[], []⟩ fuel (.text "(def x true) ;a\n\nx") =
        some ⟨0, "true\n", "", ⟨[], []⟩⟩ := by
  intro typed
  let s := State.start .empty
  have htyped : List.Forall₂ Leaves typed ["(def x true) ;a", " ", "x"] :=
    .cons (by decide +kernel) (.cons (by decide +kernel) (.cons (by decide +kernel) .nil))
  have hcourse : Course ⟨[], []⟩ s.scope s.machine ["(def x true) ;a", " ", "x"]
      [some .empty, none, some (.symbol "true")]
      { s.machine with store := s.machine.store.define s.scope "x" (.symbol "true") } := by
    refine .line (by cbv) (by cbv) ⟨3, by cbv⟩ (.blank (by cbv) ?_)
    exact .line (by cbv) (by cbv) ⟨3, by cbv⟩ (.nil _)
  obtain ⟨-, -, hshown, n, hsession⟩ :=
    session_agrees_with_whole_text ⟨[], []⟩ .empty htyped hcourse
  obtain ⟨hreply, hrun⟩ := hsession n (Nat.le_refl n)
  obtain ⟨reply, htakeAll, hconcludes⟩ := hreply false [".exit", ")"] (.exit _ (by cbv) (by cbv))
  refine ⟨n, reply, htakeAll, ?_, ?_⟩
  · rw [hconcludes.output, hshown]
    cbv
  · have hjoined : joined ["(def x true) ;a", " ", "x"] = "(def x true) ;a\n\nx" := by cbv
    rwa [hjoined] at hrun

end Session

end ModularLisp
