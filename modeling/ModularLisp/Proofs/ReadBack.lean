import ModularLisp.CommandLine.Basic
import ModularLisp.Proofs.Confinement
import ModularLisp.Proofs.Reprinting
import ModularLisp.Proofs.RulesAgree

/-!
# ModularLisp.Proofs.ReadBack

**Results are read back.** The value of a program has a source text unless it holds a closure,
although it has been through definitions, calls, quotes and other files: symbols and numbers
come from texts and go through evaluation as they are, so all that ever comes up are symbols
that are read as symbols, and no number is `nan`. These are the names and numbers of a realm
(`Realm.readable`), so the law is one of runs that stay in it; the scopes that were there
before the run are not of the realm, and may hold anything.

What the program shows is then a datum. It is read back with words for infinite numbers, which
is to say as it is if it has none, and quoted by `literal` it gives itself (`results_read_back`).
-/

namespace ModularLisp

open Files (FileSystem)
open Grammar (IsAtom)
open Reader (classify)

/-! ### What can be read -/

/-- Symbols that are read as themselves, all numbers but `nan`, and the scopes from `base` on. -/
def Realm.readable (base : Nat) : Realm where
  names name := IsAtom name.toList ∧ classify name.toList = .symbol name
  numbers x := x ≠ .nan
  base := base

variable {base n : Nat}

/-- What has a source text is readable. -/
theorem Expr.Inside.of_datum {e : Expr} (h : e.Datum (· ≠ .nan)) :
    e.Inside (.readable base) n := by
  induction h with
  | symbol hatom hname => exact .symbol ⟨hatom, hname⟩
  | number hx => exact .number hx
  | string content => exact .string content
  | list _ ih => exact .list ih

/-- What is readable has a source text if it holds no closures. -/
theorem Expr.Inside.datum {e : Expr} (h : e.Inside (.readable base) n)
    (hplain : e.Plain anyName) : e.Datum (· ≠ .nan) := by
  induction hplain with
  | symbol =>
      cases h with
      | symbol hname => exact .symbol hname.1 hname.2
  | number =>
      cases h with
      | number hx => exact .number hx
  | string content => exact .string content
  | list _ ih => exact .list fun e he => ih e he (list_iff.mp h e he)

theorem Realm.reads_readable (base : Nat) : (Realm.readable base).Reads where
  prelude b hb := by
    simp only [Store.preludeBindings, List.mem_cons, List.not_mem_nil, or_false] at hb
    rcases hb with rfl | rfl
    · exact .symbol ⟨Grammar.isAtom_of_all (by decide) (by decide), rfl⟩
    · exact .symbol ⟨Grammar.isAtom_of_all (by decide) (by decide), rfl⟩
  parsed _ _ h e he := .of_datum (datum_of_parse h e he)

/-- No scope that has been made so far is of the realm. -/
theorem Store.inside_readable (st : Store) : st.Inside (.readable st.size) := by
  refine ⟨Nat.le_refl _, fun id s hid hs => ?_⟩
  rw [get?_of_le hid] at hs
  cases hs

/-! ### Texts of data -/

theorem parse_text {e : Expr} (h : e.Datum (· ≠ .nan)) : parse e.text = .ok [e.reread] := by
  have hone : ∀ e' ∈ [e], e'.Datum (· ≠ .nan) := fun e' he' => List.mem_singleton.mp he' ▸ h
  have hprinted : printed [e] = e.text := by simp [printed]
  rw [← hprinted, parse_printed hone]
  rfl

/-- The text of a datum may stand on a line of its own. -/
theorem parse_line {e : Expr} (h : e.Datum (· ≠ .nan)) :
    parse (e.text ++ "\n") = .ok [e.reread] := by
  have hone : ∀ e' ∈ [e], Grammar.Form e'.chars e'.reread [] :=
    fun e' he' => List.mem_singleton.mp he' ▸ form_chars h
  have hforms := forms_itemChars hone (r := ['\n']) (Grammar.atomEnd_cons (by decide) [])
  refine Grammar.parse_eq_ok_iff.mpr ⟨['\n'], ?_, .blank (by decide) (.none [])⟩
  rw [String.toList_append, Expr.text, String.toList_ofList]
  exact hforms

/-- The source text of a value, quoted. -/
def quoted (text : String) : String :=
  "(literal " ++ text ++ ")"

theorem quoted_text (e : Expr) :
    quoted e.text = (Expr.list [.symbol Keyword.literal.name, e]).text := by
  refine String.toList_inj.mp ?_
  simp [quoted, Expr.text, Expr.chars, Expr.itemChars, Keyword.name]

/-- A datum that is quoted gives what it is read back as, and nothing changes. -/
theorem evaluateSource_quoted {e : Expr} (h : e.Datum (· ≠ .nan)) (files : FileSystem)
    (scope : ScopeId) (m : Machine) :
    Eval.Ends files (fun ev => Eval.evaluateSource ev (quoted e.text) scope) m
      (.ok (some e.reread)) m := by
  have hform : (Expr.list [.symbol Keyword.literal.name, e]).Datum (· ≠ .nan) := by
    refine .list (List.forall_mem_cons.mpr ⟨?_, fun e' he' => List.mem_singleton.mp he' ▸ h⟩)
    exact .symbol (Grammar.isAtom_of_all (by decide) (by decide)) rfl
  refine ⟨1, ?_⟩
  show Eval.evaluateSource _ _ _ m = _
  rw [Eval.evaluateSource_apply, quoted_text, parse_text hform, Expr.reread_list]
  rfl

/-! ### Runs -/

/-- Running the text in a new scope with what programs start with, or the file, ends with the
value `v`. -/
def CommandLine.Source.Gives (files : FileSystem) (m : Machine) (v : Expr) (m' : Machine) :
    CommandLine.Source → Prop
  | .text source =>
      Eval.Ends files (fun ev => Eval.evaluateSource ev source m.store.nextId)
        { m with store := m.store.addPrelude } (.ok (some v)) m'
  | .file path => Eval.Ends files (fun ev => Eval.runFile files ev path) m (.ok (some v)) m'

/-- Whatever a text or a file gives is readable. -/
theorem inside_of_gives {files : FileSystem} {m m' : Machine} {v : Expr}
    {source : CommandLine.Source} (h : source.Gives files m v m') :
    v.Inside (.readable m.store.size) m'.store.size := by
  have hR := Realm.reads_readable m.store.size
  have hev : ∀ fuel loads {n e scope}, e.Inside (.readable m.store.size) n →
      (Realm.readable m.store.size).Has n scope →
      (Realm.readable m.store.size).Confines n (Eval.eval files fuel e scope)
        (Eval.evalMoments files fuel loads e scope) (Expr.Inside (.readable m.store.size)) :=
    fun fuel loads {_ _ _} he hs => Realm.eval_confined hR files fuel loads he hs
  have hm := m.store.inside_readable
  cases source with
  | text source =>
      obtain ⟨fuel, hrun⟩ := h
      -- The scope that the text is evaluated in is the first one of the realm.
      have hprelude : (Realm.readable m.store.size).Confines m.store.size
          (Run.addPrelude : Run ProgramError _) _ _ := .addPrelude hR
      obtain ⟨hm₁, -, hroot⟩ := hprelude.ends m _ _ hm (Nat.le_refl _) rfl
      obtain ⟨-, -, hv⟩ :=
        (Realm.Confines.evaluateSource (hev fuel) [] hR (hroot _ rfl) source).ends _ _ _ hm₁
          (Nat.le_refl _) hrun
      exact hv _ rfl v rfl
  | file path =>
      obtain ⟨fuel, hrun⟩ := h
      obtain ⟨-, -, hv⟩ := (Realm.Confines.runFile (hev fuel) [] hR path).ends _ _ _ hm
        (Nat.le_refl _) hrun
      exact hv _ rfl v rfl

/-- What a run from the beginning gives is shown on a line, unless it is the empty list. -/
theorem runSource_of_gives {files : FileSystem} {m' : Machine} {v : Expr}
    {source : CommandLine.Source} (h : source.Gives files .start v m') (hv : v ≠ .empty) :
    ∃ fuel, CommandLine.runSource files fuel source = some ⟨0, v.text ++ "\n", "", files⟩ := by
  have hshown : CommandLine.shown (some v) = v.text ++ "\n" :=
    if_neg (mt Expr.isEmptyList_iff.mp hv)
  cases source with
  | text source =>
      obtain ⟨fuel, hrun⟩ := h
      refine ⟨fuel, ?_⟩
      simp only [CommandLine.runSource, hrun, Option.map_some, CommandLine.conclude, hshown]
  | file path =>
      obtain ⟨fuel, hrun⟩ := h
      refine ⟨fuel, ?_⟩
      simp only [CommandLine.runSource, hrun, Option.map_some, CommandLine.conclude, hshown]

/-! ### The law of results -/

/-- **Results are read back.** If a text or a file gives a value without closures and infinite
numbers, its source text is read as that value and as nothing else. Quoted, the text gives the
value wherever and whenever it is evaluated, and changes nothing. And the line that is shown,
if it is not the empty list, is read as the value too. -/
theorem results_read_back {files : FileSystem} {m m' : Machine} {source : CommandLine.Source}
    {v : Expr} (h : source.Gives files m v m') (hplain : v.Plain anyName)
    (hfinite : ∀ negative, Number.infinite negative ∉ v.numbers) :
    parse v.text = .ok [v] ∧
    (∀ files' scope m₁, Eval.Ends files'
      (fun ev => Eval.evaluateSource ev (quoted v.text) scope) m₁ (.ok (some v)) m₁) ∧
    (m = .start → v ≠ .empty → ∃ fuel o, CommandLine.runSource files fuel source = some o ∧
      o.status = 0 ∧ o.output = v.text ++ "\n" ∧ parse o.output = .ok [v]) := by
  have hdatum := (inside_of_gives h).datum hplain
  have hsame : v.reread = v := Expr.reread_eq_self_iff.mpr hfinite
  refine ⟨?_, fun files' scope m₁ => ?_, ?_⟩
  · rw [parse_text hdatum, hsame]
  · have hquoted := evaluateSource_quoted hdatum files' scope m₁
    rwa [hsame] at hquoted
  · rintro rfl hv
    obtain ⟨fuel, hrun⟩ := runSource_of_gives h hv
    refine ⟨fuel, _, hrun, rfl, rfl, ?_⟩
    rw [parse_line hdatum, hsame]

/-- A file that exports a quoted list. -/
def quotingFile : FileSystem :=
  ⟨[(["lib"], .file "(export x) (def x (literal (a \"\\n\" -0)))".toUTF8)], []⟩

/-- The list comes through an import and a symbol to the text that is run, and is shown as it
stands in the file. -/
theorem results_read_back_imported :
    let v : Expr := .list [.symbol "a", .string "\n", .number (.finite true ⟨0, by decide⟩)]
    (∃ m', (CommandLine.Source.text "(import \"lib\") x").Gives quotingFile .start v m') ∧
      v.text = "(a \"\\n\" -0)" ∧ parse v.text = .ok [v] ∧
      ∃ fuel o, CommandLine.runSource quotingFile fuel (.text "(import \"lib\") x") = some o ∧
        o.output = v.text ++ "\n" := by
  intro v
  have hc : quotingFile.canonical? "lib" = .ok ["lib"] := by cbv
  have hread : quotingFile.readText "lib" =
      .ok "(export x) (def x (literal (a \"\\n\" -0)))" := by cbv
  have hlib : parse "(export x) (def x (literal (a \"\\n\" -0)))" =
      .ok [Keyword.exporting.form [.symbol "x"],
        Keyword.define.form [.symbol "x", Keyword.literal.form [v]]] := by cbv
  have hparse : parse "(import \"lib\") x" =
      .ok [Keyword.importing.form [.string "lib"], .symbol "x"] := by cbv
  let bound : Store := (Store.empty.addPrelude.addPrelude.markExported ⟨1⟩ "x").define ⟨1⟩ "x" v
  have hexposed : bound.lookup ⟨1⟩ "x" = some v := by cbv
  have hmerged : (bound.defineEach ⟨0⟩ [("x", v)]).lookup ⟨0⟩ "x" = some v := by cbv
  have himports : Imports quotingFile "lib" ⟨Store.empty.addPrelude, []⟩ (.ok [("x", v)])
      ⟨bound, []⟩ :=
    .collects (m := ⟨Store.empty.addPrelude, []⟩) (r := .ok [("x", v)]) hc List.not_mem_nil hread
      hlib (.cons .exports (.cons (.define .literal) .nil)) rfl (.bound hexposed .nil)
  have hgives : (CommandLine.Source.text "(import \"lib\") x").Gives quotingFile .start v
      ⟨bound.defineEach ⟨0⟩ [("x", v)], []⟩ :=
    Eval.ends_of_source hparse (.cons (.imports himports) (.cons (.bound hmerged) .nil))
  have hplain : v.Plain anyName := by
    refine .list fun e he => ?_
    simp only [List.mem_cons, List.not_mem_nil, or_false] at he
    rcases he with rfl | rfl | rfl
    · exact .symbol trivial
    · exact .string _
    · exact .number _
  have hfinite : ∀ negative, Number.infinite negative ∉ v.numbers := by
    simp [v, Expr.numbers, Expr.numbersAll]
  obtain ⟨hread, -, hshown⟩ := results_read_back hgives hplain hfinite
  obtain ⟨fuel, o, hrun, -, houtput, -⟩ := hshown rfl (by simp [v, Expr.empty])
  exact ⟨⟨_, hgives⟩, by cbv, hread, fuel, o, hrun, houtput⟩

end ModularLisp
