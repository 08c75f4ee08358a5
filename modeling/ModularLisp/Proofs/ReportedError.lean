import Mathlib.Data.List.Induction
import ModularLisp.Proofs.Scan

/-!
# ModularLisp.Proofs.ReportedError

**Where reading stops.** The reader backs out of everything that is open when it cannot go
on, except at a bad escape. So the error is reported where the scan is stuck if that is a bad
escape or nothing is open, and otherwise where the outermost open construct begins
(`reported`, `error_where_scan_stops`).

The reader has no scan to ask. It finds the place by the length of what it could not read,
and the message by the first character of that; that both come out right is part of the law
(`PointsBetween`).
-/

namespace ModularLisp

/-! ### Positions -/

/-- The column is one more than the number of characters after the last line feed. -/
theorem Text.Position.column_after (consumed : List Char) :
    (after consumed).column = 1 + (consumed.reverse.takeWhile (· != '\n')).length := by
  induction consumed using List.reverseRecOn with
  | nil => rfl
  | append_singleton consumed c ih =>
      have hstep : after (consumed ++ [c]) = (after consumed).advance c := by
        simp only [after, List.foldl_append, List.foldl_cons, List.foldl_nil]
      rw [hstep, advance, List.reverse_append, List.reverse_singleton, List.singleton_append]
      by_cases hc : c = '\n'
      · simp [hc]
      · simp [hc, ih]; omega

namespace Scan

/-! ### The reported error -/

/-- The place that is reported when a scan is stuck: the place where it is stuck if the escape
there is bad or nothing is open, and otherwise the beginning of the outermost construct. -/
def reported (place : List Char) (opens : List Opening) : Obstacle → List Char
  | .badEscape => place
  | _ => (opens.getLast?.map Opening.place).getD place

/-- What is wrong at a place, told from the text that begins there. -/
inductive Message : List Char → String → Prop
  | invalidEscape (r : List Char) : Message ('\\' :: r)
      ("invalid escape '" ++ String.ofList ('\\' :: r.take 1) ++ "'")
  | unexpectedClose (r : List Char) : Message (')' :: r) "unexpected ')'"
  | unclosedList (r : List Char) : Message ('(' :: r) "unclosed '('"
  | unterminatedString (r : List Char) : Message ('"' :: r) "unterminated string literal"
  | unexpectedSemicolon (r : List Char) : Message (';' :: r) "unexpected character ';'"

/-- The error points between two parts of a text, the second of which is not empty: to the
line and the column of its first character, and with the message for that character. -/
structure PointsBetween (before after : String) (e : Reader.ParseError) : Prop where
  inside : after ≠ ""
  line : e.position.line = 1 + before.toList.count '\n'
  column : e.position.column = 1 + (before.toList.reverse.takeWhile (· != '\n')).length
  message : Message after.toList e.fault.message

/-- A scan that is blocked before the end of the text is stuck, and the place to report is the
one where it is blocked. -/
theorem Blocked.reported_eq {s : List Char} (h : Blocked [] s) (hs : s ≠ []) :
    ∃ place opens obstacle, run [] .forms s = .stuck place opens obstacle ∧
      reported place opens obstacle = s := by
  cases h with
  | textEnds => exact absurd rfl hs
  | close r => exact ⟨_, _, _, rfl, rfl⟩
  | badComment hr => exact ⟨_, [], .badComment, by rw [run_semicolon, if_pos hr], rfl⟩
  | unfinished construct hstuck =>
      obtain ⟨place, inner, obstacle, hrun, hescape⟩ := hstuck
      refine ⟨place, _, obstacle, hrun, ?_⟩
      cases obstacle with
      | badEscape => exact absurd rfl hescape
      | _ => simp [reported]

theorem Blocked.message {opens : List Opening} {s : List Char} (h : Blocked opens s)
    (hs : s ≠ []) : Message s (Reader.Fault.ofRest s).message := by
  cases h with
  | textEnds => exact absurd rfl hs
  | close r => exact .unexpectedClose r
  | badComment => exact .unexpectedSemicolon _
  | unfinished construct _ =>
      cases construct with
      | list => exact .unclosedList _
      | string => exact .unterminatedString _

/-- The place that is reported is in the text. -/
theorem reported_suffix {s place : List Char} {opens : List Opening} {obstacle : Obstacle}
    (h : scan s = .stuck place opens obstacle) : reported place opens obstacle <:+ s := by
  obtain ⟨hplace, hopens, -⟩ := stuck_run h
  unfold reported
  split
  · exact hplace
  · cases hlast : opens.getLast? with
    | none => exact hplace
    | some o =>
        have ho := hopens o (List.mem_of_getLast? hlast)
        exact (ho.resolve_left List.not_mem_nil).1

theorem pointsBetween_ofRest {source : String} {rest : List Char} (h : rest <:+ source.toList)
    (hmessage : Message rest (Reader.Fault.ofRest rest).message) :
    ∃ before after : String, source = before ++ after ∧ after.toList = rest ∧
      PointsBetween before after (.ofRest source.toList rest) := by
  obtain ⟨before, hsource⟩ := h
  refine ⟨String.ofList before, String.ofList rest, ?_, String.toList_ofList, ?_, ?_, ?_, ?_⟩
  · rw [← String.ofList_append, hsource, String.ofList_toList]
  · intro hempty
    rw [String.ofList_eq_empty_iff.mp hempty] at hmessage
    cases hmessage
  · rw [Reader.ParseError.ofRest, ← hsource, Text.Position.ofRest_append,
      Text.Position.line_after, String.toList_ofList]
  · rw [Reader.ParseError.ofRest, ← hsource, Text.Position.ofRest_append,
      Text.Position.column_after, String.toList_ofList]
  · rwa [String.toList_ofList]

theorem scan_of_parse_ok {source : String} {forms : List Expr} (h : parse source = .ok forms) :
    scan source.toList = .complete := by
  have hfinds := finds_forms [] source.toList
  rw [Grammar.program_iff.mp (Grammar.parse_eq_ok_iff.mp h)] at hfinds
  exact hfinds.1

/-- What the reader reports is what is reported of the scan. -/
theorem scan_of_parse_error {source : String} {e : Reader.ParseError}
    (h : parse source = .error e) : ∃ place opens obstacle,
      scan source.toList = .stuck place opens obstacle ∧
      e = .ofRest source.toList (reported place opens obstacle) ∧
      Message (reported place opens obstacle) e.fault.message := by
  have hfinds := finds_forms [] source.toList
  unfold parse Reader.readProgram at h
  split at h
  · next bad hforms =>
      rw [hforms] at hfinds
      obtain ⟨inner, hrun⟩ := hfinds
      obtain rfl := Except.error.inj h
      refine ⟨bad, inner, .badEscape, hrun, rfl, ?_⟩
      have hbackslash := (stuck_run hrun).2.2 rfl
      cases bad with
      | nil => cases hbackslash
      | cons c r =>
          obtain rfl := Option.some.inj hbackslash
          exact .invalidEscape r
  · cases h
  · next es rest hne hforms =>
      rw [hforms] at hfinds
      obtain ⟨hrun, hblocked⟩ := hfinds
      obtain rfl := Except.error.inj h
      obtain ⟨place, opens, obstacle, hstuck, hreported⟩ := hblocked.reported_eq hne
      refine ⟨place, opens, obstacle, hrun.trans hstuck, by rw [hreported], ?_⟩
      rw [hreported]
      exact hblocked.message hne

/-- **The reader reports the error where a scan from the left stops.** A text is read exactly if
the scan of it is complete. Otherwise the scan is stuck, and the error points into the text,
to the place that is reported of the stuck scan. -/
theorem error_where_scan_stops (source : String) :
    ((∃ forms, parse source = .ok forms) ↔ scan source.toList = .complete) ∧
    ∀ e, parse source = .error e → ∃ place opens obstacle,
      scan source.toList = .stuck place opens obstacle ∧
      ∃ before after : String, source = before ++ after ∧
        after.toList = reported place opens obstacle ∧ PointsBetween before after e := by
  refine ⟨⟨fun ⟨forms, h⟩ => scan_of_parse_ok h, fun hcomplete => ?_⟩, fun e h => ?_⟩
  · cases h : parse source with
    | ok forms => exact ⟨forms, rfl⟩
    | error e =>
        obtain ⟨place, opens, obstacle, hstuck, -⟩ := scan_of_parse_error h
        rw [hcomplete] at hstuck
        cases hstuck
  · obtain ⟨place, opens, obstacle, hstuck, rfl, hmessage⟩ := scan_of_parse_error h
    exact ⟨place, opens, obstacle, hstuck, pointsBetween_ofRest (reported_suffix hstuck) hmessage⟩

/-- Two lists and a bad comment are open where the scan is stuck, and the error points to the
first of the lists. -/
theorem error_where_scan_stops_nestedLists :
    parse "é\n (λ (b ;c\rd" = .error ⟨⟨2, 2⟩, .unclosedList⟩ ∧
      ∃ before after : String, "é\n (λ (b ;c\rd" = before ++ after ∧
        after.toList = "(λ (b ;c\rd".toList ∧
        PointsBetween before after ⟨⟨2, 2⟩, .unclosedList⟩ := by
  have hparse : parse "é\n (λ (b ;c\rd" = .error ⟨⟨2, 2⟩, .unclosedList⟩ := by cbv
  obtain ⟨place, opens, obstacle, hstuck, before, after, hsource, hafter, hpoints⟩ :=
    (error_where_scan_stops _).2 _ hparse
  have hreported : reported place opens obstacle = "(λ (b ;c\rd".toList := by
    have hscan : scan "é\n (λ (b ;c\rd".toList = .stuck ";c\rd".toList
        [⟨.list, "(b ;c\rd".toList⟩, ⟨.list, "(λ (b ;c\rd".toList⟩] .badComment := by decide
    obtain ⟨rfl, rfl, rfl⟩ := Verdict.stuck.inj (hstuck.symm.trans hscan)
    rfl
  exact ⟨hparse, before, after, hsource, hafter.trans hreported, hpoints⟩

end Scan

end ModularLisp
