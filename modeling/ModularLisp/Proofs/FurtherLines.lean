import ModularLisp.Proofs.LineByLine

/-!
# ModularLisp.Proofs.FurtherLines

**Programs on lines of their own.** Behind the lines of a program a text is read as if it stood
alone, and if it is in error, the error is the same but for the lines above it
(`Reader.read_below_program`).

That its forms are the same is about what may stand next to a form, and has nothing to do with
errors (`Grammar.forms?_lineFeed`). Reading also stops at the same place. Only how far that is
from the beginning of the text has changed, and the reader counts it anew: behind a line feed
columns begin again, so all that is left of the lines above is how many they are
(`Text.Position.after_lineFeed`).
-/

namespace ModularLisp

/-! ### Places below other lines -/

namespace Text.Position

/-- The place in the same column a number of lines further down. -/
def down (p : Position) (lines : Nat) : Position :=
  ⟨p.line + lines, p.column⟩

theorem advance_down (p : Position) (lines : Nat) (c : Char) :
    (p.down lines).advance c = (p.advance c).down lines := by
  unfold advance down
  split
  · rw [Nat.add_right_comm]
  · rfl

theorem foldl_advance_down (p : Position) (lines : Nat) (s : List Char) :
    s.foldl advance (p.down lines) = (s.foldl advance p).down lines := by
  induction s generalizing p with
  | nil => rfl
  | cons c s ih => rw [List.foldl_cons, List.foldl_cons, advance_down, ih]

/-- Below other lines, places are where they were without them, but for the number of lines. -/
theorem after_lineFeed (s t : List Char) :
    after (s ++ '\n' :: t) = (after t).down (1 + s.count '\n') := by
  have hstart : (after s).advance '\n' = start.down (1 + s.count '\n') := by
    rw [advance, if_pos rfl, line_after, down, start, Nat.add_comm]
  rw [after, List.foldl_append, List.foldl_cons]
  change t.foldl advance ((after s).advance '\n') = _
  rw [hstart, foldl_advance_down, after]

end Text.Position

/-! ### Programs below other programs -/

namespace Reader

open Text (Position)

variable {s t : List Char} {es : List Expr}

/-- Below a program reading stops where it stops without it. -/
theorem stopsAt_lineFeed (hs : Grammar.Program s es) {x : List Char} (hx : StopsAt t x) :
    StopsAt (s ++ '\n' :: t) x := by
  unfold StopsAt at hx ⊢
  rw [Grammar.forms?_lineFeed hs]
  rcases hx with hx | ⟨fs, hx⟩
  · exact .inl (by rw [hx]; rfl)
  · exact .inr ⟨es ++ fs, by rw [hx]; rfl⟩

/-- The error below a program is the one that there is without it, but for its line. -/
theorem readProgram_lineFeed_error (hs : Grammar.Program s es) {e : ParseError}
    (ht : readProgram t = .error e) :
    readProgram (s ++ '\n' :: t) = .error ⟨e.position.down (1 + s.count '\n'), e.fault⟩ := by
  obtain ⟨x, hstop, hne, rfl⟩ := readProgram_eq_error_iff.mp ht
  refine readProgram_eq_error_iff.mpr ⟨x, stopsAt_lineFeed hs hstop, hne, ?_⟩
  obtain ⟨consumed, rfl⟩ := hstop.suffix
  rw [ParseError.ofRest, ParseError.ofRest, Position.ofRest_append, ← Position.after_lineFeed,
    ← Position.ofRest_append _ x, List.append_assoc, List.cons_append]

/-- **Below a program a text is read as if it stood alone.** If it is a program by itself, its
forms come after those of the first. If it is none, neither is the whole, and the error has the
same column and the same cause; its line is further down by the lines of the first text. -/
theorem read_below_program {a : String} {fa : List Expr} (ha : parse a = .ok fa) (b : String) :
    (∀ fb, parse b = .ok fb → parse (a ++ "\n" ++ b) = .ok (fa ++ fb)) ∧
    ∀ line column fault, parse b = .error ⟨⟨line, column⟩, fault⟩ →
      parse (a ++ "\n" ++ b) =
        .error ⟨⟨line + 1 + a.toList.count '\n', column⟩, fault⟩ := by
  refine ⟨fun fb hb => parse_lineFeed ha hb, fun line column fault hb => ?_⟩
  have herror := readProgram_lineFeed_error (Grammar.parse_eq_ok_iff.mp ha) hb
  rw [show a.toList ++ '\n' :: b.toList = (a ++ "\n" ++ b).toList by simp] at herror
  rw [parse, herror, Position.down, Nat.add_assoc]

/-- Below a line with a comment and a line with an atom: an atom with a list, and an atom with a
string in which an escape is bad. -/
theorem read_below_program_comment :
    parse "a ;(\nb" = .ok [.symbol "a", .symbol "b"] ∧
      parse "a ;(\nb\nc(d)" = .ok [.symbol "a", .symbol "b", .symbol "c", .list [.symbol "d"]] ∧
      parse "é \"\\q\"" = .error ⟨⟨1, 4⟩, .invalidEscape "\\q"⟩ ∧
      parse "a ;(\nb\né \"\\q\"" = .error ⟨⟨3, 4⟩, .invalidEscape "\\q"⟩ := by
  have hfirst : parse "a ;(\nb" = .ok [.symbol "a", .symbol "b"] := by cbv
  have hsecond : parse "c(d)" = .ok [.symbol "c", .list [.symbol "d"]] := by cbv
  have hescape : parse "é \"\\q\"" = .error ⟨⟨1, 4⟩, .invalidEscape "\\q"⟩ := by cbv
  have hfeeds : "a ;(\nb".toList.count '\n' = 1 := by decide
  obtain ⟨hread, -⟩ := read_below_program hfirst "c(d)"
  obtain ⟨-, hfails⟩ := read_below_program hfirst "é \"\\q\""
  refine ⟨hfirst, hread _ hsecond, hescape, ?_⟩
  have herror := hfails 1 4 _ hescape
  rwa [hfeeds] at herror

end Reader

end ModularLisp
