import ModularLisp.Text.Cluster

/-!
# ModularLisp.Session.Erasing

**Erasing.** A backspace in a line takes off the cluster before it, as it does while
a line is typed, and leaves nothing of itself; at the beginning of a line it does
nothing. What is taken off is a cluster of the line as it was entered: characters that
come together only because something between them was erased are still two.

The size of a cluster is kept in a byte. Of a cluster of 256 bytes or more only the
remainder is taken off therefore, from its end, and where that would cut a character
in two there is no line at all. A line without backspaces is itself
(`erase?_of_not_mem`), and what is left of a line was in it (`mem_of_erase?`).
-/

namespace ModularLisp.Session

open Text (clusters)

/-- The character that erases the cluster before it. -/
def backspace : Char := '\x08'

/-- How many sizes the memory for the size of a cluster can tell apart. -/
def sizeLimit : Nat := 256

-- The zero of a sum of naturals is the numeral, whatever structures are known.
attribute [local instance (high)] Zero.ofOfNat0

/-- How many bytes the characters of a text take. -/
def byteCount (s : List Char) : Nat :=
  (s.map Char.utf8Size).sum

/-- Takes `count` bytes off the front of a text, if that cuts no character in two. -/
def dropBytes? (count : Nat) : List Char → Option (List Char)
  | [] => some []
  | c :: rest =>
      if count = 0 then some (c :: rest)
      else if c.utf8Size ≤ count then dropBytes? (count - c.utf8Size) rest
      else none

/-- What is there of a line, read up to some place. -/
structure Typed where
  /-- The characters, the last one first. -/
  reversed : List Char
  /-- The sizes of the clusters that can be erased, that of the last one first. -/
  sizes : List Nat

namespace Typed

/-- Takes the next cluster. -/
def take? (t : Typed) (cluster : List Char) : Option Typed :=
  if cluster = [backspace] then
    match t.sizes with
    | [] => some t
    | size :: sizes => (dropBytes? size t.reversed).map (⟨·, sizes⟩)
  else some ⟨cluster.reverse ++ t.reversed, byteCount cluster % sizeLimit :: t.sizes⟩

end Typed

/-- The line that is left when every backspace has done its work. -/
def erase? (line : List Char) : Option (List Char) :=
  -- Without a backspace there is nothing to erase, and no need for clusters.
  if backspace ∈ line then
    ((clusters line).foldlM Typed.take? ⟨[], []⟩).map (·.reversed.reverse)
  else some line

theorem erase?_of_not_mem {line : List Char} (h : backspace ∉ line) :
    erase? line = some line :=
  if_neg h

theorem dropBytes?_append (s rest : List Char) :
    dropBytes? (byteCount s) (s ++ rest) = some rest := by
  induction s with
  | nil => cases rest <;> simp [byteCount, dropBytes?]
  | cons c s ih =>
      have hpos := c.utf8Size_pos
      simp only [byteCount, List.map_cons, List.sum_cons] at ih ⊢
      rw [List.cons_append, dropBytes?, if_neg (by omega), if_pos (by omega),
        Nat.add_sub_cancel_left, ih]

/-- A backspace takes back the cluster before it, if that is not too large. -/
theorem take?_backspace {t u : Typed} {cluster : List Char} (hne : cluster ≠ [backspace])
    (hsize : byteCount cluster < sizeLimit) (h : t.take? cluster = some u) :
    u.take? [backspace] = some t := by
  simp only [Typed.take?, if_neg hne, Option.some.injEq] at h
  subst h
  have hrev : byteCount cluster = byteCount cluster.reverse := by
    simp [byteCount, List.sum_reverse]
  simp only [Typed.take?, if_true]
  rw [Nat.mod_eq_of_lt hsize, hrev, dropBytes?_append]
  rfl

/-! ### What is left -/

theorem dropBytes?_suffix {count : Nat} {s rest : List Char} (h : dropBytes? count s = some rest) :
    rest <:+ s := by
  induction s generalizing count with
  | nil =>
      obtain rfl := Option.some.inj h
      exact List.suffix_refl _
  | cons c s ih =>
      rw [dropBytes?] at h
      split at h
      · obtain rfl := Option.some.inj h
        exact List.suffix_refl _
      split at h
      · exact (ih h).trans (List.suffix_cons c s)
      · cases h

/-- A cluster adds no characters but its own. -/
theorem Typed.mem_of_take? {t u : Typed} {cluster : List Char} (h : t.take? cluster = some u)
    {c : Char} (hc : c ∈ u.reversed) : c ∈ t.reversed ∨ c ∈ cluster := by
  unfold take? at h
  split at h
  · split at h
    · obtain rfl := Option.some.inj h
      exact .inl hc
    · obtain ⟨rest, hdrop, rfl⟩ := Option.map_eq_some_iff.mp h
      exact .inl ((dropBytes?_suffix hdrop).mem hc)
  · obtain rfl := Option.some.inj h
    simpa [or_comm] using hc

theorem Typed.mem_of_foldlM_take? {pieces : List (List Char)} {t u : Typed}
    (h : pieces.foldlM take? t = some u) {c : Char} (hc : c ∈ u.reversed) :
    c ∈ t.reversed ∨ c ∈ pieces.flatten := by
  induction pieces generalizing t with
  | nil =>
      obtain rfl := Option.some.inj h
      exact .inl hc
  | cons cluster pieces ih =>
      rw [List.foldlM_cons] at h
      obtain ⟨t₁, htake, hrest⟩ := Option.bind_eq_some_iff.mp h
      rw [List.flatten_cons, List.mem_append]
      rcases ih hrest with hc | hc
      · exact (mem_of_take? htake hc).imp_right .inl
      · exact .inr (.inr hc)

/-- What is left of a line was in the line. -/
theorem mem_of_erase? {line erased : List Char} (h : erase? line = some erased) {c : Char}
    (hc : c ∈ erased) : c ∈ line := by
  unfold erase? at h
  split at h
  · obtain ⟨t, hfold, rfl⟩ := Option.map_eq_some_iff.mp h
    have hmem := Typed.mem_of_foldlM_take? hfold (List.mem_reverse.mp hc)
    rw [Text.flatten_clusters] at hmem
    exact hmem.resolve_left List.not_mem_nil
  · obtain rfl := Option.some.inj h
    exact hc

end ModularLisp.Session
