import ModularLisp.Text.Joining

/-!
# ModularLisp.Text.Cluster

**Clusters**: the runs of characters that a reader takes for one sign, such as a letter
with its accents, a flag, or a family of pictographs. A text falls into clusters from
left to right: whether a character belongs to the cluster before it depends on its
class, on the class of the character before it, and on an `Ending`, which is what has
to be known of the text before besides.

The rules are those of extended grapheme clusters. Cutting a text into clusters loses
nothing (`flatten_clusters`) and makes no empty ones (`ne_nil_of_mem_clusters`).
-/

namespace ModularLisp.Text

/-! ### Endings -/

/-- What a text ends in, as far as the class of its last character does not tell. -/
inductive Ending
  | plain
  /-- A half of a flag whose other half has not come yet. -/
  | halfFlag
  /-- A pictograph and what attaches to it. -/
  | pictograph
  /-- A pictograph, what attaches to it, and a joiner. -/
  | joinedPictograph
  /-- A consonant and what attaches to it; is there a linking sign among that? -/
  | consonant (linked : Bool)
  deriving DecidableEq, Repr

/-- The ending after one more character. -/
def Ending.next : Ending → Joining → Ending
  | _, .pictograph => .pictograph
  | _, .consonant => .consonant false
  | .halfFlag, .flag => .plain
  | _, .flag => .halfFlag
  | .pictograph, .joiner => .joinedPictograph
  | .pictograph, .extending | .pictograph, .linking | .pictograph, .nonJoiner => .pictograph
  | .consonant _, .linking => .consonant true
  | .consonant linked, .extending | .consonant linked, .joiner => .consonant linked
  | _, _ => .plain

/-! ### Joining -/

/-- Does a character of this class always stand alone? -/
def Joining.isolates : Joining → Bool
  | carriageReturn | lineFeed | control => true
  | _ => false

/-- Does a character of this class belong to any character before it? -/
def Joining.attaches : Joining → Bool
  | extending | linking | nonJoiner | joiner | spacing => true
  | _ => false

/-- May the two stand side by side in a Korean syllable? -/
def Joining.sharesSyllable : Joining → Joining → Bool
  | leading, leading | leading, vowel | leading, openSyllable | leading, closedSyllable => true
  | openSyllable, vowel | openSyllable, trailing | vowel, vowel | vowel, trailing => true
  | closedSyllable, trailing | trailing, trailing => true
  | _, _ => false

/-- Is a character of class `next` in one cluster with the character before it, which is
of class `last` and the last of a text with the ending `e`? -/
def joins (e : Ending) (last next : Joining) : Bool :=
  if last.isolates || next.isolates then last == .carriageReturn && next == .lineFeed
  else if next.attaches || last == .preceding then true
  else
    match next with
    | .consonant => e == .consonant true
    | .pictograph => e == .joinedPictograph
    | .flag => e == .halfFlag
    | _ => last.sharesSyllable next

/-! ### Cutting -/

/-- Cuts what follows a character of class `last`: what belongs to the cluster of that
character, and the clusters after it. -/
def continueCluster (e : Ending) (last : Joining) : List Char → List Char × List (List Char)
  | [] => ([], [])
  | c :: rest =>
      let k := Joining.of c
      let (own, others) := continueCluster (e.next k) k rest
      if joins e last k then (c :: own, others) else ([], (c :: own) :: others)

/-- The clusters of a text. -/
def clusters : List Char → List (List Char)
  | [] => []
  | c :: rest =>
      let k := Joining.of c
      let (own, others) := continueCluster (Ending.plain.next k) k rest
      (c :: own) :: others

theorem continueCluster_append_flatten (e : Ending) (last : Joining) (s : List Char) :
    (continueCluster e last s).1 ++ (continueCluster e last s).2.flatten = s := by
  induction s generalizing e last with
  | nil => rfl
  | cons c rest ih =>
      have h := ih (e.next (.of c)) (.of c)
      simp only [continueCluster]
      split
      · exact congrArg (c :: ·) h
      · exact congrArg (c :: ·) h

/-- The clusters of a text make up the text. -/
theorem flatten_clusters (s : List Char) : (clusters s).flatten = s := by
  cases s with
  | nil => rfl
  | cons c rest => exact congrArg (c :: ·) (continueCluster_append_flatten _ _ rest)

theorem ne_nil_of_mem_continueCluster {e : Ending} {last : Joining} {s l : List Char}
    (h : l ∈ (continueCluster e last s).2) : l ≠ [] := by
  induction s generalizing e last with
  | nil => simp [continueCluster] at h
  | cons c rest ih =>
      simp only [continueCluster] at h
      split at h
      · exact ih h
      · rcases List.mem_cons.mp h with rfl | h
        · simp
        · exact ih h

/-- No cluster is empty. -/
theorem ne_nil_of_mem_clusters {s l : List Char} (h : l ∈ clusters s) : l ≠ [] := by
  cases s with
  | nil => simp [clusters] at h
  | cons c rest =>
      rcases List.mem_cons.mp h with rfl | h
      · simp
      · exact ne_nil_of_mem_continueCluster h

end ModularLisp.Text
