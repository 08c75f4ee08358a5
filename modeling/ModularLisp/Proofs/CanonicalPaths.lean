import Mathlib
import ModularLisp.Files.Basic

/-!
# ModularLisp.Proofs.CanonicalPaths

**Canonical paths are finitely many.** There are infinitely many ways to write a path,
but the places they can lead to are on the way to something that the file system holds:
each is the beginning of the path of an entry, or of the working directory.
-/

namespace ModularLisp.Files.FileSystem

/-- The places that written paths lead to. -/
def canonicalPaths (fs : FileSystem) : Set Path :=
  { c | ∃ path, fs.canonical? path = .ok c }

/-- The places on the way to an entry or to the working directory. -/
def waypoints (fs : FileSystem) : List Path :=
  (fs.cwd :: fs.entries.map Prod.fst).flatMap List.inits

theorem mem_waypoints {fs : FileSystem} {p : Path} :
    p ∈ fs.waypoints ↔ ∃ q ∈ fs.cwd :: fs.entries.map Prod.fst, p <+: q := by
  simp only [waypoints, List.mem_flatMap, List.mem_inits]

theorem root_mem_waypoints (fs : FileSystem) : [] ∈ fs.waypoints :=
  mem_waypoints.mpr ⟨fs.cwd, List.mem_cons_self, List.nil_prefix⟩

theorem cwd_mem_waypoints (fs : FileSystem) : fs.cwd ∈ fs.waypoints :=
  mem_waypoints.mpr ⟨fs.cwd, List.mem_cons_self, List.prefix_rfl⟩

theorem parent_mem_waypoints {fs : FileSystem} {p : Path} (h : p ∈ fs.waypoints) :
    p.parent ∈ fs.waypoints := by
  obtain ⟨q, hq, hp⟩ := mem_waypoints.mp h
  exact mem_waypoints.mpr ⟨q, hq, (List.dropLast_prefix p).trans hp⟩

theorem linkStart_mem_waypoints {fs : FileSystem} {dir : Path} (h : dir ∈ fs.waypoints)
    (target : String) : linkStart dir target ∈ fs.waypoints := by
  unfold linkStart
  split
  · exact fs.root_mem_waypoints
  · exact h

/-- A place that holds something is on the way to it. -/
theorem mem_waypoints_of_held {fs : FileSystem} {p : Path} {e : Entry}
    (h : fs.entry? p = some e) : p ∈ fs.waypoints := by
  unfold entry? at h
  split at h
  · next hp => rw [hp]; exact fs.root_mem_waypoints
  · obtain ⟨l₁, l₂, hl, -⟩ := List.lookup_eq_some_iff.mp h
    refine mem_waypoints.mpr ⟨p, List.mem_cons_of_mem _ ?_, List.prefix_rfl⟩
    rw [hl]
    simp

/-- Following components never leaves the way to something that is there. -/
theorem walk_mem_waypoints {fs : FileSystem} {links : Nat} {dir p : Path}
    {components : List String} (hdir : dir ∈ fs.waypoints)
    (h : fs.walk links dir components = .ok p) : p ∈ fs.waypoints := by
  fun_induction walk fs links dir components with
  | case1 links dir => exact Except.ok.inj h ▸ hdir
  | case2 links dir c rest _ _ ih => exact ih hdir h
  | case4 links dir rest _ _ ih => exact ih (parent_mem_waypoints hdir) h
  | case11 dir c rest _ _ _ _ _ target links _ ih =>
      exact ih (linkStart_mem_waypoints hdir target) h
  | case12 links dir c rest _ _ _ _ _ e _ he ih => exact ih (mem_waypoints_of_held he) h
  | _ => cases h

theorem finite_canonicalPaths (fs : FileSystem) : fs.canonicalPaths.Finite := by
  refine (List.finite_toSet fs.waypoints).subset ?_
  intro c hc
  obtain ⟨path, h⟩ := hc
  unfold canonical? at h
  split at h
  · cases h
  split at h
  · cases h
  refine walk_mem_waypoints ?_ h
  unfold pathStart
  split
  · exact fs.root_mem_waypoints
  · exact fs.cwd_mem_waypoints

end ModularLisp.Files.FileSystem
