/-!
# ModularLisp.Files.Path

**Paths.** A `Path` is a place in the file tree: the names on the way there from the
root. A path as a program writes it is a text, of which only the components between
its slashes matter here; what they lead to depends on the files, and is the business
of `Files.Basic`.
-/

namespace ModularLisp.Files

/-- The names that lead from the root of the file tree to a place in it. -/
abbrev Path := List String

instance : LawfulBEq Path :=
  inferInstanceAs (LawfulBEq (List String))

namespace Path

/-- The written form of a place: absolute and without detours. -/
def text (p : Path) : String :=
  "/" ++ "/".intercalate p

/-- The place that contains this one; the root contains itself. -/
def parent (p : Path) : Path :=
  p.dropLast

end Path

/-! ### Written paths -/

/-- The components of a written path. Neighbouring slashes and slashes at the ends have
an empty component between or beside them. -/
def components : List Char → List (List Char)
  | [] => [[]]
  | c :: r =>
      if c = '/' then [] :: components r
      else
        match components r with
        | [] => [[c]]
        | first :: rest => (c :: first) :: rest

/-- The components of a written path, as names. -/
def names (s : String) : List String :=
  (components s.toList).map String.ofList

/-- Does a written path start at the root? -/
def isAbsolute (s : String) : Bool :=
  s.toList.head? == some '/'

/-- The most bytes that the name of one file may have. -/
def nameLimit : Nat := 255

/-- A path of this many bytes, or of more, is too long. -/
def pathLimit : Nat := 4096

/-- How many symbolic links one path may lead through. -/
def linkLimit : Nat := 40

end ModularLisp.Files
