import ModularLisp.Files.Basic

/-!
# ModularLisp.Files.Edit

**Changing the file system**: writing files, making directories and symbolic links,
removing, and moving the working directory. Evaluation never changes files; these
operations are for whoever prepares the files that programs are read from, and for
what a session leaves behind.

An operation that makes something makes the directories on the way to it as well
(`makeWay`). If something that is no directory stands in the way, it changes nothing.
-/

namespace ModularLisp.Files.FileSystem

/-! ### Places -/

/-- The components of a written path that lead anywhere. -/
def steps (path : String) : List String :=
  (names path).filter fun c => c ≠ "" ∧ c ≠ "."

/-- Puts `entry` at a place, in place of what it held. -/
def set (fs : FileSystem) (p : Path) (entry : Entry) : FileSystem :=
  { fs with entries := (p, entry) :: fs.entries.filter fun e => e.1 ≠ p }

/-- Goes from `dir` along some components and makes a directory wherever there is
nothing; gives the place reached, if it is a directory. -/
def makeWay (fs : FileSystem) (dir : Path) : List String → Option (FileSystem × Path)
  | [] => if fs.isDirectory dir then some (fs, dir) else none
  | c :: rest =>
      match fs.walk linkLimit dir [c] with
      | .ok next => fs.makeWay next rest
      | .error .notFound =>
          -- A link that leads nowhere is in the way, too.
          if (fs.entry? (dir ++ [c])).isSome then none
          else (fs.set (dir ++ [c]) .directory).makeWay (dir ++ [c]) rest
      | .error _ => none

/-- Where what is written under the name `c` in `dir` ends up: there, or where a link of
that name leads, even if nothing is there yet. -/
def landing (fs : FileSystem) (links : Nat) (dir : Path) (c : String) : Option Path :=
  match fs.entry? (dir ++ [c]), links with
  | some (.link _), 0 => none
  | some (.link target), links + 1 =>
      match fs.walk linkLimit (linkStart dir target) (steps target).dropLast,
        (steps target).getLast? with
      | .ok dir, some c => fs.landing links dir c
      | _, _ => none
  | _, _ => some (dir ++ [c])

/-- Makes the way to the last name of a written path, and gives the directory that this
name is to stand in. -/
def open? (fs : FileSystem) (path : String) : Option (FileSystem × Path × String) :=
  match (steps path).getLast? with
  | none | some ".." => none
  | some c =>
      (fs.makeWay (fs.pathStart path) (steps path).dropLast).map fun (fs, dir) => (fs, dir, c)

/-! ### Operations -/

/-- Puts an entry at a place that its way leads to without links, unless there is a
directory. -/
def place (fs : FileSystem) (p : Path) (entry : Entry) : FileSystem :=
  match fs.makeWay [] p.dropLast with
  | some (fs, _) => if fs.isDirectory p then fs else fs.set p entry
  | none => fs

/-- Writes a file, through a link if one stands at the end of the path. -/
def write (fs : FileSystem) (path : String) (content : ByteArray) : FileSystem :=
  match fs.open? path with
  | none => fs
  | some (opened, dir, c) =>
      match opened.landing linkLimit dir c with
      | none => fs
      | some p => if opened.isDirectory p then fs else opened.set p (.file content)

/-- Makes a directory. -/
def makeDirectory (fs : FileSystem) (path : String) : FileSystem :=
  match fs.makeWay (fs.pathStart path) (steps path) with
  | some (fs, _) => fs
  | none => fs

/-- Makes a symbolic link where nothing is. -/
def makeLink (fs : FileSystem) (path target : String) : FileSystem :=
  match fs.open? path with
  | none => fs
  | some (opened, dir, c) =>
      if (opened.entry? (dir ++ [c])).isSome then fs
      else opened.set (dir ++ [c]) (.link target)

/-- Removes a file or a symbolic link. -/
def remove (fs : FileSystem) (path : String) : FileSystem :=
  match fs.walk linkLimit (fs.pathStart path) (steps path).dropLast, (steps path).getLast? with
  | .ok dir, some c =>
      if fs.isDirectory (dir ++ [c]) then fs
      else { fs with entries := fs.entries.filter fun e => e.1 ≠ dir ++ [c] }
  | _, _ => fs

/-- Moves the working directory, if the path leads to a directory. -/
def changeDirectory (fs : FileSystem) (path : String) : FileSystem :=
  match fs.canonical? path with
  | .ok p => if fs.isDirectory p then { fs with cwd := p } else fs
  | .error _ => fs

/-- A file system with nothing but a working directory and what contains it. -/
def ofWorkingDirectory (cwd : Path) : FileSystem :=
  place ⟨[], cwd⟩ cwd .directory

end ModularLisp.Files.FileSystem
