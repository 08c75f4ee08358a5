import ModularLisp.Files.Path

/-!
# ModularLisp.Files.Basic

**The file system** that programs are read from: a tree of directories, files and
symbolic links, and the working directory, from which relative paths start.

A written path is resolved component by component (`FileSystem.walk`). At each one the
place reached so far has to be a directory; a symbolic link is replaced by its target,
and `..` leads to the directory that contains the one reached, so a link is not undone
by it. The place at the end is the *canonical* path: different spellings of one file
have the same one. Resolving ends because every step either uses up a component or
follows one of a limited number of links.
-/

namespace ModularLisp.Files

/-! ### Errors -/

/-- Why a file could not be reached or read. -/
inductive IoError
  | notFound
  | isADirectory
  | notADirectory
  | invalidFilename
  | filesystemLoop
  /-- The written path contains the character that no path may contain. -/
  | invalidInput
  /-- The file is not a text. -/
  | invalidData
  deriving DecidableEq, Repr

namespace IoError

/-- The name of the kind of error. -/
def kind : IoError → String
  | notFound => "NotFound"
  | isADirectory => "IsADirectory"
  | notADirectory => "NotADirectory"
  | invalidFilename => "InvalidFilename"
  | filesystemLoop => "FilesystemLoop"
  | invalidInput => "InvalidInput"
  | invalidData => "InvalidData"

/-- What the system says about the error. -/
def reason : IoError → String
  | notFound => "No such file or directory (os error 2)"
  | isADirectory => "Is a directory (os error 21)"
  | notADirectory => "Not a directory (os error 20)"
  | invalidFilename => "File name too long (os error 36)"
  | filesystemLoop => "Too many levels of symbolic links (os error 40)"
  | invalidInput => "file name contained an unexpected NUL byte"
  | invalidData => "stream did not contain valid UTF-8"

/-- The text of the error. -/
def message (e : IoError) : String :=
  "I/O error: kind: " ++ e.kind ++ ", message: " ++ e.reason

end IoError

/-! ### The tree -/

/-- What a place in the file tree holds. -/
inductive Entry
  | file (content : ByteArray)
  | directory
  | link (target : String)

/-- The places that hold something, and the working directory. -/
structure FileSystem where
  entries : List (Path × Entry)
  cwd : Path

namespace FileSystem

/-- What a place holds. The root is a directory whatever the tree says. -/
def entry? (fs : FileSystem) (p : Path) : Option Entry :=
  if p = [] then some .directory else fs.entries.lookup p

/-- Is this place a directory? -/
def isDirectory (fs : FileSystem) (p : Path) : Bool :=
  match fs.entry? p with
  | some .directory => true
  | _ => false

/-! ### Resolving -/

/-- Where a link with the given target starts when it stands in `dir`. -/
def linkStart (dir : Path) (target : String) : Path :=
  if isAbsolute target then [] else dir

/-- Follows `components` from `dir`, through at most `links` symbolic links. -/
def walk (fs : FileSystem) (links : Nat) (dir : Path) (components : List String) :
    Except IoError Path :=
  match components with
  | [] => .ok dir
  | c :: rest =>
      if c = "" ∨ c = "." then
        if fs.isDirectory dir then fs.walk links dir rest else .error .notADirectory
      else if c = ".." then
        if fs.isDirectory dir then fs.walk links dir.parent rest else .error .notADirectory
      -- The way so far is measured before it is looked up, a single name only after that.
      else if pathLimit ≤ (Path.text (dir ++ [c])).utf8ByteSize then .error .invalidFilename
      else if !fs.isDirectory dir then .error .notADirectory
      else if nameLimit < c.utf8ByteSize then .error .invalidFilename
      else
        match fs.entry? (dir ++ [c]) with
        | none => .error .notFound
        | some (.link target) =>
            match links with
            | 0 => .error .filesystemLoop
            -- The target stands in place of the name that was a link.
            | links + 1 => fs.walk links (linkStart dir target) (names target ++ rest)
        | some _ => fs.walk links (dir ++ [c]) rest
termination_by (links, components.length)

/-- Where a written path starts. -/
def pathStart (fs : FileSystem) (path : String) : Path :=
  if isAbsolute path then [] else fs.cwd

/-- The canonical path of a written one, if it leads anywhere. -/
def canonical? (fs : FileSystem) (path : String) : Except IoError Path :=
  if '\x00' ∈ path.toList then .error .invalidInput
  else if path.toList = [] then .error .notFound
  else fs.walk linkLimit (fs.pathStart path) (names path)

/-! ### Reading -/

/-- The bytes of the file that a written path leads to. -/
def readBytes (fs : FileSystem) (path : String) : Except IoError ByteArray :=
  if pathLimit ≤ path.utf8ByteSize then .error .invalidFilename
  else
    match fs.canonical? path with
    | .error e => .error e
    | .ok p =>
        match fs.entry? p with
        | some (.file content) => .ok content
        | some .directory => .error .isADirectory
        | _ => .error .notFound

/-- The text of the file that a written path leads to. -/
def readText (fs : FileSystem) (path : String) : Except IoError String :=
  match fs.readBytes path with
  | .error e => .error e
  | .ok content =>
      match String.fromUTF8? content with
      | some text => .ok text
      | none => .error .invalidData

end FileSystem

end ModularLisp.Files
