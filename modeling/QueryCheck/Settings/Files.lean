/-! # Files

What the program asks of the place it runs in: the files and directories below a working directory.
The functions that read files work in any monad that can answer `Disk`; the tree of files `Tree`
answers it without effects. -/

namespace QueryCheck.Settings

/-- Why a file cannot be read. -/
inductive ReadError where
  | missing
  | isDirectory
  | notDirectory
  deriving DecidableEq, Repr, Inhabited

/-- The wording of a failure at a path. -/
def ReadError.message (path : String) : ReadError → String
  | missing => "open " ++ path ++ ": no such file or directory"
  | isDirectory => "read " ++ path ++ ": is a directory"
  | notDirectory => "open " ++ path ++ ": not a directory"

/-- The files of a place. -/
structure Disk (m : Type → Type) where
  /-- The working directory. -/
  directory : String
  /-- The text of a file. -/
  read : String → m (Except ReadError String)
  /-- Whether there is anything at a path. -/
  present : String → m Bool

/-! ### Paths -/

namespace Path

/-- The last part of a path, without slashes at its end. -/
def base (path : String) : String :=
  let trimmed := path.toList.reverse.dropWhile (· = '/')
  if path.isEmpty then "."
  else if trimmed.isEmpty then "/"
  else String.ofList (trimmed.takeWhile (· ≠ '/')).reverse

/-- The ending of a path from the last point of its last part on; empty without a point. -/
def ending (path : String) : String :=
  let last := path.toList.reverse.takeWhile (· ≠ '/')
  if last.contains '.' then String.ofList ('.' :: (last.takeWhile (· ≠ '.')).reverse) else ""

/-- One more part of a path that is followed from left to right. -/
def stepInto (parts : List String) (part : String) : List String :=
  if part = "" || part = "." then parts
  else if part = ".." then match parts.getLast? with
    | some ".." | none => parts ++ [".."]
    | some _ => parts.dropLast
  else parts ++ [part]

/-- The parts of a path without detours. -/
def parts (path : String) : List String := (path.splitOn "/").foldl stepInto []

/-- A path inside a directory, without detours, from the root on. -/
def absolute (directory path : String) : String :=
  if path.startsWith "/" then "/" ++ String.intercalate "/" (parts path)
  else
    let root := if directory.startsWith "/" then "/" else ""
    root ++ String.intercalate "/" (parts (directory ++ "/" ++ path))

end Path

/-! ### Trees of files -/

/-- A tree of files: paths below the working directory with texts; a path that ends in a slash is a
directory. -/
structure Tree where
  directory : String
  entries : List (String × String)
  deriving DecidableEq, Repr, Inhabited

namespace Tree

/-- The parts of a path below the working directory; none for a path that leads elsewhere. -/
def locate (t : Tree) (path : String) : Option (List String) :=
  let local_ := (path.splitOn "/").foldl Path.stepInto []
  let home := Path.parts t.directory
  if path.startsWith "/" then none
  else if home.isPrefixOf local_ && !home.isEmpty then some (local_.drop home.length)
  else if local_.head? = some ".." then none
  else some local_

/-- The text of the file at the given parts. -/
def file? (t : Tree) (parts : List String) : Option String :=
  (t.entries.find? fun e => !e.1.endsWith "/" && Path.parts e.1 == parts).map Prod.snd

/-- Whether the given parts lead to a directory: one of its own, or one on the way to a file. -/
def isDirectory (t : Tree) (parts : List String) : Bool :=
  parts.isEmpty || t.entries.any fun e =>
    let own := Path.parts e.1
    parts.isPrefixOf own && (parts.length < own.length || e.1.endsWith "/")

/-- Whether a file stands where the parts need a directory. -/
def blocked (t : Tree) (parts : List String) : Bool :=
  (List.range parts.length).any fun n => (t.file? (parts.take n)).isSome

/-- The text at a path. -/
def read (t : Tree) (path : String) : Except ReadError String :=
  match t.locate path with
  | none => .error .missing
  | some parts =>
    match t.file? parts with
    | some text => if path.endsWith "/" then .error .notDirectory else .ok text
    | none =>
      if t.isDirectory parts then .error .isDirectory
      else if t.blocked parts then .error .notDirectory
      else .error .missing

/-- Whether there is a file or a directory at a path. -/
def present (t : Tree) (path : String) : Bool :=
  match t.read path with
  | .ok _ => true
  | .error e => e = .isDirectory

/-- The tree as the files of a place. -/
def disk (t : Tree) : Disk Id where
  directory := t.directory
  read path := t.read path
  present path := t.present path

end Tree

end QueryCheck.Settings
