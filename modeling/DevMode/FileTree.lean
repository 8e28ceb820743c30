/-
# DevMode.FileTree -- directories, files and symbolic links

A `FileTree` holds entries by the names that lead to them from the root, and the
directory that relative paths are taken against.  A path is resolved one segment
at a time, as an operating system does it: a segment needs a directory to stand
in, a link is replaced by its target, and after forty links the search is given up
(`FileTree.resolve`).
-/
import DevMode.LocalPath
import DevMode.Text.Utf8
import DevMode.Total

namespace DevMode

set_option autoImplicit false

/-! ## Failures -/

/-- Why an operating system refuses to read a path. -/
inductive FileError where
  | notFound
  | notDirectory
  | isDirectory
  | nameTooLong
  | tooManyLinks
  | notText
  deriving DecidableEq, Repr

def FileError.message : FileError → String
  | notFound => "No such file or directory (os error 2)"
  | notDirectory => "Not a directory (os error 20)"
  | isDirectory => "Is a directory (os error 21)"
  | nameTooLong => "File name too long (os error 36)"
  | tooManyLinks => "Too many levels of symbolic links (os error 40)"
  | notText => "stream did not contain valid UTF-8"

/-! ## Entries -/

/-- A regular file: permission bits, time of the last change in seconds, content. -/
structure File where
  mode : Nat
  mtime : Int
  data : ByteArray

/-- What a name leads to. -/
inductive FileEntry where
  | dir
  | file (file : File)
  | link (target : LocalPath)

/-- Entries by absolute names.  The root is a directory without an entry. -/
structure FileTree where
  entries : List (List Segment × FileEntry)
  current : LocalPath

namespace FileTree

/-- What absolute names lead to, links not followed. -/
def entry? (t : FileTree) (names : List Segment) : Option FileEntry :=
  if names = [] then some .dir else t.entries.lookup names

/-- Puts an entry in place of the one that was there. -/
def put (t : FileTree) (names : List Segment) (e : FileEntry) : FileTree :=
  { t with entries := (names, e) :: t.entries.filter fun x => x.1 ≠ names }

/-- Makes the directories on the way to `names` that are missing. -/
def makeParents (t : FileTree) (names : List Segment) : FileTree :=
  (List.range names.length).foldl (fun t n =>
    let dir := names.take n
    match t.entry? dir with
    | some _ => t
    | none => t.put dir .dir) t

/-- Puts an entry and the directories on the way to it. -/
def create (t : FileTree) (names : List Segment) (e : FileEntry) : FileTree :=
  (t.makeParents names).put names e

/-- Takes away an entry and all below it. -/
def remove (t : FileTree) (names : List Segment) : FileTree :=
  { t with entries := t.entries.filter fun x => !names.isPrefixOf x.1 }

def children (t : FileTree) (dir : List Segment) : List Segment :=
  t.entries.filterMap fun x =>
    match x.1.getLast? with
    | some name => if x.1.dropLast = dir then some name else none
    | none => none

/-- The names that lead to a path by its text alone. -/
def namesOf (t : FileTree) (path : LocalPath) : List Segment :=
  (path.against t.current).clean.components.filterMap fun c =>
    match c with
    | .name s => some s
    | _ => none

/-! ## Resolution -/

/-- How far segments lead without following a link: to names, to a failure, or to
a link with the segments still to come. -/
inductive Descent where
  | found (names : List Segment)
  | failed (error : FileError)
  | linked (dir : List Segment) (target : LocalPath) (rest : List Segment)

def maxName : Nat := 255

/-- The least length in bytes of a path that is too long. -/
def maxPath : Nat := 4096

def byteLength (s : List Char) : Nat := total (s.map Char.utf8Size)

/-- Walks down from what `dir` leads to.  The last segment is not followed if it is
a link and `follow` is off. -/
def descend (t : FileTree) (follow : Bool) : List Segment → List Segment → Descent
  | dir, [] => .found dir
  | dir, s :: rest =>
    match t.entry? dir with
    | some .dir =>
      if s = [] ∨ s = ['.'] then descend t follow dir rest
      else if s = ['.', '.'] then descend t follow dir.dropLast rest
      else if maxName < byteLength s then .failed .nameTooLong
      else
        match t.entry? (dir ++ [s]) with
        | none => .failed .notFound
        | some (.link target) =>
          if rest = [] ∧ follow = false then .found (dir ++ [s]) else .linked dir target rest
        | some _ => descend t follow (dir ++ [s]) rest
    | _ => .failed .notDirectory

/-- Walks down, following at most `links` links. -/
def follow (t : FileTree) (last : Bool) : Nat → List Segment → List Segment →
    Except FileError (List Segment)
  | links, dir, segments =>
    match t.descend last dir segments with
    | .found names => .ok names
    | .failed e => .error e
    | .linked dir target rest =>
      match links with
      | 0 => .error .tooManyLinks
      | links + 1 =>
        follow t last links (if target.isAbsolute then [] else dir)
          (Text.pieces '/' target.chars ++ rest)

/-- How many links one search follows. -/
def maxLinks : Nat := 40

/-- The absolute names a path leads to. -/
def resolve (t : FileTree) (path : LocalPath) (last : Bool) : Except FileError (List Segment) :=
  if path.chars = [] then .error .notFound
  else if maxPath ≤ byteLength path.chars then .error .nameTooLong
  else t.follow last maxLinks [] (Text.pieces '/' (path.against t.current).chars)

/-- What a path leads to, links followed. -/
def stat (t : FileTree) (path : LocalPath) : Except FileError FileEntry := do
  let names ← t.resolve path true
  match t.entry? names with
  | some e => .ok e
  | none => .error .notFound

/-- Whether a path leads to a link, which is not followed. -/
def isLink (t : FileTree) (path : LocalPath) : Bool :=
  match (t.resolve path false).map t.entry? with
  | .ok (some (.link _)) => true
  | _ => false

def isDir (t : FileTree) (path : LocalPath) : Bool :=
  match t.stat path with
  | .ok .dir => true
  | _ => false

def read (t : FileTree) (path : LocalPath) : Except FileError File := do
  match ← t.stat path with
  | .file f => .ok f
  | .dir => .error .isDirectory
  | .link _ => .error .tooManyLinks

/-- The content of the file that a path leads to, which must be text. -/
def readText (t : FileTree) (path : LocalPath) : Except FileError String := do
  let file ← t.read path
  match Text.decode? file.data with
  | some s => .ok s
  | none => .error .notText

/-- The path without links and dots that leads to the same place. -/
def canonical (t : FileTree) (path : LocalPath) : Except FileError LocalPath := do
  let names ← t.resolve path true
  .ok ⟨'/' :: Text.glue '/' names⟩

end FileTree

end DevMode
