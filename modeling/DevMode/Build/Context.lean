/-
# DevMode.Build.Context -- the files a build starts from

The build context of a directory is an archive of the files and links below it.  The
directories are walked depth first, their entries in order of their names.  The ignore file
in the directory itself is asked about every entry: one that it excludes is left out, and a
directory that it excludes is not entered.
-/
import DevMode.Archive.Reader
import DevMode.Archive.Writer
import DevMode.Build.Error
import DevMode.Ignore.Rules
import DevMode.Recipe.Resolve

namespace DevMode.BuildContext

set_option autoImplicit false

/-! ## Walking -/

def sortedChildren (tree : FileTree) (dir : List Segment) : List Segment :=
  (tree.children dir).mergeSort fun a b => decide (String.ofList a ≤ String.ofList b)

/-- What lies below the directory `root ++ below` by its names from `root` on, directories
themselves left out.  `keep` is asked about each entry, and whether it is a directory.
Directories are nested less deep than `depth`. -/
def walkFrom (tree : FileTree) (keep : List Segment → Bool → Bool) (root : List Segment) :
    Nat → List Segment → List (List Segment × FileEntry)
  | 0, _ => []
  | depth + 1, below =>
    (sortedChildren tree (root ++ below)).flatMap fun name =>
      let names := below ++ [name]
      match tree.entry? (root ++ names) with
      | none => []
      | some .dir => if keep names true then walkFrom tree keep root depth names else []
      | some e => if keep names false then [(names, e)] else []

/-- What lies below a directory and is kept. -/
def walk (tree : FileTree) (keep : List Segment → Bool → Bool) (root : List Segment) :
    List (List Segment × FileEntry) :=
  walkFrom tree keep root (tree.entries.length + 1) []

/-! ## Archiving -/

/-- The time of a file as an archive holds it: 64 bits without a sign. -/
def archivedTime (mtime : Int) : Nat := (mtime % 18446744073709551616).toNat

def content? : FileEntry → Option Archive.Content
  | .dir => none
  | .file f => some (.file (f.mode % 0o10000) (archivedTime f.mtime) f.data)
  | .link target => some (.link (Archive.linkTarget target))

def pathOf (dir : LocalPath) (names : List Segment) : LocalPath :=
  names.foldl (fun p name => p.join ⟨name⟩) dir

/-- The entry of something below the directory. -/
def entry? (below : List Segment × FileEntry) : Option Archive.Entry :=
  (content? below.2).map fun c => ⟨String.ofList (Text.glue '/' below.1), c⟩

/-- Whether the rules of a directory, if it has any, leave an entry below it in. -/
def admits (rules? : Option Ignore.Ruleset) (dir : LocalPath) (names : List Segment)
    (isDir : Bool) : Bool :=
  match rules? with
  | none => true
  | some rules => !rules.isIgnored (pathOf dir names) isDir

/-- The build context of a directory.  A link to one cannot be archived: it would be an entry
itself, and has no name in the archive. -/
def entries (tree : FileTree) (dir : LocalPath) : Except BuildError (List Archive.Entry) := do
  let rules? ← (Ignore.Ruleset.inDir? tree dir).mapError .ignores
  let root ← (tree.resolve dir true).mapError (.walk dir.toString)
  if tree.isLink dir then throw (.badName dir.toString .empty)
  return (walk tree (admits rules? dir) root).filterMap entry?

end DevMode.BuildContext
