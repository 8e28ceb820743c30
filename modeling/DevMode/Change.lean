/-
# DevMode.Change -- changes of local files

A `Change` says that a file appeared (or got new content) or disappeared under a
watched base.  A `Batch` gathers changes; `partition` keeps the last change of each
local path, paths being told apart by their components, and sorts additions from
removals.
-/
import DevMode.LocalPath

namespace DevMode

set_option autoImplicit false

/-- Whether a file is there after a change or gone. -/
inductive ChangeKind where
  | add
  | remove
  deriving DecidableEq, Repr

/-- A change of the file at `path` under `base`; the path is empty if the base is
that file. -/
structure Change where
  base : LocalPath
  path : LocalPath
  kind : ChangeKind
  deriving DecidableEq, Repr

namespace Change

/-- Where the changed file lies. -/
def localPath (c : Change) : LocalPath := if c.path.chars = [] then c.base else c.base.join c.path

/-- The path under the base as remote paths are written. -/
def remoteRelative (c : Change) : String := c.path.posix

/-- Whether a later change in `rest` is of the same file. -/
def superseded (c : Change) (rest : List Change) : Bool :=
  rest.any fun d => decide (d.localPath.Same c.localPath)

/-- The last change of each file, in order. -/
def latest : List Change → List Change
  | [] => []
  | c :: rest => if c.superseded rest then latest rest else c :: latest rest

/-- The additions and the removals that are left when each file keeps its last
change. -/
def partition (changes : List Change) : List Change × List Change :=
  ((latest changes).filter (·.kind = .add), (latest changes).filter (·.kind = .remove))

end Change

/-! ## Batches -/

/-- The changes since the last flush. -/
structure Batch where
  changes : List Change

namespace Batch

def empty : Batch := ⟨[]⟩

def push (b : Batch) (c : Change) : Batch := ⟨b.changes ++ [c]⟩

def size (b : Batch) : Nat := b.changes.length

def isEmpty (b : Batch) : Bool := b.changes.isEmpty

/-- All changes, and an empty batch in place of this one. -/
def take (b : Batch) : List Change × Batch := (b.changes, empty)

@[simp] theorem changes_empty : empty.changes = [] := rfl

@[simp] theorem changes_push (b : Batch) (c : Change) : (b.push c).changes = b.changes ++ [c] := rfl

end Batch

end DevMode
