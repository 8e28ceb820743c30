/-
# DevMode.Disk -- files as they are looked at and read

Looking at a file and reading it are two acts, between which it may change.  A `Disk`
answers both; that of a file tree answers as the tree is.
-/
import DevMode.FileTree

namespace DevMode

set_option autoImplicit false

/-- What a look at a path tells. -/
structure FileStat where
  isDir : Bool
  mode : Nat
  mtime : Int
  size : Nat

/-- What a look at a path and reading it give. -/
structure Disk where
  stat : LocalPath → Except FileError FileStat
  read : LocalPath → Except FileError ByteArray

namespace FileEntry

/-- What a look at an entry tells. -/
def stat : FileEntry → FileStat
  | dir => ⟨true, 0o755, 0, 0⟩
  | file f => ⟨false, f.mode, f.mtime, f.data.size⟩
  | link target => ⟨false, 0o777, 0, FileTree.byteLength target.chars⟩

end FileEntry

namespace FileTree

/-- The disk of a file tree. -/
def disk (t : FileTree) : Disk where
  stat path := (t.stat path).map FileEntry.stat
  read path := (t.read path).map File.data

end FileTree

end DevMode
