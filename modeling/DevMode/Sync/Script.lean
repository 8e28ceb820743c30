/-
# DevMode.Sync.Script -- what an archive of additions comes to

For a list of additions and a remote directory, the bytes that are written one after
another, and how it ends: with the number of entries, or with a failure.  Files that have
gone since are left out, and so are directories.
-/
import DevMode.Change
import DevMode.Disk
import DevMode.Sync.Error

namespace DevMode.Sync

set_option autoImplicit false

/-- The name of the entry for `rel` under a remote directory: the path of the remote file
without the slashes before it. -/
def entryName (remote rel : String) : String :=
  String.ofList ((RemotePath.join remote rel).toList.dropWhile (· = '/'))

/-- Bytes to be written, and the path that a failure to do so is told of. -/
structure Write where
  path : String
  bytes : ByteArray

/-- The writes of an archive in order, and how it ends after them. -/
structure Script where
  writes : List Write
  outcome : Except SyncError Nat

/-- The entry for a file that was looked at; no more is read of it than it had then. -/
def fileEntry (disk : Disk) (remote : String) (add : Change) (stat : FileStat) :
    Except ArchiveFault ByteArray := do
  let data ← (disk.read add.localPath).mapError .file
  (Archive.fileEntry (entryName remote add.remoteRelative) (stat.mode % 0o10000) stat.mtime.toNat
    stat.size (data.extract 0 stat.size)).mapError .badName

/-- The entry for an addition, if it is a file that is there. -/
def entry? (disk : Disk) (remote : String) (add : Change) : Except ArchiveFault (Option ByteArray) :=
  match disk.stat add.localPath with
  | .error .notFound => .ok none
  | .error e => .error (.file e)
  | .ok stat =>
    if stat.isDir then .ok none
    else
      match fileEntry disk remote add stat with
      | .error (.file .notFound) => .ok none
      | .error e => .error e
      | .ok bytes => .ok (some bytes)

/-- The script for additions, `count` entries standing before them. -/
def scriptFrom (disk : Disk) (remote : String) : Nat → List Change → Script
  | count, [] => ⟨[⟨remote, Archive.trailer⟩], .ok count⟩
  | count, add :: rest =>
    match entry? disk remote add with
    | .error e => ⟨[], .error (.io add.localPath.toString e)⟩
    | .ok none => scriptFrom disk remote count rest
    | .ok (some bytes) =>
      let later := scriptFrom disk remote (count + 1) rest
      { later with writes := ⟨add.localPath.toString, bytes⟩ :: later.writes }

def script (disk : Disk) (remote : String) (adds : List Change) : Script :=
  scriptFrom disk remote 0 adds

def Script.bytes (s : Script) : ByteArray := s.writes.foldl (fun out w => out ++ w.bytes) ByteArray.empty

end DevMode.Sync
