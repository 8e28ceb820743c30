/-
# DevMode.Archive.Reader -- entries from bytes

Reads an archive block by block up to the first block of zeros.
-/
import DevMode.Archive.Header
import DevMode.Text.Utf8

namespace DevMode.Archive

set_option autoImplicit false

/-- What an entry holds: a file with its permission bits, its time and its content, or a
link. -/
inductive Content where
  | file (mode : Nat) (mtime : Nat) (data : ByteArray)
  | link (target : String)

/-- A named entry of an archive. -/
structure Entry where
  name : String
  content : Content

/-! ## Fields -/

def fieldAt (bytes : ByteArray) (start width : Nat) : List UInt8 :=
  (bytes.extract start (start + width)).data.toList

/-- The text of a field, up to its first zero. -/
def textAt (bytes : ByteArray) (start width : Nat) : String :=
  Text.decodeLossy ⟨((fieldAt bytes start width).takeWhile (· ≠ 0)).toArray⟩

/-- The number in a field: octal digits, or the last eight bytes if the highest bit is
set. -/
def numberAt (bytes : ByteArray) (start width : Nat) : Nat :=
  match fieldAt bytes start width with
  | [] => 0
  | b :: bs =>
    if b &&& 0x80 ≠ 0 then
      ((b :: bs).drop (width - 8)).foldl (fun n x => n * 256 + x.toNat) 0
    else
      ((b :: bs).takeWhile (· ≠ 0)).foldl (fun n x => n * 8 + (x.toNat - 48)) 0

/-! ## Entries -/

/-- The entries from a place on.  `name` is the long name of the next one.  There are
fewer blocks than fuel. -/
def entriesFrom (bytes : ByteArray) : Nat → Nat → Option String → List Entry
  | 0, _, _ => []
  | fuel + 1, start, name =>
    if bytes.size < start + blockSize then []
    else if (fieldAt bytes start blockSize).all (· = 0) then []
    else
      let kind := (fieldAt bytes (start + 156) 1).headD 0
      let size := numberAt bytes (start + 124) 12
      let data := bytes.extract (start + blockSize) (start + blockSize + size)
      let next := start + blockSize + (size + (blockSize - 1)) / blockSize * blockSize
      if kind = Header.longName then
        entriesFrom bytes fuel next (some (textAt data 0 data.size))
      else
        let content :=
          if kind = Header.symlink then .link (textAt bytes (start + 157) 100)
          else
            .file (numberAt bytes (start + 100) 8 % 0o10000) (numberAt bytes (start + 136) 12) data
        ⟨name.getD (textAt bytes start 100), content⟩ :: entriesFrom bytes fuel next none

def entries (bytes : ByteArray) : List Entry :=
  entriesFrom bytes (bytes.size / blockSize + 1) 0 none

end DevMode.Archive
