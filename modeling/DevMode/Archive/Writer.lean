/-
# DevMode.Archive.Writer -- entries as bytes

An entry is its header, its content, and zeros up to the end of a block.  A name of more
than 100 bytes is written as the content of an entry of its own before that, and only its
start stands in the header.  Names are relative and do not climb.
-/
import DevMode.Archive.Header
import DevMode.LocalPath

namespace DevMode.Archive

set_option autoImplicit false

/-! ## Names -/

/-- Why a name cannot stand in an archive. -/
inductive NameFault where
  | empty
  | climbs
  deriving DecidableEq, Repr

def NameFault.message : NameFault → String
  | empty => "paths in archives must have at least one component when setting path for "
  | climbs => "paths in archives must not have \x60..\x60 when setting path for "

/-- The greatest length of a name in a header, in bytes. -/
def maxName : Nat := 100

def utf8 (s : List Char) : List UInt8 := s.flatMap String.utf8EncodeChar

/-- The components of a name as they are written: a slash at the end is kept. -/
def spell (name : LocalPath) : List Char :=
  (LocalPath.ofComponents name.components).chars ++
    if name.chars.getLast? = some '/' then ['/'] else []

/-- The bytes of a name as they are written, if it can stand in an archive. -/
def nameBytes (name : String) : Except NameFault (List UInt8) :=
  let path := LocalPath.ofString name
  if Component.parent ∈ path.components then .error .climbs
  else if path.components = [] then .error .empty
  else .ok (utf8 (spell path))

/-- The characters of a text that fit into `room` bytes. -/
def fitting : Nat → List Char → List Char
  | _, [] => []
  | room, c :: s => if c.utf8Size ≤ room then c :: fitting (room - c.utf8Size) s else []

/-- What of a name stands in its header. -/
def headerName (name : String) (bytes : List UInt8) : List UInt8 :=
  if bytes.length ≤ maxName then bytes else utf8 (spell ⟨fitting maxName name.toList⟩)

/-- The target of a link as it is read back: its components if they fit into a header, and
its own text in an entry before that if they do not. -/
def linkTarget (target : LocalPath) : String :=
  String.ofList (if (utf8 (spell target)).length ≤ maxName then spell target else target.chars)

/-! ## Entries -/

/-- The zeros behind a content of some size. -/
def padding (size : Nat) : List UInt8 := zeros ((blockSize - size % blockSize) % blockSize)

def array (bytes : List UInt8) : ByteArray := ⟨bytes.toArray⟩

def record (h : Header) (content : ByteArray) : ByteArray :=
  array h.block ++ content ++ array (padding content.size)

def longNameEntry (name : String) : ByteArray :=
  let bytes := name.toUTF8 ++ array [0]
  record ⟨"././@LongLink".toUTF8.toList, 0o644, true, bytes.size, 0, Header.longName, []⟩ bytes

/-- The entry of a file.  Its header has the size that is given, whatever the content is. -/
def fileEntry (name : String) (mode mtime size : Nat) (content : ByteArray) :
    Except NameFault ByteArray := do
  let bytes ← nameBytes name
  let h : Header :=
    ⟨headerName name bytes, mode, false, size, mtime, Header.regular, []⟩
  let lead := if bytes.length ≤ maxName then ByteArray.empty else longNameEntry name
  return lead ++ record h content

/-- The end of an archive: two blocks of zeros. -/
def trailer : ByteArray := array (zeros (2 * blockSize))

end DevMode.Archive
