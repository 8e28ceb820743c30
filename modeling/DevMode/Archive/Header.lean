/-
# DevMode.Archive.Header -- header blocks of tar archives

An archive is a sequence of blocks of 512 bytes.  Each entry starts with a header block
of fixed fields; numbers in it are octal digits behind which a zero stands, or big-endian
bytes if they are too large for that, and one field holds the sum of all bytes.
-/
import DevMode.Total

namespace DevMode.Archive

set_option autoImplicit false

def blockSize : Nat := 512

/-! ## Fields -/

def zeros (n : Nat) : List UInt8 := List.replicate n 0

/-- Bytes in a field of some width, zeros behind them. -/
def field (width : Nat) (bytes : List UInt8) : List UInt8 :=
  bytes.take width ++ zeros (width - bytes.length)

/-- The last `n` octal digits of a number. -/
def octalDigits (n value : Nat) : List UInt8 :=
  (List.range n).reverse.map fun i => (48 + value / Nat.pow 8 i % 8).toUInt8

/-- The last `n` bytes of a number, the highest first. -/
def bytesOf (n value : Nat) : List UInt8 :=
  (List.range n).reverse.map fun i => (value / Nat.pow 256 i % 256).toUInt8

/-- A number of 64 bits as bytes, the highest bit of the field set. -/
def wideNumber (width value : Nat) : List UInt8 :=
  match zeros (width - 8) ++ bytesOf 8 value with
  | [] => []
  | b :: bs => (b ||| 0x80) :: bs

/-- A number in a field: octal digits and a zero, if it fits. -/
def number (width value : Nat) : List UInt8 :=
  if value < Nat.pow 8 (width - 1) then octalDigits (width - 1) value ++ [0]
  else wideNumber width value

/-! ## Headers -/

/-- What a header tells.  The owner is left open or is written as number zero. -/
structure Header where
  name : List UInt8
  mode : Nat
  hasOwner : Bool
  size : Nat
  mtime : Nat
  kind : UInt8
  link : List UInt8

namespace Header

def regular : UInt8 := '0'.toUInt8

def symlink : UInt8 := '2'.toUInt8

/-- The kind of an entry that holds the long name of the next one. -/
def longName : UInt8 := 'L'.toUInt8

/-- The fields before the checksum. -/
def front (h : Header) : List UInt8 :=
  let owner := if h.hasOwner then number 8 0 else zeros 8
  field 100 h.name ++ number 8 h.mode ++ owner ++ owner ++ number 12 h.size ++ number 12 h.mtime

/-- The mark of the format. -/
def magic : List UInt8 := "ustar  ".toUTF8.toList ++ [0]

/-- The fields behind the checksum. -/
def back (h : Header) : List UInt8 := h.kind :: field 100 h.link ++ magic ++ zeros 247

/-- The sum of all bytes, the checksum itself counted as spaces. -/
def checksum (h : Header) : Nat := total ((h.front ++ h.back).map UInt8.toNat) + 8 * 32

def block (h : Header) : List UInt8 := h.front ++ number 8 h.checksum ++ h.back

end Header

end DevMode.Archive
