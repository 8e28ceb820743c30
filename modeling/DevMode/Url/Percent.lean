/-
# DevMode.Url.Percent -- percent-encoding

A character that may not stand in some part of a URL is written as the bytes of its
UTF-8 form, each as `%` and two digits.  Which characters those are differs from part
to part; the sets below are nested.
-/
import DevMode.Text.Hex

namespace DevMode.Url

set_option autoImplicit false

/-! ## Sets of characters that are encoded -/

/-- Encoded everywhere: control characters and all that is not ASCII. -/
def isControl (c : Char) : Bool := c.toNat < 0x20 || 0x7E < c.toNat

/-- Encoded in a path: also spaces, quotes, angle brackets, braces and what would end
the path. -/
def encodedInPath (c : Char) : Bool :=
  isControl c || [' ', '"', '<', '>', '\x60', '#', '?', '\x7b', '\x7d'].contains c

/-- Encoded in a user name or a password: also what would end it or the host. -/
def encodedInUserInfo (c : Char) : Bool :=
  encodedInPath c || ['/', ':', ';', '=', '@', '[', '\\', ']', '^', '|'].contains c

/-! ## Encoding and decoding -/

def percentByte (b : UInt8) : List Char := '%' :: Text.hexPair b

def encodeChar (encoded : Char → Bool) (c : Char) : List Char :=
  if encoded c then (String.utf8EncodeChar c).flatMap percentByte else [c]

def encode (encoded : Char → Bool) (s : List Char) : List Char := s.flatMap (encodeChar encoded)

/-- The bytes of a text, `%` and two digits standing for one byte. -/
def decode : List Char → List UInt8
  | [] => []
  | '%' :: a :: b :: s =>
    match Text.hexNumber? [a, b] with
    | some n => n.toUInt8 :: decode s
    | none => '%'.toUInt8 :: decode (a :: b :: s)
  | c :: s => String.utf8EncodeChar c ++ decode s

end DevMode.Url
