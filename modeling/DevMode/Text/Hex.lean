/-
# DevMode.Text.Hex -- hexadecimal digits
-/

namespace DevMode.Text

set_option autoImplicit false

def hexDigit? (c : Char) : Option Nat :=
  if c.isDigit then some (c.toNat - '0'.toNat)
  else if 'a' ≤ c ∧ c ≤ 'f' then some (c.toNat - 'a'.toNat + 10)
  else if 'A' ≤ c ∧ c ≤ 'F' then some (c.toNat - 'A'.toNat + 10)
  else none

def hexNumber? (digits : List Char) : Option Nat :=
  digits.foldlM (fun n d => (hexDigit? d).map (n * 16 + ·)) 0

/-- The small hexadecimal digits of a number, without leading zeros. -/
def hexLower (n : Nat) : List Char := Nat.toDigits 16 n

/-- The two capital hexadecimal digits of a byte. -/
def hexPair (b : UInt8) : List Char :=
  [b.toNat / 16, b.toNat % 16].map fun n => (Nat.digitChar n).toUpper

end DevMode.Text
