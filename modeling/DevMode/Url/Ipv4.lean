/-
# DevMode.Url.Ipv4 -- addresses of four numbers

An IPv4 address in a URL has one to four numbers between points, the last one filling
all that the others leave.  A number may be decimal, octal after a `0` and hexadecimal
after `0x`.  A host whose last part is a number must be such an address.
-/
import DevMode.Text.Cut
import DevMode.Text.Hex
import DevMode.Url.Error

namespace DevMode.Url.Ipv4

set_option autoImplicit false

/-- The number that digits of some base write. -/
def natural? (base : Nat) (digits : List Char) : Option Nat :=
  digits.foldlM (fun n c =>
    match Text.hexDigit? c with
    | some d => if d < base then some (n * base + d) else none
    | none => none) 0

def number? : List Char → Option Nat
  | [] => none
  | '0' :: 'x' :: digits => natural? 16 digits
  | '0' :: 'X' :: digits => natural? 16 digits
  | ['0'] => some 0
  | '0' :: digits => natural? 8 digits
  | digits => natural? 10 digits

/-- The parts between the points, without an empty one at the end. -/
def parts (host : List Char) : List (List Char) :=
  let all := Text.pieces '.' host
  if all.getLast? = some [] then all.dropLast else all

/-- Whether the last part of a host is a number, or at least decimal digits. -/
def endsInNumber (host : List Char) : Bool :=
  match (parts host).getLast? with
  | none => false
  | some last => (!last.isEmpty && last.all Char.isDigit) || (number? last).isSome

/-- The address that numbers in order make up: all but the last are bytes. -/
def assemble (numbers : List Nat) : Option Nat :=
  match numbers.reverse with
  | [] => none
  | last :: front =>
    if 4 < numbers.length ∨ Nat.pow 256 (4 - front.length) ≤ last ∨ front.any (255 < ·) then none
    else
      some (front.reverse.foldl (fun n x => n * 256 + x) 0 * Nat.pow 256 (4 - front.length) + last)

def parse (host : List Char) : Except UrlError Nat :=
  match ((parts host).mapM number?).bind assemble with
  | some n => .ok n
  | none => .error .badIpv4

def render (address : Nat) : List Char :=
  Text.glue '.' ([address / 16777216 % 256, address / 65536 % 256, address / 256 % 256,
    address % 256].map (Nat.toDigits 10))

end DevMode.Url.Ipv4
