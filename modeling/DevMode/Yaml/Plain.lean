/-
# DevMode.Yaml.Plain -- what plain scalars mean

A plain scalar may be written as nothing, a truth value or a number; all others, and
those that only look like numbers, as digits behind a leading zero do, are text.
-/
import DevMode.Yaml.Folding

namespace DevMode.Yaml

set_option autoImplicit false

/-- What a plain scalar means.  A number is told apart by whether it is a natural
number of 64 bits, which a key may be, or too wide for an integer that can be held. -/
inductive Plain where
  | null
  | bool
  | natural (n : Nat)
  | wide
  | number
  | text
  deriving DecidableEq, Repr

namespace Plain

def isNull (s : String) : Bool := ["null", "Null", "NULL", "~"].contains s

def isBool (s : String) : Bool :=
  ["true", "True", "TRUE", "false", "False", "FALSE"].contains s

/-- The value of a digit in some base. -/
def digit? (base : Nat) (c : Char) : Option Nat :=
  match Text.hexDigit? c with
  | some d => if d < base then some d else none
  | none => none

/-- The number that digits of a base write, of which there is at least one. -/
def natural? (base : Nat) (s : List Char) : Option Nat :=
  if s = [] then none else s.foldlM (fun n d => (digit? base d).map (n * base + ·)) 0

/-- Whether a text is digits behind a leading zero. -/
def isZeroLed (s : List Char) : Bool :=
  let s := match s with
    | '-' :: rest => rest
    | '+' :: rest => rest
    | s => s
  decide (1 < s.length) && s.head? == some '0' && s.all Char.isDigit

/-- The bases other than ten, by the letter behind a zero that names them. -/
def bases : List (Char × Nat) := [('x', 16), ('o', 8), ('b', 2)]

/-- The integer that a text writes, as whether it has a minus sign and its magnitude: an
optional sign, then decimal digits or a zero, the letter of a base and digits of it. -/
def integer? (s : List Char) : Option (Bool × Nat) :=
  let (negative, digits) := match s with
    | '-' :: rest => (true, rest)
    | '+' :: rest => (false, rest)
    | s => (false, s)
  let n := match digits with
    | '0' :: letter :: rest =>
      match bases.lookup letter with
      | some base => natural? base rest
      | none => none
    | _ => none
  let n := n <|> (if isZeroLed s then none else natural? 10 digits)
  n.map fun n => (negative, n)

/-- Whether a decimal mantissa, scaled by a power of ten, is below the least number
that is rounded to infinity in double precision. -/
def isFinite (mantissa : Nat) (exponent : Int) : Bool :=
  let limit := Nat.pow 2 1024 - Nat.pow 2 970
  if mantissa = 0 then true
  else
    match exponent with
    | .ofNat e => decide (e < 400) && decide (mantissa * Nat.pow 10 e < limit)
    | .negSucc e =>
      let digits := (Nat.toDigits 10 mantissa).length
      decide (digits < e + 300) || decide (mantissa < limit * Nat.pow 10 (e + 1))

/-- Whether a text writes a decimal number: digits around an optional point, at least
one, and an optional exponent; or one of the words for what is no finite number. -/
def isDecimal (s : List Char) : Bool :=
  let words := [".inf", ".Inf", ".INF"]
  let unsigned := match s with
    | '+' :: rest => rest
    | s => s
  if s.head? = some '+' ∧ (unsigned.head? = some '+' ∨ unsigned.head? = some '-') then false
  else if words.contains (String.ofList unsigned) ∨
      (words.map ("-" ++ ·)).contains (String.ofList s) ∨
      [".nan", ".NaN", ".NAN"].contains (String.ofList s) then true
  else
    let body := match unsigned with
      | '-' :: rest => rest
      | rest => rest
    let whole := body.takeWhile Char.isDigit
    let rest := body.dropWhile Char.isDigit
    let (fraction, rest) := match rest with
      | '.' :: rest => (rest.takeWhile Char.isDigit, rest.dropWhile Char.isDigit)
      | rest => ([], rest)
    let exponent : Option Int := match rest with
      | [] => some 0
      | e :: rest =>
        if e = 'e' ∨ e = 'E' then
          match rest with
          | '-' :: digits => (natural? 10 digits).map fun n => -(n : Int)
          | '+' :: digits => (natural? 10 digits).map fun n => (n : Int)
          | digits => (natural? 10 digits).map fun n => (n : Int)
        else none
    match natural? 10 (whole ++ fraction), exponent with
    | some m, some e => isFinite m (e - fraction.length)
    | _, _ => false

/-- Whether an integer can be told in so many bits, one of which is for a minus sign. -/
def fits (bits : Nat) (negative : Bool) (n : Nat) : Bool :=
  if negative then n ≤ Nat.pow 2 (bits - 1) else n < Nat.pow 2 bits

/-- What an integer means.  With a minus sign it is no natural number, not even as zero. -/
def ofInteger (negative : Bool) (n : Nat) : Plain :=
  if fits 64 negative n then (if negative then .number else .natural n) else .wide

/-- The meaning of an integer that is written as `s`, if it can be told at all. -/
def integerOf? (s : String) : Option Plain :=
  match integer? s.toList with
  | some (negative, n) => if fits 128 negative n then some (ofInteger negative n) else none
  | none => none

def ofString (s : String) : Plain :=
  if s.isEmpty ∨ isNull s then .null
  else if isBool s then .bool
  else
    match integerOf? s with
    | some p => p
    | none => if !isZeroLed s.toList && isDecimal s.toList then .number else .text

end Plain

end DevMode.Yaml
