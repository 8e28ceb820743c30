/-
# DevMode.Url.Domain -- domain names in ASCII

The labels of a domain name that hold other characters than ASCII are written with the
digits of Punycode (`punycode`), behind `xn--`.  Before that, capitals are made small and
the wide forms of ASCII characters are made narrow; the tables cover the capitals of
Latin, Greek and Cyrillic.  A label that is given behind `xn--` has to be the Punycode of one
that needs it (`unpunycode?`).
-/
import DevMode.Text.Cut
import DevMode.Text.Utf8
import DevMode.Url.Percent

namespace DevMode.Url.Domain

set_option autoImplicit false

/-! ## Punycode -/

/-- The digit for a number below 36. -/
def digit (n : Nat) : Char := Char.ofNat (if n < 26 then n + 97 else n + 22)

/-- Divides by 35 until the number is small, counting in steps of 36. -/
def adaptFrom : Nat → Nat → Nat → Nat
  | 0, k, delta => k + 36 * delta / (delta + 38)
  | fuel + 1, k, delta =>
    if 455 < delta then adaptFrom fuel (k + 36) (delta / 35) else k + 36 * delta / (delta + 38)

/-- The next bias, from the last distance and the number of characters so far. -/
def adapt (delta count : Nat) (first : Bool) : Nat :=
  let delta := if first then delta / 700 else delta / 2
  adaptFrom delta 0 (delta + delta / count)

/-- The digits of a distance; each place has its own base. -/
def digitsFrom (bias : Nat) : Nat → Nat → Nat → List Char
  | 0, _, q => [digit q]
  | fuel + 1, k, q =>
    let t := if k ≤ bias then 1 else if bias + 26 ≤ k then 26 else k - bias
    if q < t then [digit q]
    else digit (t + (q - t) % (36 - t)) :: digitsFrom bias fuel (k + 36) ((q - t) / (36 - t))

/-- The state of an encoder: the distance, the bias, how many characters are written,
whether none beyond ASCII is, and the digits so far. -/
structure Encoder where
  delta : Nat
  bias : Nat
  count : Nat
  first : Bool
  out : List Char

/-- Walks over all characters of a label and writes where `code` stands. -/
def place (code : Nat) (e : Encoder) (c : Char) : Encoder :=
  if c.toNat < code then { e with delta := e.delta + 1 }
  else if c.toNat = code then
    { delta := 0, bias := adapt e.delta (e.count + 1) e.first, count := e.count + 1, first := false,
      out := e.out ++ digitsFrom e.bias e.delta 36 e.delta }
  else e

/-- Writes one code point after another, in order. -/
def placeAll (label : List Char) : List Nat → Nat → Encoder → Encoder
  | [], _, e => e
  | code :: codes, last, e =>
    let e := { e with delta := e.delta + (code - last) * (e.count + 1) }
    let e := label.foldl (place code) e
    placeAll label codes (code + 1) { e with delta := e.delta + 1 }

def punycode (label : List Char) : List Char :=
  let basic := label.filter (·.toNat < 128)
  let codes := ((label.map Char.toNat).filter (128 ≤ ·)).eraseDups.mergeSort (fun a b => decide (a ≤ b))
  let lead := if basic = [] then [] else basic ++ ['-']
  (placeAll label codes 128 ⟨0, 72, basic.length, true, lead⟩).out

def digitValue? (c : Char) : Option Nat :=
  if 'a' ≤ c ∧ c ≤ 'z' then some (c.toNat - 97)
  else if c.isDigit then some (c.toNat - 22)
  else none

/-- The state of a decoder: the code point and the place of the last character, the bias, the
label so far, and of the distance being read its sum, the weight of the next digit and its
place. -/
structure Decoder where
  code : Nat
  index : Nat
  bias : Nat
  label : List Char
  distance : Nat
  weight : Nat
  place : Nat

/-- Puts in the character whose distance has been read. -/
def Decoder.insert? (d : Decoder) : Option Decoder :=
  let count := d.label.length + 1
  let code := d.code + (d.index + d.distance) / count
  let index := (d.index + d.distance) % count
  if code.isValidChar then
    some ⟨code, index + 1, adapt d.distance count (d.index = 0), d.label.insertIdx index (Char.ofNat code),
      0, 1, 36⟩
  else none

def Decoder.step? (d : Decoder) (c : Char) : Option Decoder := do
  let q ← digitValue? c
  let d := { d with distance := d.distance + q * d.weight }
  let t := if d.place ≤ d.bias then 1 else if d.bias + 26 ≤ d.place then 26 else d.place - d.bias
  if q < t then d.insert? else some { d with weight := d.weight * (36 - t), place := d.place + 36 }

/-- The label whose Punycode is given: the characters before the last dash stand for
themselves. -/
def unpunycode? (code : List Char) : Option (List Char) := do
  let digits := (code.reverse.takeWhile (· ≠ '-')).reverse
  let basic := code.take (code.length - digits.length - 1)
  let d ← digits.foldlM Decoder.step? ⟨128, 0, 72, basic, 0, 1, 36⟩
  if d.place = 36 then some d.label else none

/-! ## Mapping -/

/-- The capitals whose small letters follow at a distance: first, last, distance. -/
def capitals : List (Nat × Nat × Nat) :=
  [(0x41, 0x5A, 32), (0xC0, 0xD6, 32), (0xD8, 0xDE, 32), (0x391, 0x3A1, 32), (0x3A3, 0x3AB, 32),
   (0x400, 0x40F, 80), (0x410, 0x42F, 32)]

/-- The small letter for a capital. -/
def small (c : Char) : Char :=
  match capitals.find? fun (lo, hi, _) => lo ≤ c.toNat && c.toNat ≤ hi with
  | some (_, _, distance) => Char.ofNat (c.toNat + distance)
  | none => if 0x100 ≤ c.toNat ∧ c.toNat ≤ 0x137 ∧ c.toNat % 2 = 0 then Char.ofNat (c.toNat + 1) else c

def isIgnored (c : Char) : Bool := c.toNat = 0xAD || c.toNat = 0x200B || c.toNat = 0xFEFF

/-- The narrow form of a character. -/
def narrow (c : Char) : Char :=
  if 0xFF01 ≤ c.toNat ∧ c.toNat ≤ 0xFF5E then Char.ofNat (c.toNat - 0xFEE0)
  else if c.toNat = 0x3002 ∨ c.toNat = 0xFF61 then '.'
  else c

/-- The characters of a domain name as they are compared. -/
def normalize (s : List Char) : List Char :=
  (s.filter (!isIgnored ·)).map fun c => small (narrow c)

def isAllowed (c : Char) : Bool :=
  0x20 < c.toNat && !(0x7F ≤ c.toNat && c.toNat < 0xA0) && c.toNat ≠ 0xFFFD &&
    !(['%', '#', '/', ':', '<', '>', '?', '@', '[', '\\', ']', '^', '|'].contains c)

/-- Whether a label is the Punycode of one that has other characters than ASCII and stays as
it is when it is normalized. -/
def isPunycode (code : List Char) : Bool :=
  (unpunycode? code).any fun label =>
    label.any (128 ≤ ·.toNat) && normalize label = label && label.all isAllowed

def punycodeLead : List Char := ['x', 'n', '-', '-']

/-- A label in ASCII, if it can be one. -/
def labelToAscii? (label : List Char) : Option (List Char) :=
  match Text.after? punycodeLead label with
  | some code => if isPunycode code then some label else none
  | none =>
    if label.all (·.toNat < 128) then some label else some (punycodeLead ++ punycode label)

/-- The domain name in ASCII, if it is one. -/
def toAscii? (host : List Char) : Option (List Char) := do
  let text ← Text.decode? ⟨(decode host).toArray⟩
  let name := normalize text.toList
  if name.all isAllowed then
    return Text.glue '.' (← (Text.pieces '.' name).mapM labelToAscii?)
  else none

end DevMode.Url.Domain
