/-
# DevMode.Url.Ipv6 -- addresses of eight groups

An IPv6 address has eight groups of up to four hexadecimal digits between colons.  Once,
`::` may stand for one or more groups of zero, and the last two groups may be written as
an IPv4 address of four decimal numbers.  `render` writes the first of the longest runs
of zero groups as `::`.
-/
import DevMode.Text.Cut
import DevMode.Text.Hex
import DevMode.Url.Error

namespace DevMode.Url.Ipv6

set_option autoImplicit false

/-- The groups read so far, and how many of them stand before a `::`. -/
structure Groups where
  read : List Nat
  gap : Option Nat
  deriving DecidableEq, Repr

namespace Groups

/-- The number of places taken; a `::` takes one. -/
def size (g : Groups) : Nat := g.read.length + g.gap.toList.length

def push (g : Groups) (n : Nat) : Groups := { g with read := g.read ++ [n] }

/-- All eight groups. -/
def fill (g : Groups) : Option (List Nat) :=
  match g.gap with
  | some n =>
    if g.read.length < 8 then
      some (g.read.take n ++ List.replicate (8 - g.read.length) 0 ++ g.read.drop n)
    else none
  | none => if g.read.length = 8 then some g.read else none

end Groups

def byte? (s : List Char) : Option Nat :=
  if s = [] ∨ ¬ s.all Char.isDigit ∨ (1 < s.length ∧ s.head? = some '0') ∨ 3 < s.length then none
  else
    let n := s.foldl (fun n c => n * 10 + (c.toNat - 48)) 0
    if n < 256 then some n else none

/-- The two groups of four decimal numbers. -/
def tail? (s : List Char) : Option (Nat × Nat) :=
  match (Text.pieces '.' s).mapM byte? with
  | some [a, b, c, d] => some (a * 256 + b, c * 256 + d)
  | _ => none

/-- Reads the groups of an address from a place where a group or a second colon may
stand.  The text is not longer than its fuel. -/
def groups? : Nat → Groups → List Char → Option Groups
  | _, g, [] => some g
  | 0, _, _ => none
  | fuel + 1, g, c :: s =>
    if g.size = 8 then none
    else if c = ':' then
      if g.gap.isSome then none else groups? fuel { g with gap := some g.read.length } s
    else
      let digits := ((c :: s).take 4).takeWhile fun x => (Text.hexDigit? x).isSome
      match Text.hexNumber? digits, (c :: s).drop digits.length with
      | some n, [] => some (g.push n)
      | some n, ':' :: rest => if rest = [] then none else groups? fuel (g.push n) rest
      | _, '.' :: _ =>
        if digits = [] ∨ 6 < g.size then none
        else (tail? (c :: s)).map fun (a, b) => (g.push a).push b
      | _, _ => none

def parse (s : List Char) : Except UrlError (List Nat) :=
  let groups : Option Groups :=
    match s with
    | ':' :: ':' :: rest => groups? s.length ⟨[], some 0⟩ rest
    | ':' :: _ => none
    | [_] => none
    | [] => none
    | s => groups? s.length ⟨[], none⟩ s
  match groups.bind Groups.fill with
  | some gs => .ok gs
  | none => .error .badIpv6

/-- The number of zero groups from a place on. -/
def zerosAt (groups : List Nat) (start : Nat) : Nat := ((groups.drop start).takeWhile (· = 0)).length

/-- Where the first of the longest runs of zero groups starts, and its length. -/
def longestRun (groups : List Nat) : Nat × Nat :=
  (List.range groups.length).foldl (fun best start =>
    if best.2 < zerosAt groups start then (start, zerosAt groups start) else best) (0, 0)

def renderGroups (groups : List Nat) : List Char := Text.glue ':' (groups.map Text.hexLower)

def render (groups : List Nat) : List Char :=
  let (start, length) := longestRun groups
  if length < 2 then renderGroups groups
  else
    renderGroups (groups.take start) ++ [':', ':'] ++ renderGroups (groups.drop (start + length))

end DevMode.Url.Ipv6
