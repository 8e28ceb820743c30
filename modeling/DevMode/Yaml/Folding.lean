/-
# DevMode.Yaml.Folding -- the text of scalars

A scalar in YAML may run over several lines.  What lies between two of its parts is
a `Gap`; folding a gap keeps blanks within a line, makes one line end a space and of
more of them all but the first.  Plain and quoted scalars are parts with gaps
between them; block scalars keep or fold their lines themselves.
-/
import DevMode.Text.Hex
import DevMode.Yaml.Cursor

namespace DevMode.Yaml

set_option autoImplicit false

/-! ## Gaps -/

/-- What lies between two parts of a scalar: blanks, and if it holds a line end, the
first and the further ones. -/
structure Gap where
  broken : Bool
  blanks : List Char
  first : List Char
  further : List Char

namespace Gap

def none : Gap := ⟨false, [], [], []⟩

def escaped : Gap := ⟨true, [], [], []⟩

/-- A gap from here on.  Where plain scalars must be indented, a tab before that
column on a new line is refused. -/
def read (indent : Nat) (tabsMatter : Bool) : Nat → Gap → Cursor → Option (Gap × Cursor)
  | 0, _, _ => Option.none
  | fuel + 1, g, c =>
    match c.rest with
    | [] => some (g, c)
    | x :: _ =>
      if isBlank x then
        if tabsMatter ∧ g.broken ∧ c.column < indent ∧ x = '\t' then Option.none
        else
          read indent tabsMatter fuel
            (if g.broken then g else { g with blanks := g.blanks ++ [x] }) (c.skip 1)
      else if isBreak x then
        let (text, c) := c.lineEnd
        read indent tabsMatter fuel
          (if g.broken then { g with further := g.further ++ text }
           else ⟨true, [], text, []⟩) c
      else some (g, c)

def fold (g : Gap) : List Char :=
  if !g.broken then g.blanks
  else if g.first = ['\n'] then (if g.further = [] then [' '] else g.further)
  else g.first ++ g.further

end Gap

/-! ## Plain scalars -/

def isFlowMark (c : Char) : Bool :=
  c = ',' || c = '[' || c = ']' || c = '\x7b' || c = '\x7d'

/-- A part of a plain scalar from here on: to a blank, a line end, a colon before one,
or a mark within brackets.  A colon right before such a mark is refused. -/
def plainPart (inFlow : Bool) : List Char → Option (List Char)
  | [] => some []
  | x :: rest =>
    if isBlank x || isBreak x then some []
    else
      let next := rest.head?
      let clear := match next with
        | some y => isBlank y || isBreak y
        | none => true
      let mark := match next with
        | some y => isFlowMark y || y = '?'
        | none => false
      if inFlow && x = ':' && mark then none
      else if (x = ':' && clear) || (inFlow && isFlowMark x) then some []
      else (plainPart inFlow rest).map (x :: ·)

/-- A plain scalar from here on, whether a line end follows it, and the place behind
it.  Outside brackets its further lines are indented at least to `indent`. -/
def plainFrom (inFlow : Bool) (indent : Nat) :
    Nat → List Char → Gap → Cursor → Option (List Char × Bool × Cursor)
  | 0, _, _, _ => none
  | fuel + 1, text, gap, c => do
    if c.atDocumentMark || c.looksAt 0 '#' then return (text, gap.broken, c)
    let part ← plainPart inFlow c.rest
    let text := if part = [] then text else text ++ gap.fold ++ part
    let gap := if part = [] then gap else Gap.none
    let c := c.skip part.length
    if !c.holds 0 fun x => isBlank x || isBreak x then return (text, gap.broken, c)
    let (gap, c) ← Gap.read indent true (c.rest.length + 1) gap c
    if !inFlow && c.column < indent then return (text, gap.broken, c)
    plainFrom inFlow indent fuel text gap c

def plainScalar (inFlow : Bool) (indent : Nat) (c : Cursor) : Option (List Char × Bool × Cursor) :=
  plainFrom inFlow indent (c.rest.length + 1) [] Gap.none c

/-! ## Quoted scalars -/

/-- The character that the letter behind a backslash stands for. -/
def escapedChar? : Char → Option Char
  | '0' => some '\x00'
  | 'a' => some '\x07'
  | 'b' => some '\x08'
  | 't' => some '\t'
  | '\t' => some '\t'
  | 'n' => some '\n'
  | 'v' => some '\x0B'
  | 'f' => some '\x0C'
  | 'r' => some '\r'
  | 'e' => some '\x1B'
  | ' ' => some ' '
  | '"' => some '"'
  | '/' => some '/'
  | '\\' => some '\\'
  | 'N' => some '\x85'
  | '_' => some '\xA0'
  | 'L' => some '\u2028'
  | 'P' => some '\u2029'
  | _ => none

/-- How many hexadecimal digits follow the letter behind a backslash. -/
def escapeLength? : Char → Option Nat
  | 'x' => some 2
  | 'u' => some 4
  | 'U' => some 8
  | _ => none

/-- The character that follows a backslash here, and the place behind it. -/
def escape? (c : Cursor) : Option (Char × Cursor) := do
  let letter ← c.peek? 1
  match escapedChar? letter with
  | some x => return (x, c.skip 2)
  | none =>
    let n ← escapeLength? letter
    let digits := (c.rest.drop 2).take n
    if digits.length < n then none
    else
      let code ← Text.hexNumber? digits
      if code.isValidChar then return (Char.ofNat code, c.skip (2 + n)) else none

/-- A part of a quoted scalar from here on: to a blank, a line end, an escaped line
end or the closing quote; and whether an escaped line end was passed. -/
def quotedPart (quote : Char) :
    Nat → List Char → Cursor → Option (List Char × Bool × Cursor)
  | 0, _, _ => none
  | fuel + 1, text, c =>
    match c.rest with
    | [] => some (text, false, c)
    | x :: rest =>
      if isBlank x || isBreak x then some (text, false, c)
      else if quote = '\'' ∧ x = quote ∧ rest.head? = some quote then
        quotedPart quote fuel (text ++ [quote]) (c.skip 2)
      else if x = quote then some (text, false, c)
      else if quote = '"' ∧ x = '\\' then
        if c.holds 1 isBreak then some (text, true, (c.skip 1).lineEnd.2)
        else do
          let (y, c) ← escape? c
          quotedPart quote fuel (text ++ [y]) c
      else quotedPart quote fuel (text ++ [x]) (c.skip 1)

/-- A quoted scalar from behind its opening quote, and the place behind its closing
one. -/
def quotedFrom (quote : Char) : Nat → List Char → Cursor → Option (List Char × Cursor)
  | 0, _, _ => none
  | fuel + 1, text, c => do
    if c.atDocumentMark || c.atEnd then none
    let (part, escaped, c) ← quotedPart quote (c.rest.length + 1) [] c
    let text := text ++ part
    if c.looksAt 0 quote then return (text, c.skip 1)
    let (gap, c) ←
      Gap.read 0 false (c.rest.length + 1) (if escaped then Gap.escaped else Gap.none) c
    quotedFrom quote fuel (text ++ gap.fold) c

def quotedScalar (quote : Char) (c : Cursor) : Option (List Char × Cursor) :=
  quotedFrom quote (c.rest.length + 1) [] (c.skip 1)

/-! ## Block scalars -/

/-- What becomes of the line ends behind a block scalar. -/
inductive Chomp where
  | strip
  | clip
  | keep
  deriving DecidableEq

/-- The header of a block scalar behind its mark: what becomes of line ends behind
it, and by how much it is indented if that is said. -/
def blockHeader (c : Cursor) : Option (Chomp × Option Nat × Cursor) :=
  let chompAt (c : Cursor) : Option (Chomp × Cursor) :=
    if c.looksAt 0 '+' then some (.keep, c.skip 1)
    else if c.looksAt 0 '-' then some (.strip, c.skip 1)
    else none
  let digitAt (c : Cursor) : Option (Option (Nat × Cursor)) :=
    match c.peek? 0 with
    | some d =>
      if d = '0' then none
      else if d.isDigit then some (some (d.toNat - '0'.toNat, c.skip 1))
      else some none
    | none => some none
  match chompAt c with
  | some (chomp, c) =>
    match digitAt c with
    | none => none
    | some (some (n, c)) => some (chomp, some n, c)
    | some none => some (chomp, none, c)
  | none =>
    match digitAt c with
    | none => none
    | some none => some (.clip, none, c)
    | some (some (n, c)) =>
      match chompAt c with
      | some (chomp, c) => some (chomp, some n, c)
      | none => some (.clip, some n, c)

/-- The empty lines from here on and the indentation, which the most indented of
them tells if it is not known yet; `least` is the least it may be. -/
def blockBreaks (least : Nat) :
    Nat → Option Nat → Nat → List Char → Cursor → Option (Nat × List Char × Cursor)
  | 0, _, _, _, _ => none
  | fuel + 1, indent, deepest, breaks, c =>
    let room := match indent with
      | some n => n - c.column
      | none => c.rest.length
    let c := c.skip ((c.rest.take room).takeWhile (· = ' ')).length
    let deepest := max deepest c.column
    let indented := match indent with
      | some n => n ≤ c.column
      | none => false
    if !indented && c.looksAt 0 '\t' then none
    else if c.holds 0 isBreak then
      let (text, c) := c.lineEnd
      blockBreaks least fuel indent deepest (breaks ++ text) c
    else some (indent.getD (max deepest least), breaks, c)

/-- The lines of a block scalar: the text so far, the line end behind its last line,
the empty lines behind that, and whether the last line started with a blank. -/
def blockLines (literal : Bool) (indent : Nat) :
    Nat → List Char → List Char → List Char → Bool → Cursor →
      Option (List Char × List Char × List Char × Cursor)
  | 0, _, _, _, _, _ => none
  | fuel + 1, text, lead, trail, leadBlank, c =>
    if c.column = indent ∧ !c.atEnd then do
      let blank := c.holds 0 isBlank
      let text :=
        if !literal && lead = ['\n'] && !leadBlank && !blank then
          text ++ (if trail = [] then [' '] else trail)
        else text ++ lead ++ trail
      let (line, c) := c.span fun x => !isBreak x
      let (lead, c) := c.lineEnd
      let (_, trail, c) ← blockBreaks 0 (c.rest.length + 1) (some indent) 0 [] c
      blockLines literal indent fuel (text ++ line) lead trail blank c
    else some (text, lead, trail, c)

/-- A block scalar, the cursor at its mark; `parent` is the indentation around it, if
there is one. -/
def blockScalar (literal : Bool) (parent : Option Nat) (c : Cursor) :
    Option (List Char × Cursor) := do
  let (chomp, increment, c) ← blockHeader (c.skip 1)
  let c := c.skipWhile isBlank
  let c := if c.looksAt 0 '#' then c.skipLine else c
  if !c.atLineEnd then none
  let c := c.lineEnd.2
  let known := increment.map (parent.getD 0 + ·)
  let least := max 1 (match parent with
    | some n => n + 1
    | none => 0)
  let (indent, trail, c) ← blockBreaks least (c.rest.length + 1) known 0 [] c
  let (text, lead, trail, c) ←
    blockLines literal indent (c.rest.length + 1) [] [] trail false c
  let text := if chomp = .strip then text else text ++ lead
  return (if chomp = .keep then text ++ trail else text, c)

end DevMode.Yaml
