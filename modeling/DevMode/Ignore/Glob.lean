/-
# DevMode.Ignore.Glob -- globs

A glob is read into tokens (`Glob.parse`), and tokens stand for a pattern over the
bytes of a path (`Glob.pattern`).  `?`, `*` and classes keep within one name, `**`
as a whole name crosses slashes, braces hold alternatives, and a backslash takes
the next character as it is.  A class that is never closed is a plain bracket, and
so is every bracket behind it.
-/
import DevMode.Ignore.BytePattern
import DevMode.Text.Cut

namespace DevMode.Ignore

set_option autoImplicit false

/-! ## Tokens -/

/-- Why a text is no glob. -/
inductive GlobError where
  | invalidRange (lo hi : Char)
  | danglingEscape
  | unclosedAlternates
  | unopenedAlternates
  deriving DecidableEq, Repr

def GlobError.message : GlobError → String
  | invalidRange lo hi =>
    "invalid range; '" ++ String.singleton lo ++ "' > '" ++ String.singleton hi ++ "'"
  | danglingEscape => "dangling '\\'"
  | unclosedAlternates =>
    "unclosed alternate group; missing '\x7d' (maybe escape '\x7b' with '[\x7b]'?)"
  | unopenedAlternates =>
    "unopened alternate group; missing '\x7b' (maybe escape '\x7d' with '[\x7d]'?)"

/-- A part of a glob.  `**` is three things: at the start, in the middle with a
slash on either side, and at the end with one before it. -/
inductive GlobToken where
  | char (c : Char)
  | anyChar
  | anyChars
  | anyStart
  | anyMiddle
  | anyEnd
  | class (negated : Bool) (ranges : List (Char × Char))
  | alternates (branches : List (List GlobToken))

namespace Glob

/-- The ranges of a class so far, and whether a dash waits for the end of a range. -/
structure ClassState where
  ranges : List (Char × Char)
  inRange : Bool

/-- One character of a class that neither starts nor ends it. -/
def ClassState.add (s : ClassState) (c : Char) : Except GlobError ClassState :=
  match s.inRange, s.ranges.getLast? with
  | true, some (lo, _) =>
    if c < lo then .error (.invalidRange lo c)
    else .ok ⟨s.ranges.dropLast ++ [(lo, c)], false⟩
  | _, _ => if c = '-' then .ok ⟨s.ranges, true⟩ else .ok ⟨s.ranges ++ [(c, c)], false⟩

/-- All ranges of a class that ends here: a dash still waiting stands for itself. -/
def ClassState.close (s : ClassState) : List (Char × Char) :=
  if s.inRange then s.ranges ++ [('-', '-')] else s.ranges

/-- The ranges of a class up to its closing bracket and the text behind that, or
`none` if there is no such bracket. -/
def classRest : ClassState → List Char →
    Except GlobError (Option (List (Char × Char) × List Char))
  | _, [] => .ok none
  | s, c :: cs =>
    if c = ']' then .ok (some (s.close, cs))
    else do classRest (← s.add c) cs

/-- The ranges of a class, of which a bracket or a dash may be the first character. -/
def classRanges? : List Char → Except GlobError (Option (List (Char × Char) × List Char))
  | [] => .ok none
  | c :: cs => classRest ⟨[(c, c)], false⟩ cs

/-- A class behind its opening bracket and the text behind it. -/
def class? (cs : List Char) : Except GlobError (Option (GlobToken × List Char)) :=
  let (negated, body) := match cs with
    | '!' :: rest => (true, rest)
    | '^' :: rest => (true, rest)
    | cs => (false, cs)
  (classRanges? body).map fun found => found.map fun (ranges, rest) => (.class negated ranges, rest)

theorem classRest_shorter {s : ClassState} {cs rest : List Char} {ranges : List (Char × Char)}
    (h : classRest s cs = .ok (some (ranges, rest))) : rest.length < cs.length := by
  induction cs generalizing s with
  | nil => simp [classRest] at h
  | cons c cs ih =>
    simp only [classRest] at h
    split at h
    · simp only [Except.ok.injEq, Option.some.injEq, Prod.mk.injEq] at h
      simp [h.2]
    · cases hs : s.add c with
      | error e => simp [hs, bind, Except.bind] at h
      | ok s' =>
        simp only [hs, bind, Except.bind] at h
        have := ih h
        simp only [List.length_cons]; omega

theorem class?_shorter {cs rest : List Char} {t : GlobToken}
    (h : class? cs = .ok (some (t, rest))) : rest.length < cs.length := by
  have ranges {body rest : List Char} {r : List (Char × Char)}
      (h : classRanges? body = .ok (some (r, rest))) : rest.length < body.length := by
    cases body with
    | nil => simp [classRanges?] at h
    | cons c cs =>
      have := classRest_shorter h
      simp only [List.length_cons]; omega
  have main {body : List Char} {negated : Bool}
      (h : (classRanges? body).map (fun found => found.map fun (x : _ × _) =>
        (GlobToken.class negated x.1, x.2)) = .ok (some (t, rest))) : rest.length < body.length := by
    cases hr : classRanges? body with
    | error e => simp [hr, Except.map] at h
    | ok found =>
      cases found with
      | none => simp [hr, Except.map] at h
      | some found =>
        simp only [hr, Except.map, Option.map_some, Except.ok.injEq, Option.some.injEq,
          Prod.mk.injEq] at h
        exact ranges (by rw [hr, ← h.2])
  unfold class? at h
  split at h
  rename_i heq
  split at heq
  · cases heq; have := main h; simp only [List.length_cons]; omega
  · cases heq; have := main h; simp only [List.length_cons]; omega
  · cases heq; exact main h

/-! ## Reading a glob -/

/-- An open group: the alternatives before the current one, and the tokens before
the group.  Tokens are kept backwards. -/
structure Group where
  done : List (List GlobToken)
  before : List GlobToken

/-- What has been read of a glob: the tokens of the current branch (backwards), the
open groups from the inside out, the character before the next one, and whether a
class was left open. -/
structure State where
  branch : List GlobToken
  groups : List Group
  prev : Option Char
  bracketsPlain : Bool

namespace State

def push (s : State) (t : GlobToken) (c : Char) : State :=
  { s with branch := t :: s.branch, prev := some c }

def openGroup (s : State) : State :=
  { s with branch := [], groups := ⟨[], s.branch⟩ :: s.groups, prev := some '\x7b' }

/-- A comma: the next alternative, or itself outside a group. -/
def comma (s : State) : State :=
  match s.groups with
  | [] => s.push (.char ',') ','
  | g :: gs =>
    { s with
      branch := []
      groups := { g with done := g.done ++ [s.branch.reverse] } :: gs
      prev := some ',' }

def closeGroup (s : State) : Except GlobError State :=
  match s.groups with
  | [] => .error .unopenedAlternates
  | g :: gs =>
    .ok { s with
      branch := .alternates (g.done ++ [s.branch.reverse]) :: g.before
      groups := gs
      prev := some '\x7d' }

/-- Two stars that are no whole name: they keep within it. -/
def starStar (s : State) : State := (s.push .anyChars '*').push .anyChars '*'

/-- `**` behind a slash (or at the start of an alternative), before `next`: it takes
the token before it into itself, two in a row being one. -/
def crossing (s : State) (atEnd : Bool) (c : Char) : State :=
  match s.branch with
  | .anyStart :: _ => { s with prev := some c }
  | .anyEnd :: _ => { s with prev := some c }
  | _ :: before =>
    { s with branch := (if atEnd then .anyEnd else .anyMiddle) :: before, prev := some c }
  | [] => s

/-- Two stars, and how many of the characters behind them belong to them. -/
def doubleStar (s : State) (rest : List Char) : State × List Char :=
  let inGroup := s.groups ≠ []
  if s.branch = [] then
    match rest with
    | [] => (s.push .anyStart '*', [])
    | '/' :: rest => (s.push .anyStart '/', rest)
    | rest => (s.starStar, rest)
  else if s.prev ≠ some '/' ∧ ¬(inGroup ∧ (s.prev = some ',' ∨ s.prev = some '\x7b')) then
    (s.starStar, rest)
  else
    match rest with
    | [] => (s.crossing true '*', [])
    | '/' :: rest => (s.crossing false '/', rest)
    | c :: rest =>
      if inGroup ∧ (c = ',' ∨ c = '\x7d') then (s.crossing true '*', c :: rest)
      else (s.starStar, c :: rest)

end State

theorem State.doubleStar_shorter (s : State) (rest : List Char) :
    (s.doubleStar rest).2.length ≤ rest.length := by
  unfold State.doubleStar
  simp only
  repeat' split
  all_goals simp

/-- Reads a glob to its end. -/
def read (s : State) (cs : List Char) : Except GlobError State :=
  match cs with
  | [] => .ok s
  | '?' :: rest => read (s.push .anyChar '?') rest
  | '*' :: '*' :: rest =>
    have := s.doubleStar_shorter rest
    read (s.doubleStar rest).1 (s.doubleStar rest).2
  | '*' :: rest => read (s.push .anyChars '*') rest
  | '[' :: rest =>
    if s.bracketsPlain then read (s.push (.char '[') '[') rest
    else
      match _h : class? rest with
      | .error e => .error e
      | .ok none => read { s.push (.char '[') '[' with bracketsPlain := true } rest
      | .ok (some (t, rest)) => read (s.push t ']') rest
  | '\x7b' :: rest => read s.openGroup rest
  | '\x7d' :: rest =>
    match s.closeGroup with
    | .error e => .error e
    | .ok s => read s rest
  | ',' :: rest => read s.comma rest
  | ['\\'] => .error .danglingEscape
  | '\\' :: c :: rest => read (s.push (.char c) c) rest
  | c :: rest => read (s.push (.char c) c) rest
termination_by cs.length
decreasing_by
  all_goals simp_wf
  all_goals first
    | omega
    | have := class?_shorter _h
      omega

def parse (glob : List Char) : Except GlobError (List GlobToken) := do
  let s ← read ⟨[], [], none, false⟩ glob
  if s.groups = [] then .ok s.branch.reverse else .error .unclosedAlternates

/-! ## What tokens match -/

def bytesOf (cs : List Char) : List UInt8 := cs.flatMap String.utf8EncodeChar

/-- The bytes of a class, of which the slash is none: each byte of a character
counts, and a range runs from the last byte of its first character to the first
byte of its last one. -/
def classSet (negated : Bool) (ranges : List (Char × Char)) : ByteSet :=
  let single (bs : List UInt8) := bs.map fun b => (b, b)
  let rangeOf (r : Char × Char) : List (UInt8 × UInt8) :=
    let lo := bytesOf [r.1]
    let hi := bytesOf [r.2]
    if r.1 = r.2 then single lo
    else
      match lo.getLast?, hi.head? with
      | some l, some h => single lo.dropLast ++ [(l, h)] ++ single hi.tail
      | _, _ => []
  let all := ranges.flatMap rangeOf
  if negated then ⟨true, (0x2F, 0x2F) :: all⟩
  else ⟨false, all.flatMap fun r =>
    if r.1 ≤ 0x2F && 0x2F ≤ r.2 then
      (if r.1 < 0x2F then [(r.1, 0x2E)] else []) ++ (if 0x2F < r.2 then [(0x30, r.2)] else [])
    else [r]⟩

mutual

def tokenPattern : GlobToken → BytePattern
  | .char c => .exactly (bytesOf [c])
  | .anyChar => .byte .notSlash
  | .anyChars => .star (.byte .notSlash)
  | .anyStart =>
    let slash := BytePattern.byte (.one 0x2F)
    .alt (.alt .empty slash) (.seq (.star (.byte .all)) slash)
  | .anyMiddle =>
    let slash := BytePattern.byte (.one 0x2F)
    .alt slash (.seq slash (.seq (.star (.byte .all)) slash))
  | .anyEnd => .seq (.byte (.one 0x2F)) (.star (.byte .all))
  | .class negated ranges => .byte (classSet negated ranges)
  | .alternates branches => .oneOf (branchPatterns branches)

/-- The patterns of the alternatives that have a token. -/
def branchPatterns : List (List GlobToken) → List BytePattern
  | [] => []
  | [] :: bs => branchPatterns bs
  | (t :: ts) :: bs => .seq (tokenPattern t) (tokensPattern ts) :: branchPatterns bs

def tokensPattern : List GlobToken → BytePattern
  | [] => .empty
  | t :: ts => .seq (tokenPattern t) (tokensPattern ts)

end

def isChar : GlobToken → Bool
  | .char _ => true
  | _ => false

/-- Whether tokens ask for the name of a file by its end: some are no plain
characters, and plain ones with a dot among them, the last, stand at the end, which
are not all that follows a leading `**`, unless they are one name. -/
def asksForName (tokens : List GlobToken) : Bool :=
  match tokens with
  | .anyStart :: rest =>
    endsInDot rest && !(rest.all isChar && rest.any fun t => isSlash t)
  | tokens => endsInDot tokens && !tokens.all isChar
where
  /-- Whether the last token is a dot. -/
  endsInDot (ts : List GlobToken) : Bool :=
    match ts.getLast? with
    | some (.char '.') => true
    | _ => false
  /-- Whether a token is a slash. -/
  isSlash : GlobToken → Bool
    | .char '/' => true
    | _ => false

/-- Whether tokens match a path.  A path that ends in `..` names no file. -/
def accepts (tokens : List GlobToken) (path : List Char) : Bool :=
  match tokens with
  | [.anyStart] => true
  | tokens =>
    let last := (Text.pieces '/' path).getLast?
    if last = some ['.', '.'] ∧ asksForName tokens then false
    else (tokensPattern tokens).accepts (bytesOf path)

end Glob

end DevMode.Ignore
