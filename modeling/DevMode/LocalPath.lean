/-
# DevMode.LocalPath -- paths on the machine at hand

A local path keeps the text it was given, and that text is what messages show.
What it means is its list of `components`: a leading root or `.`, then names and
`..`; empty segments and further `.` mean nothing.  Joining keeps both texts,
while prefixes and equality (`Same`) go by components.

`clean` resolves `.` and `..` by the text alone.
-/
import DevMode.RemotePath

namespace DevMode

set_option autoImplicit false

/-- A path, as it was written. -/
structure LocalPath where
  chars : List Char
  deriving DecidableEq, Repr

/-- A meaningful part of a path. -/
inductive Component where
  | root
  | current
  | parent
  | name (segment : Segment)
  deriving DecidableEq, Repr

namespace Component

/-- The component of a segment behind the lead of a path, if it means anything. -/
def ofSegment? (s : Segment) : Option Component :=
  if s = [] ∨ s = ['.'] then none
  else if s = ['.', '.'] then some .parent
  else some (.name s)

def chars : Component → List Char
  | root => ['/']
  | current => ['.']
  | parent => ['.', '.']
  | name s => s

end Component

namespace LocalPath

def ofString (s : String) : LocalPath := ⟨s.toList⟩

def toString (p : LocalPath) : String := String.ofList p.chars

@[simp] theorem toString_ofString (s : String) : (ofString s).toString = s := by
  simp [ofString, toString]

def isAbsolute (p : LocalPath) : Bool := p.chars.head? == some '/'

/-! ## Components -/

/-- The lead of a path, the root or a first `.`, and the segments behind it. -/
def split (p : LocalPath) : Option Component × List Segment :=
  match Text.pieces '/' p.chars with
  | [] => (none, [])
  | [[]] => (none, [])
  | [] :: rest => (some .root, rest)
  | ['.'] :: rest => (some .current, rest)
  | segments => (none, segments)

/-- The meaningful parts of a path in order. -/
def components (p : LocalPath) : List Component :=
  p.split.1.toList ++ p.split.2.filterMap Component.ofSegment?

/-- Two paths with the same components. -/
def Same (p q : LocalPath) : Prop := p.components = q.components

instance (p q : LocalPath) : Decidable (p.Same q) :=
  inferInstanceAs (Decidable (p.components = q.components))

def fileName? (p : LocalPath) : Option Segment :=
  match p.components.getLast? with
  | some (.name s) => some s
  | _ => none

/-! ## Joining -/

/-- `q` taken against `p`: an absolute path replaces, and one slash stands between
two texts unless the first is empty or ends with one. -/
def join (p q : LocalPath) : LocalPath :=
  if q.isAbsolute then q
  else
    match p.chars.getLast? with
    | none => q
    | some '/' => ⟨p.chars ++ q.chars⟩
    | some _ => ⟨p.chars ++ '/' :: q.chars⟩

def asDirectory (p : LocalPath) : LocalPath :=
  if p.chars.getLast? = some '/' then p else ⟨p.chars ++ ['/']⟩

/-! ## Parts of a path -/

/-- Whether a segment means nothing behind the lead. -/
def isIdle (s : Segment) : Bool := (Component.ofSegment? s).isNone

/-- The segments without the idle ones at their end. -/
def dropIdleEnd (segments : List Segment) : List Segment :=
  (segments.reverse.dropWhile isIdle).reverse

/-- The path of a lead and the segments behind it. -/
def build (lead : Option Component) (segments : List Segment) : LocalPath :=
  match lead with
  | some .root => ⟨'/' :: Text.glue '/' segments⟩
  | some _ => if segments = [] then ⟨['.']⟩ else ⟨'.' :: '/' :: Text.glue '/' segments⟩
  | none => ⟨Text.glue '/' segments⟩

/-- The segments behind the first that means `c`, if `c` is what the segments mean
first. -/
def dropComponent (c : Component) : List Segment → Option (List Segment)
  | [] => none
  | s :: rest =>
    match Component.ofSegment? s with
    | none => dropComponent c rest
    | some d => if d = c then some rest else none

/-- The segments behind those that mean `cs`. -/
def dropComponents : List Component → List Segment → Option (List Segment)
  | [], segments => some segments
  | c :: cs, segments => (dropComponent c segments).bind (dropComponents cs)

/-- What is left of `p` below `base`, as it is written in `p`; idle segments at
either end are left out. -/
def relativeTo? (p base : LocalPath) : Option LocalPath :=
  let (lead, segments) := p.split
  let strip (cs : List Component) :=
    (dropComponents cs segments).map fun rest => build none (dropIdleEnd (rest.dropWhile isIdle))
  match lead, base.components with
  | _, [] => some (build lead (dropIdleEnd segments))
  | none, cs => strip cs
  | some l, c :: cs => if l = c then strip cs else none

/-- The segments without the last that means something, or `none` if all are idle. -/
def dropLastComponent (segments : List Segment) : Option (List Segment) :=
  match segments.reverse.dropWhile isIdle with
  | [] => none
  | _ :: rest => some (dropIdleEnd rest.reverse)

/-- The path without its last component; the root and the empty path have none. -/
def parent? (p : LocalPath) : Option LocalPath :=
  let (lead, segments) := p.split
  match dropLastComponent segments with
  | some rest => some (build lead rest)
  | none => if lead = some .current then some ⟨[]⟩ else none

/-! ## Clean paths -/

/-- One component further, `.` standing still and `..` taking back what was last. -/
def cleanStep (out : List Component) (c : Component) : List Component :=
  match c with
  | .current => out
  | .parent =>
    match out.getLast? with
    | some (.name _) => out.dropLast
    | _ => out
  | .root => [.root]
  | .name s => out ++ [.name s]

/-- The path that components spell. -/
def ofComponents (cs : List Component) : LocalPath :=
  match cs with
  | .root :: rest => ⟨'/' :: Text.glue '/' (rest.map Component.chars)⟩
  | cs => ⟨Text.glue '/' (cs.map Component.chars)⟩

/-- The path with `.` and `..` resolved by its text alone. -/
def clean (p : LocalPath) : LocalPath := ofComponents (p.components.foldl cleanStep [])

/-- The components joined by slashes, as remote paths are written. -/
def posix (p : LocalPath) : String :=
  String.ofList (Text.glue '/' (p.components.map Component.chars))

/-- The path against a directory, unless it is absolute already. -/
def against (p dir : LocalPath) : LocalPath := if p.isAbsolute then p else dir.join p

end LocalPath

end DevMode
