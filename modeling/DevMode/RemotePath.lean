/-
# DevMode.RemotePath -- paths inside remote containers

A remote path is text with forward slashes.  What it names, as far as the text
alone tells, is a `Location`: absolute or not, a number of steps up, and a list
of names.  A path is read one segment at a time (`Location.step`): an empty
segment and `.` stand still, `..` takes back the last name, or climbs one step,
which the root absorbs.

* `clean` writes the location of a path in its one shortest form;
* `join` puts two paths together, an empty one adding nothing;
* `relative?` is the way down from one location to another, if there is one.
-/
import DevMode.Text.Cut

namespace DevMode

set_option autoImplicit false

/-- A name in a path: the characters between two slashes. -/
abbrev Segment := List Char

/-! ## Locations -/

/-- What a remote path names: below the root, or `up` steps above the directory
it is taken against, then down through `names`. -/
structure Location where
  absolute : Bool
  up : Nat
  names : List Segment
  deriving DecidableEq, Repr

namespace Location

/-- The root, or the directory a relative path is taken against. -/
def origin (absolute : Bool) : Location := ⟨absolute, 0, []⟩

/-- One segment further. -/
def step (l : Location) (segment : Segment) : Location :=
  if segment = [] ∨ segment = ['.'] then l
  else if segment = ['.', '.'] then
    match l.names with
    | [] => if l.absolute then l else { l with up := l.up + 1 }
    | _ :: _ => { l with names := l.names.dropLast }
  else { l with names := l.names ++ [segment] }

/-- The location that the segments of a path lead to. -/
def walk (l : Location) (segments : List Segment) : Location := segments.foldl step l

/-- The location a path names. -/
def parse (path : List Char) : Location :=
  (origin (path.head? == some '/')).walk (Text.pieces '/' path)

/-- The segments of the shortest path to a location. -/
def segments (l : Location) : List Segment := List.replicate l.up ['.', '.'] ++ l.names

/-- The shortest path to a location: `/` for the root and `.` for standing still. -/
def render (l : Location) : List Char :=
  if l.absolute then '/' :: Text.glue '/' l.segments
  else if l.segments = [] then ['.']
  else Text.glue '/' l.segments

@[simp] theorem walk_nil (l : Location) : l.walk [] = l := rfl

@[simp] theorem walk_cons (l : Location) (s : Segment) (ss : List Segment) :
    l.walk (s :: ss) = (l.step s).walk ss := rfl

theorem walk_append (l : Location) (xs ys : List Segment) :
    l.walk (xs ++ ys) = (l.walk xs).walk ys := by simp [walk]

/-- No segment changes whether a path is absolute. -/
@[simp] theorem step_absolute (l : Location) (s : Segment) : (l.step s).absolute = l.absolute := by
  simp only [step]
  split
  · rfl
  · split
    · split
      · split <;> rfl
      · rfl
    · rfl

@[simp] theorem walk_absolute (l : Location) (ss : List Segment) :
    (l.walk ss).absolute = l.absolute := by
  induction ss generalizing l with
  | nil => rfl
  | cons s ss ih => simp [ih]

end Location

/-! ## Paths as text -/

namespace RemotePath

def isAbsolute (path : String) : Bool := path.toList.head? == some '/'

/-- The shortest path to the location that `path` names. -/
def clean (path : String) : String := String.ofList (Location.parse path.toList).render

/-- `rel` taken against `base`; an empty path adds nothing. -/
def join (base rel : String) : String :=
  if base.isEmpty then (if rel.isEmpty then "" else clean rel)
  else if rel.isEmpty then clean base
  else clean (base ++ "/" ++ rel)

/-- The way from the location of `base` down to that of `target`, `.` if they are
one.  There is none across absoluteness, none that climbs, and from `.` none to a
path whose text starts with two dots. -/
def relative? (base target : String) : Option String :=
  let b := (Location.parse base.toList).render
  let t := (Location.parse target.toList).render
  if b = t then some "."
  else if (b.head? == some '/') != (t.head? == some '/') then none
  else if b = ['/'] then (Text.after? ['/'] t).map String.ofList
  else if b = ['.'] then
    if ['.', '.'].isPrefixOf t then none else some (String.ofList t)
  else (Text.after? (b ++ ['/']) t).map String.ofList

end RemotePath

end DevMode
