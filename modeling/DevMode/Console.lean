/-
# DevMode.Console -- lines under keys

Everything a session shows is a line under a key: the name of a service, or one of
two fixed tags.  A `Prefixer` writes such lines with their keys aligned to the
right, each key in its own colour.
-/
import DevMode.Markup

namespace DevMode

set_option autoImplicit false

/-- A line under its key. -/
structure Line where
  key : String
  message : String
  deriving DecidableEq, Repr

namespace Console

/-- The key of what the session says about itself. -/
def controlTag : String := "devloop"

def buildTag : String := "build"

def isLineEnd (c : Char) : Bool := c = '\r' || c = '\n'

/-- A message without the line ends behind it. -/
def trimMessage (message : String) : String :=
  String.ofList (Text.trimEnd isLineEnd message.toList)

def line (key message : String) : Line := ⟨key, trimMessage message⟩

/-- The line for a message of the session itself. -/
def control (message : String) : Line := line controlTag message

/-- A message that does not end in a line end is shown as it is. -/
theorem control_of_concat {message : String} {text : List Char} {c : Char}
    (ending : message.toList = text ++ [c]) (kept : isLineEnd c = false) :
    control message = ⟨controlTag, message⟩ := by
  rw [control, line, trimMessage, ending, Text.trimEnd_concat kept, ← ending, String.ofList_toList]

end Console

/-! ## Aligned lines -/

/-- How lines are written: the width of the keys, the known keys in order, and
whether to use colours. -/
structure Prefixer where
  width : Nat
  keys : List String
  color : Bool

namespace Prefixer

/-- The colours of the keys, taken in turn. -/
def palette : List Paint := [.blue, .green, .yellow, .magenta, .cyan, .brightBlue]

/-- A writer for the two tags and some services.  The width is the greatest length
of a key in bytes. -/
def ofServices (services : List String) (color : Bool) : Prefixer :=
  let keys := ([Console.controlTag, Console.buildTag] ++ services).eraseDups.mergeSort
    (fun a b => decide (a ≤ b))
  ⟨(keys.map String.utf8ByteSize).foldl max 0, keys, color⟩

/-- The key with spaces before it up to the width, counted in characters. -/
def pad (p : Prefixer) (key : String) : List Char :=
  List.replicate (p.width - key.length) ' ' ++ key.toList

/-- The colour of a key: by its place among the known keys, white if it is not one. -/
def paintOf (p : Prefixer) (key : String) : Paint :=
  match p.keys.idxOf? key with
  | some i => palette.getD (i % palette.length) .white
  | none => .white

def shownKey (p : Prefixer) (key : String) : List Char :=
  if !p.color then p.pad key
  else if key = Console.controlTag ∨ key = Console.buildTag then Paint.dimmed.apply (p.pad key)
  else (p.paintOf key).apply (p.pad key)

def format (p : Prefixer) (l : Line) : String :=
  String.ofList (p.shownKey l.key ++ [' ', '|', ' '] ++ (Markup.render p.color l.message).toList)

end Prefixer

end DevMode
