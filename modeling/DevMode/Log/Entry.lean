/-
# DevMode.Log.Entry -- lines of the platform's log

A log line is written `<date>T<time>Z <kind>/<name>/<instance> <message>`.
`LogEntry.ofString?` reads one and `LogEntry.toString` writes it; `route?` finds the
line of output it leads to, if any.
-/
import DevMode.Console
import DevMode.Text.Cut

namespace DevMode

set_option autoImplicit false

/-- A log line in its parts.  The instance is what wrote it: a process, or a thing that
the platform runs for a service. -/
structure LogEntry where
  date : String
  time : String
  kind : String
  name : String
  instanceId : String
  message : String
  deriving DecidableEq, Repr

namespace LogEntry

/-! ## Reading -/

/-- Whether a text has a shape, in which `d` stands for a decimal digit of any script
and any other character for itself. -/
def hasShape : List Char → List Char → Bool
  | [], s => s.isEmpty
  | _ :: _, [] => false
  | x :: shape, c :: s => (if x = 'd' then Text.isDecimalDigit c else c = x) && hasShape shape s

def dateShape : List Char := "dddd-dd-dd".toList

def timeShape : List Char := "dd:dd:dd".toList

/-- The characters of a shape at the start of a text, and those behind them. -/
def takeShape? (shape s : List Char) : Option (List Char × List Char) :=
  if hasShape shape (s.take shape.length) then some (s.take shape.length, s.drop shape.length)
  else none

/-- The text before the first `sep`, which must not be empty, and the text behind it. -/
def takeField? (sep : Char) (s : List Char) : Option (List Char × List Char) :=
  match Text.splitOnce? sep s with
  | some ([], _) => none
  | r => r

/-- The parts of a line in the log format. -/
def ofChars? (line : List Char) : Option LogEntry := do
  let (date, s) ← takeShape? dateShape line
  let s ← Text.after? ['T'] s
  let (time, s) ← takeShape? timeShape s
  let s ← Text.after? ['Z', ' '] s
  let (kind, s) ← takeField? '/' s
  let (name, s) ← takeField? '/' s
  let (instanceId, message) ← takeField? ' ' s
  if '\n' ∈ message then none
  else
    some ⟨.ofList date, .ofList time, .ofList kind, .ofList name, .ofList instanceId,
      .ofList message⟩

def ofString? (line : String) : Option LogEntry := ofChars? line.toList

def toString (e : LogEntry) : String :=
  e.date ++ "T" ++ e.time ++ "Z " ++ e.kind ++ "/" ++ e.name ++ "/" ++ e.instanceId ++ " " ++
    e.message

/-! ## Screen commands -/

/-- The number of characters of the digits at the start of a text. -/
def digitCount (s : List Char) : Nat := (s.takeWhile Text.isDecimalDigit).length

/-- What follows at least one digit and then `c` at the start of a text. -/
def afterNumber? (c : Char) (s : List Char) : Option (List Char) :=
  if digitCount s = 0 then none else Text.after? [c] (s.drop (digitCount s))

/-- What follows a command that places the cursor (ESC `[` row `;` column `H`) at the
start of a text. -/
def afterScreenCommand? (s : List Char) : Option (List Char) := do
  let s ← Text.after? ['\x1b', '['] s
  let s ← afterNumber? ';' s
  afterNumber? 'H' s

/-- The text without commands that place the cursor.  The first `skip` characters belong
to such a command. -/
def stripFrom : Nat → List Char → List Char
  | _, [] => []
  | skip + 1, _ :: s => stripFrom skip s
  | 0, c :: s =>
    match afterScreenCommand? (c :: s) with
    | some rest => stripFrom (s.length - rest.length) s
    | none => c :: stripFrom 0 s

/-- The text without commands that place the cursor.  A command that only comes about
because another one inside it is taken out is left. -/
def stripScreenCommands (s : String) : String := String.ofList (stripFrom 0 s.toList)

/-! ## Routing -/

/-- The service an instance of the platform belongs to. -/
def ownerOf (instanceId : String) : String :=
  String.ofList (instanceId.toList.takeWhile (· ≠ '-'))

/-- The key and message an entry is shown with, if its service is of interest.  A line
of the service itself is kept from placing the cursor. -/
def route? (e : LogEntry) (interest : List String) : Option Line :=
  if e.kind = "service" then
    if interest.contains e.name then some ⟨e.name, stripScreenCommands e.message⟩ else none
  else if e.kind = "system" then
    if interest.contains (ownerOf e.instanceId) then some ⟨ownerOf e.instanceId, e.message⟩ else none
  else none

/-- The line of output that a line of the log leads to. -/
def show? (interest : List String) (line : String) : Option Line :=
  (ofString? line).bind fun e => (e.route? interest).map fun l => Console.line l.key l.message

end LogEntry

end DevMode
