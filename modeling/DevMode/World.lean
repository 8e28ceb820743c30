/-
# DevMode.World -- what a run sees and leaves behind

A run acts at points in time: it calls the platform, shows lines, reports errors.  A `World`
holds the time, the state of the platform, all that has happened so far, and the reports that
nobody has shown yet.  An `Act` is a step from world to world.  Times are milliseconds.

A call happens when it is made, and its answer is settled then.  The answer is there some time
later (`Platform.takes`), and whoever cannot go on without it lets that time pass (`Act.await`).
-/
import DevMode.Build.Image
import DevMode.Platform.Call
import DevMode.Report

namespace DevMode

set_option autoImplicit false

/-- Something that happens in a run: a call with the failure it was answered with, if it
failed, a line, a report, an order to an image builder. -/
inductive Occurrence where
  | called (call : Call) (failure : Option PlatformError)
  | shown (line : Line)
  | reported (report : Report)
  | imageBuilt (order : ImageOrder)

/-- The time, the state of the platform, what happened with the last first, and the reports
that are waiting to be shown. -/
structure World (σ : Type) where
  now : Nat
  state : σ
  past : List (Nat × Occurrence)
  reports : List Report

/-- A step of a run. -/
abbrev Act (σ : Type) : Type → Type := StateM (World σ)

/-- A step that can fail. -/
abbrev Attempt (σ ε : Type) : Type → Type := ExceptT ε (Act σ)

namespace World

variable {σ : Type}

/-- A world in which nothing has happened. -/
def start (state : σ) : World σ := ⟨0, state, [], []⟩

/-- The world after something more. -/
def record (w : World σ) (o : Occurrence) : World σ := { w with past := (w.now, o) :: w.past }

/-- What happened, in order. -/
def occurrences (w : World σ) : List (Nat × Occurrence) := w.past.reverse

def calls (w : World σ) : List Call :=
  w.occurrences.filterMap fun o => match o.2 with | .called c _ => some c | _ => none

def lines (w : World σ) : List Line :=
  w.occurrences.filterMap fun o => match o.2 with | .shown l => some l | _ => none

def reported (w : World σ) : List Report :=
  w.occurrences.filterMap fun o => match o.2 with | .reported r => some r | _ => none

def imageOrders (w : World σ) : List ImageOrder :=
  w.occurrences.filterMap fun o => match o.2 with | .imageBuilt i => some i | _ => none

end World

namespace Act

variable {σ : Type}

/-- The failure that a call was answered with. -/
def failure? {ε α : Type} : Except ε α → Option ε
  | .ok _ => none
  | .error e => some e

def call (p : Platform σ) (c : Call) : Act σ c.Answer := fun w =>
  let (answer, state) := p.answer c w.state
  (answer, { w.record (.called c (failure? answer)) with state := state })

/-- How long the answer takes to a call that is made now. -/
def lasting (p : Platform σ) (c : Call) : Act σ Nat := do return p.takes c (← get).state

/-- Some time passes. -/
def pass (time : Nat) : Act σ Unit := modify fun w => { w with now := w.now + time }

/-- Calls the platform and waits for the answer. -/
def await (p : Platform σ) (c : Call) : Act σ c.Answer := do
  let time ← lasting p c
  let answer ← call p c
  pass time
  return answer

def display (l : Line) : Act σ Unit := modify (·.record (.shown l))

def displayAll (ls : List Line) : Act σ Unit := ls.forM display

/-- Reports an error, to be shown by whoever shows reports. -/
def report (r : Report) : Act σ Unit :=
  modify fun w => { w.record (.reported r) with reports := w.reports ++ [r] }

def displayReports : Act σ Unit := do
  let w ← get
  modify fun w => { w with reports := [] }
  displayAll (w.reports.map Report.line)

end Act

namespace Attempt

variable {σ ε α : Type}

/-- A step that does not fail. -/
def act (a : Act σ α) : Attempt σ ε α := ExceptT.lift a

/-- What was found out, or the failure to. -/
def ofExcept (r : Except ε α) : Attempt σ ε α := ExceptT.mk (pure r)

end Attempt

end DevMode
