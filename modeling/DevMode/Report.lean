/-
# DevMode.Report -- errors that do not end a session

A task that runs beside others reports its errors and goes on.  Reports wait on a
queue until they are shown.
-/
import DevMode.Console

namespace DevMode

set_option autoImplicit false

/-- An error, and what was going on when it came up. -/
structure Report where
  context : String
  message : String
  deriving DecidableEq, Repr

namespace Report

def display (r : Report) : String := r.context ++ ": " ++ r.message

def line (r : Report) : Line := Console.control ("<error>error: " ++ r.display ++ "</error>")

end Report

/-- Reports on their way, and which ends are still there. -/
structure ReportQueue where
  waiting : List Report
  hasReporter : Bool
  hasReceiver : Bool
  deriving DecidableEq, Repr

namespace ReportQueue

def new : ReportQueue := ⟨[], true, true⟩

/-- Adds a report; without a receiver it is lost. -/
def push (q : ReportQueue) (r : Report) : ReportQueue :=
  if q.hasReceiver then { q with waiting := q.waiting ++ [r] } else q

/-- What a receiver gets: a report, the end, or nothing yet. -/
inductive Received where
  | report (report : Report)
  | stop
  | pending

def receive (q : ReportQueue) : Received × ReportQueue :=
  match q.waiting with
  | r :: rest => (.report r, { q with waiting := rest })
  | [] => (if q.hasReporter then .pending else .stop, q)

/-- What is shown of the waiting reports, nothing once the session is cancelled. -/
def lines (cancelled : Bool) (q : ReportQueue) : List Line :=
  if cancelled then [] else q.waiting.map Report.line

end ReportQueue

end DevMode
