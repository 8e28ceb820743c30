/-
# DevMode.BatchLoop -- flushing changes at intervals

Changes arrive at any time and are gathered in a batch.  At each tick a batch that is
not empty is handed on as additions and removals, which may take a while; what arrives
meanwhile waits.  The loop ends when it is stopped or when the source of changes is
closed, and what is gathered then is thrown away.

Of what is due at one time the stop comes first, then the arrivals, then the tick.
-/
import DevMode.Change
import DevMode.Ticker

namespace DevMode

set_option autoImplicit false

/-- What arrives at a time: a change, or the news that the source of changes is closed. -/
structure Arrival where
  time : Nat
  change : Option Change

/-- What was handed on, and when. -/
structure Flush where
  time : Nat
  adds : List Change
  removes : List Change
  deriving DecidableEq, Repr

/-- A whole run: its flushes in order, when it ended, and the changes thrown away. -/
structure BatchRun where
  flushes : List Flush
  endedAt : Nat
  discarded : List Change

namespace BatchLoop

/-- The time at which something is due next: the stop, the next arrival or the tick. -/
def due (stop : Nat) (ticker : Ticker) : List Arrival → Nat
  | [] => min stop ticker.deadline
  | a :: _ => min stop (min a.time ticker.deadline)

/-- The arrival that is there at `now`, and those behind it. -/
def arrived? (now : Nat) : List Arrival → Option (Arrival × List Arrival)
  | a :: rest => if a.time ≤ now then some (a, rest) else none
  | [] => none

/-- What a tick hands on, if anything was gathered. -/
def flush? (now : Nat) (batch : Batch) : Option Flush :=
  if batch.isEmpty then none
  else some ⟨now, (Change.partition batch.changes).1, (Change.partition batch.changes).2⟩

theorem arrived?_length {now : Nat} {arrivals rest : List Arrival} {a : Arrival}
    (h : arrived? now arrivals = some (a, rest)) : rest.length < arrivals.length := by
  cases arrivals with
  | nil => simp [arrived?] at h
  | cons b bs =>
    simp only [arrived?] at h
    split at h
    · simp only [Option.some.injEq, Prod.mk.injEq] at h
      simp [h.2]
    · simp at h

/-- If neither the stop nor an arrival is there when something is due, the tick is. -/
theorem deadline_lt_stop {stop now : Nat} {ticker : Ticker} {arrivals : List Arrival}
    (hs : ¬ stop ≤ max now (due stop ticker arrivals))
    (ha : arrived? (max now (due stop ticker arrivals)) arrivals = none) :
    ticker.deadline < stop := by
  cases arrivals with
  | nil => simp only [due] at hs; omega
  | cons a as =>
    simp only [arrived?] at ha
    split at ha
    · simp at ha
    · rename_i h
      simp only [due] at hs h
      omega

/-- The run from `now` on, with the changes gathered so far.  `busy` tells how long a
flush takes. -/
def run (stop : Nat) (busy : Flush → Nat) (now : Nat) (ticker : Ticker) (batch : Batch)
    (arrivals : List Arrival) : BatchRun :=
  let next := max now (due stop ticker arrivals)
  if _hs : stop ≤ next then ⟨[], next, batch.changes⟩
  else
    match _ha : arrived? next arrivals with
    | some (⟨_, some c⟩, rest) => run stop busy next ticker (batch.push c) rest
    | some (⟨_, none⟩, _) => ⟨[], next, batch.changes⟩
    | none =>
      let flush := flush? next batch
      let later := run stop busy (next + (flush.map busy).getD 0) (ticker.tick next) .empty arrivals
      { later with flushes := flush.toList ++ later.flushes }
termination_by arrivals.length + (stop - ticker.deadline)
decreasing_by
  · have := arrived?_length ‹_›
    omega
  · have := deadline_lt_stop ‹_› ‹_›
    have := ticker.deadline_lt_tick (max now (due stop ticker arrivals))
    omega

end BatchLoop

/-- A run from time zero, flushing every `interval`. -/
def Batch.runLoop (interval stop : Nat) (busy : Flush → Nat) (arrivals : List Arrival) : BatchRun :=
  BatchLoop.run stop busy 0 (Ticker.startingAt interval interval) .empty arrivals

end DevMode
