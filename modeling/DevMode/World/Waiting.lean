/-
# DevMode.World.Waiting -- letting time pass

Waiting is cut short at the time of an `Interruption`, when the signal of the session is
fired or its last trigger is gone.  While a run waits, what goes on beside it takes a step at
every millisecond, before time moves on; at the end of the wait the run itself acts first.  Only
waiting for a time is cut short, not waiting for an answer.
-/
import DevMode.Cancellation
import DevMode.Ticker
import DevMode.World

namespace DevMode

set_option autoImplicit false

/-- When waiting is cut short, and whether by firing the signal or by dropping its last
trigger. -/
structure Interruption where
  time : Nat
  fires : Bool

namespace Interruption

def signal (i : Interruption) (now : Nat) : Cancellation :=
  if now < i.time then .new
  else if i.fires then { Cancellation.new with fired := true }
  else Cancellation.new.dropTrigger

def fired (i : Interruption) (now : Nat) : Bool := (i.signal now).fired

theorem released_signal_iff (i : Interruption) (now : Nat) :
    (i.signal now).released = true ↔ i.time ≤ now := by
  unfold signal
  split
  · simp [Cancellation.released, Cancellation.new]
    omega
  · split <;> simp_all [Cancellation.released, Cancellation.new, Cancellation.dropTrigger]

theorem fired_iff (i : Interruption) (now : Nat) :
    i.fired now = true ↔ i.time ≤ now ∧ i.fires = true := by
  unfold fired signal
  split
  · simp [Cancellation.new]
    omega
  · split <;> simp_all [Cancellation.new, Cancellation.dropTrigger]

end Interruption

namespace Act

variable {σ α β : Type}

/-- One millisecond passes. -/
def tick : Act σ Unit := pass 1

/-- Time passes, and what goes on beside goes on. -/
def passFor (beside : β → Act σ β) : Nat → β → Act σ β
  | 0, b => pure b
  | n + 1, b => do
    let b ← beside b
    tick
    passFor beside n b

/-- Time passes up to a point of time. -/
def passUntil (beside : β → Act σ β) (time : Nat) (b : β) : Act σ β := do
  let w ← get
  passFor beside (time - w.now) b

/-- Calls the platform and waits for the answer, while what goes on beside goes on. -/
def awaitBeside (p : Platform σ) (beside : β → Act σ β) (c : Call) (b : β) :
    Act σ (c.Answer × β) := do
  let time ← lasting p c
  let answer ← call p c
  return (answer, ← passFor beside time b)

/-- Makes a call at every tick until an answer comes to something; `none` if it is interrupted
before that.  A call that has been made is waited for, whatever comes meanwhile. -/
def poll (i : Interruption) (p : Platform σ) (beside : β → Act σ β) (c : Call)
    (verdict? : c.Answer → Option α) (ticker : Ticker) (b : β) : Act σ (Option α × β) := do
  let w ← get
  let due := max w.now ticker.deadline
  if _h : i.time ≤ due then
    return (none, ← passUntil beside i.time b)
  else
    let b ← passUntil beside due b
    let (answer, b) ← awaitBeside p beside c b
    match verdict? answer with
    | some a => return (some a, b)
    | none => poll i p beside c verdict? (ticker.tick due) b
termination_by i.time - ticker.deadline
decreasing_by
  have := ticker.deadline_lt_tick (max w.now ticker.deadline)
  omega

end Act

end DevMode
