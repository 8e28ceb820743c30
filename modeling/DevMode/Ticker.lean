/-
# DevMode.Ticker -- regular points in time

A `Ticker` fires at its deadline, or as soon after it as someone waits for it.  The next
deadline is one period after the last one; after a delay that is more than `slack` it is
one period after the firing, so that missed ticks are not made up for.  Times are
milliseconds.
-/

namespace DevMode

set_option autoImplicit false

/-- When the next tick is due, and how long after that the one behind it. -/
structure Ticker where
  deadline : Nat
  period : Nat
  period_pos : 0 < period

namespace Ticker

/-- A delay up to which deadlines stay regular. -/
def slack : Nat := 5

/-- A ticker whose first tick is due at `deadline`; the period is one at least. -/
def startingAt (deadline period : Nat) : Ticker := ⟨deadline, max period 1, by omega⟩

/-- The ticker after it fired at `now`. -/
def tick (t : Ticker) (now : Nat) : Ticker :=
  { t with deadline := (if t.deadline + slack < now then now else t.deadline) + t.period }

@[simp] theorem tick_period (t : Ticker) (now : Nat) : (t.tick now).period = t.period := rfl

/-- The deadline moves on with every tick. -/
theorem deadline_lt_tick (t : Ticker) (now : Nat) : t.deadline < (t.tick now).deadline := by
  have := t.period_pos
  simp only [tick]
  split <;> omega

end Ticker

end DevMode
