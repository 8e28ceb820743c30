/-
# DevMode.Cancellation -- the signal that ends a session

A signal is fired by any of its triggers and stays fired.  Whoever waits for it is also
released when the last trigger is gone, though then the signal has not been fired.
-/

namespace DevMode

set_option autoImplicit false

/-- A signal: how many triggers there are, and whether one was fired. -/
structure Cancellation where
  triggers : Nat
  fired : Bool
  deriving DecidableEq, Repr

namespace Cancellation

def new : Cancellation := ⟨1, false⟩

/-- Whether waiting for the signal is over. -/
def released (c : Cancellation) : Bool := c.fired || c.triggers = 0

/-- Fires the signal, if a trigger is left to do it. -/
def fire? (c : Cancellation) : Option Cancellation :=
  if c.triggers = 0 then none else some { c with fired := true }

/-- One trigger more, copied from another one. -/
def addTrigger? (c : Cancellation) : Option Cancellation :=
  if c.triggers = 0 then none else some { c with triggers := c.triggers + 1 }

def dropTrigger (c : Cancellation) : Cancellation := { c with triggers := c.triggers - 1 }

end Cancellation

end DevMode
