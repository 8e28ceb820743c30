/-
# DevMode.World.Scene -- what a run has around it
-/
import DevMode.FileEvent
import DevMode.Recipe.Analysis
import DevMode.World.Waiting

namespace DevMode

set_option autoImplicit false

/-- What a run has around it: the platform, the end of all waiting, the files at each time and
the events that are told of them then, and the tools at hand. -/
structure Scene (σ : Type) where
  platform : Platform σ
  interruption : Interruption
  files : Nat → FileTree
  events : Nat → List FileEvent
  inspector : Recipe.Inspector
  builder? : Option ImageBuilder

namespace Scene

variable {σ ε : Type} (scene : Scene σ)

def tree : Act σ FileTree := do return scene.files (← get).now

def isFired : Act σ Bool := do return scene.interruption.fired (← get).now

/-- Whether waiting for the signal is over by now. -/
def isReleased : Act σ Bool := do return (scene.interruption.signal (← get).now).released

/-- Asks the platform for something that a run cannot go on without. -/
def require (failure : PlatformError → ε) (c : Call) : Attempt σ ε c.Reply := do
  match ← Act.await scene.platform c with
  | .ok r => return r
  | .error e => throw (failure e)

end Scene

end DevMode
