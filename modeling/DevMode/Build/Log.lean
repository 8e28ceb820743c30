/-
# DevMode.Build.Log -- copying the log of a build
-/
import DevMode.Log.Stream
import DevMode.World

namespace DevMode

set_option autoImplicit false

/-- The copying of a build log: the stream, or nothing once it is over. -/
structure LogCopy where
  tail? : Option Tail

namespace LogCopy

def line? (bytes : ByteArray) : Option Line :=
  (Text.decode? (withoutReturn bytes)).map (Console.line Console.buildTag)

/-- The lines up to the first that is not text, and whether there was one. -/
def readable : List ByteArray → List Line × Bool
  | [] => ([], false)
  | bytes :: rest =>
    match line? bytes with
    | none => ([], true)
    | some l => (l :: (readable rest).1, (readable rest).2)

/-- Shows what can be read now.  A line that is not text ends the copying. -/
def step {σ : Type} (c : LogCopy) : Act σ LogCopy := do
  match c.tail? with
  | none => return c
  | some tail =>
    let (lines, status, tail) := tail.pull Scanner.anyLength (← get).now
    let (lines, broken) := readable lines
    Act.displayAll lines
    return ⟨if broken || status ≠ .reading then none else some tail⟩

end LogCopy

end DevMode
