/-
# DevMode.Recipe.Command -- inspecting images by running a program

A program is asked for one property of an image at a time and prints it.
-/
import DevMode.Json
import DevMode.Recipe.Analysis

namespace DevMode.Recipe

set_option autoImplicit false

/-- What a program leaves behind: its exit code and what it printed. -/
structure CommandOutput where
  exit : Nat
  output : ByteArray
  errors : ByteArray

/-- Runs a program with some arguments, unless it cannot be started. -/
abbrev Command := List String → Except FileError CommandOutput

namespace Command

/-- The arguments that ask for a property of an image. -/
def arguments (image format : String) : List String := ["inspect", image, "--format", format]

/-- The arguments that ask for the environment of an image, as a list of strings. -/
def envArguments (image : String) : List String :=
  arguments image "\x7b\x7bjson .Config.Env\x7d\x7d"

/-- The arguments that ask for the working directory of an image. -/
def workDirArguments (image : String) : List String :=
  arguments image "\x7b\x7b.Config.WorkingDir\x7d\x7d"

/-- Text without White_Space at both ends. -/
def trimmed (bytes : ByteArray) : String :=
  String.ofList (Text.trim (Text.decodeLossy bytes).toList)

/-- What the program prints about an image, if it ends well. -/
def inspect (command : Command) (image : String) (args : List String) :
    Except ResolveError ByteArray :=
  match command args with
  | .error e => .error (.inspect image e.message)
  | .ok out => if out.exit = 0 then .ok out.output else .error (.inspect image (trimmed out.errors))

/-- Inspects images by running a program. -/
def inspector (command : Command) : Inspector where
  env image := do
    let out ← command.inspect image (envArguments image)
    match (Text.decode? out).bind Json.readStrings? with
    | some entries => .ok entries
    | none => .error (.inspectOutput image)
  workDir image := return trimmed (← command.inspect image (workDirArguments image))

end Command

end DevMode.Recipe
