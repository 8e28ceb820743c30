/-
# DevMode.Build.Image -- images built outside the platform
-/
import DevMode.Build.Error

namespace DevMode

set_option autoImplicit false

/-- What an image builder is told: which build of which app it is for, the login and the
address it pushes to, the directory it builds from, and how. -/
structure ImageOrder where
  app : String
  auth : String
  cache : Bool
  development : Bool
  id : String
  manifest : String
  push : String
  rack : String
  source : String
  terminal : Bool
  deriving DecidableEq, Repr

/-- Builds and pushes an image, or says why not. -/
abbrev ImageBuilder : Type := ImageOrder → Except BuildError Unit

end DevMode
