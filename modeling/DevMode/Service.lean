/-
# DevMode.Service -- services of an application

A service is built from source, in a directory and by a recipe in it, unless its
manifest names a ready image.
-/

namespace DevMode

set_option autoImplicit false

/-- Where a service is built, from the root of the application, and by which recipe. -/
structure BuildPlan where
  path : String
  manifest : String
  deriving DecidableEq, Repr

/-- A service: its name is also the key of its lines. -/
structure Service where
  name : String
  build : BuildPlan
  image : Option String
  deriving DecidableEq, Repr

namespace BuildPlan

/-- A build in the root of the application by a recipe with the usual name. -/
def default : BuildPlan := ⟨".", "Dockerfile"⟩

end BuildPlan

namespace Service

/-- Whether a service is built from source; only such a service has anything to sync. -/
def isSourceBuilt (s : Service) : Bool := s.image.isNone && !s.build.path.isEmpty

end Service

end DevMode
