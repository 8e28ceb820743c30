/-
# DevMode.Session.Error -- why a session ends early
-/
import DevMode.Build.Error
import DevMode.Manifest

namespace DevMode

set_option autoImplicit false

/-- Why a session ends early. -/
inductive SessionError where
  | appRequired
  | invalidGeneration (generation : String)
  | platform (operation : String) (error : PlatformError)
  | manifest (error : ManifestError)
  | resolve (service : String) (error : ResolveError)
  | build (error : BuildError)

def SessionError.message : SessionError → String
  | appRequired => "app required"
  | invalidGeneration g => "invalid generation: " ++ g
  | platform operation e => operation ++ ": " ++ e.message
  | manifest e => "manifest error: " ++ e.message
  | resolve service e => "sync error: " ++ service ++ ": " ++ e.message
  | build e => e.message

end DevMode
