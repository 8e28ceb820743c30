/-
# DevMode.Platform.Error -- why a platform does not do what it is asked for
-/

namespace DevMode

set_option autoImplicit false

/-- Why a platform does not do what it is asked for. -/
inductive PlatformError where
  | notFound (kind id : String)
  | request (operation message : String)
  | io (message : String)
  deriving DecidableEq, Repr

def PlatformError.message : PlatformError → String
  | notFound kind id => kind ++ " not found: " ++ id
  | request operation message => operation ++ " failed: " ++ message
  | io message => "I/O error: " ++ message

end DevMode
