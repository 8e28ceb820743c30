/-
# DevMode.Build.Error -- why an image is not built or not promoted
-/
import DevMode.Archive.Writer
import DevMode.Platform.Error
import DevMode.Recipe.Error
import DevMode.Url.Error

namespace DevMode

set_option autoImplicit false

/-- Why an image is not built or not promoted. -/
inductive BuildError where
  | failed
  | unknownStatus (status : String)
  | noRelease (build : String)
  | platform (operation : String) (error : PlatformError)
  | io (path : String) (error : FileError)
  | badName (path : String) (fault : Archive.NameFault)
  | walk (path : String) (error : FileError)
  | ignores (error : ResolveError)
  | repository (address : String) (error : UrlError)
  | builder (message : String)
  deriving DecidableEq, Repr

def BuildError.message : BuildError → String
  | failed => "build failed"
  | unknownStatus status => "unknown build status: " ++ status
  | noRelease build => "build " ++ build ++ " has no release"
  | platform operation e => operation ++ ": " ++ e.message
  | io path e => "I/O error at " ++ path ++ ": " ++ e.message
  | badName path f => "I/O error at " ++ path ++ ": " ++ f.message
  | walk path e => "source walk error: " ++ path ++ ": " ++ e.message
  | ignores e => "build ignores: " ++ e.message
  | repository address e => "invalid repository " ++ address ++ ": " ++ e.message
  | builder message => "builder error: " ++ message

end DevMode
