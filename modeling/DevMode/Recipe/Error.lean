/-
# DevMode.Recipe.Error -- why sources cannot be resolved
-/
import DevMode.FileTree
import DevMode.Ignore.Rules

namespace DevMode

set_option autoImplicit false

/-- Why something could not be read: the file system refused, or another failure
told in its own words. -/
inductive ReadFailure where
  | file (error : FileError)
  | other (text : String)
  deriving DecidableEq, Repr

def ReadFailure.message : ReadFailure → String
  | file e => e.message
  | other text => text

/-- Why the sources of a service, or its ignore rules, cannot be resolved. -/
inductive ResolveError where
  | io (path : String) (cause : ReadFailure)
  | missingRecipe (path : String)
  | inspect (image message : String)
  | inspectOutput (image : String)
  | ignore (error : Ignore.RuleError)
  deriving DecidableEq, Repr

/-- The wording of a failure; of output that is not understood, what was wrong with
it is left to its reader. -/
def ResolveError.message : ResolveError → String
  | io path cause => "I/O error at " ++ path ++ ": " ++ cause.message
  | missingRecipe path => "no such file: " ++ path
  | inspect image message => "inspect " ++ image ++ " failed: " ++ message
  | inspectOutput image => "inspect " ++ image ++ " returned invalid output"
  | ignore e => "ignore pattern error: " ++ e.message

end DevMode
