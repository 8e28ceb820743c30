/-
# DevMode.Recipe.Resolve -- the sources and the ignore rules of a service
-/
import DevMode.Recipe.Analysis
import DevMode.Service

namespace DevMode.Service

set_option autoImplicit false

/-- Where a service is built under the root of its application. -/
def buildDir (s : Service) (root : LocalPath) : LocalPath :=
  root.join (.ofString s.build.path)

/-- The sources that a service's recipe copies into its image, none of them covered
by another.  A service with a ready image has none. -/
def sources (s : Service) (tree : FileTree) (root : LocalPath) (inspector : Recipe.Inspector) :
    Except ResolveError (List Source) :=
  if !s.isSourceBuilt then .ok []
  else
    let dir := s.buildDir (root.against tree.current)
    let recipe := dir.join (.ofString s.build.manifest)
    match tree.readText recipe with
    | .error .notFound =>
      .error (.missingRecipe
        ((LocalPath.ofString s.build.path).join (.ofString s.build.manifest)).toString)
    | .error e => .error (.io recipe.toString (.file e))
    | .ok text => do
      let state ← Recipe.analyze inspector dir text
      return Source.dedupe (← state.settle tree)

end DevMode.Service

namespace DevMode.Ignore

def fileName : String := ".dockerignore"

/-- The rules of the ignore file in a directory, if there is one. -/
def Ruleset.inDir? (tree : FileTree) (dir : LocalPath) : Except ResolveError (Option Ruleset) :=
  let path := dir.join (.ofString fileName)
  match tree.readText path with
  | .error .notFound => .ok none
  | .error e => .error (.io path.toString (.file e))
  | .ok text =>
    match Ruleset.ofPatterns dir (readPatterns text) with
    | .ok s => .ok (some s)
    | .error e => .error (.ignore e)

/-- The rules for a service: those in its build directory, or else those in the root,
or else none. -/
def Ruleset.forService (tree : FileTree) (root : LocalPath) (service : Service) :
    Except ResolveError Ruleset := do
  match ← inDir? tree (service.buildDir root) with
  | some s => return s
  | none =>
    match ← inDir? tree root with
    | some s => return s
    | none => return empty (service.buildDir root)

end DevMode.Ignore
