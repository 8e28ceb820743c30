/-
# DevMode.Build.Job -- building, waiting, promoting

An image is built by the platform from an uploaded build context, or outside of it by an image
builder that pushes to the registry of the app.  Either way a build comes about that has a
release, and that release is promoted for development.
-/
import DevMode.Build.Context
import DevMode.Build.Log
import DevMode.Registry
import DevMode.World.Scene

namespace DevMode

set_option autoImplicit false

/-- How the app in a directory is built.  Builds are looked at once every `pollEvery`
milliseconds. -/
structure BuildJob where
  app : String
  root : LocalPath
  manifest : Option String
  cache : Bool
  pollEvery : Nat

namespace BuildJob

variable {σ : Type} (scene : Scene σ) (job : BuildJob)

def defaultManifest : String := "convox.yml"

def manifestName : String := job.manifest.getD defaultManifest

def request (external : Bool) : BuildRequest := ⟨true, external, job.manifest⟩

def announce (message : String) : Attempt σ BuildError Unit :=
  .act (Act.display (Console.line Console.buildTag message))

/-- Asks the platform for something that the build cannot go on without. -/
def require (operation : String) (c : Call) : Attempt σ BuildError c.Reply :=
  scene.require (.platform operation) c

/-! ## Waiting -/

/-- What a status of a build means for those who wait for it. -/
def verdict? : BuildStatus → Option (Except BuildError Unit)
  | .created | .running => none
  | .complete => some (.ok ())
  | .failed => some (.error .failed)
  | .unknown status => some (.error (.unknownStatus status))

/-- What an answer means for them. -/
def outcome? : Except PlatformError Build → Option (Except BuildError Unit)
  | .ok build => verdict? build.status
  | .error e => some (.error (.platform "build get" e))

/-- Waits until a build has come to something, while its log is copied.  The first look is
after one interval, and an interruption ends the wait as if all was well. -/
def waitCopying (id : String) (copy : LogCopy) : Attempt σ BuildError Unit := do
  let ticker := Ticker.startingAt ((← get).now + job.pollEvery) job.pollEvery
  let (found?, _) ← Attempt.act (Act.poll scene.interruption scene.platform LogCopy.step
    (.buildGet job.app id) outcome? ticker copy)
  Attempt.ofExcept (found?.getD (.ok ()))

def wait (id : String) : Attempt σ BuildError Unit := job.waitCopying scene id ⟨none⟩

/-! ## Building -/

/-- Builds on the platform. -/
def buildInside : Attempt σ BuildError Build := do
  announce "uploading source"
  let context ← Attempt.ofExcept (BuildContext.entries (← scene.tree) job.root)
  let object ← require scene "object store" (.objectStore job.app "" context)
  announce "starting build"
  let build ← require scene "build create" (.buildCreate job.app object.url (job.request false))
  let log ← require scene "build logs" (.buildLogs job.app build.id)
  job.waitCopying scene build.id ⟨some (.start (← get).now log)⟩
  require scene "build get" (.buildGet job.app build.id)

/-- What an image builder is told. -/
def order (build : Build) (rack : Rack) (target : PushTarget) : ImageOrder where
  app := build.app
  auth := target.auth
  cache := job.cache
  development := true
  id := build.id
  manifest := job.manifestName
  push := target.push
  rack := rack.name
  source := "dir://" ++ job.root.toString
  terminal := true

def buildImage (builder : ImageBuilder) (order : ImageOrder) : Attempt σ BuildError Unit := do
  modify (·.record (.imageBuilt order))
  Attempt.ofExcept (builder order)

def readManifest (tree : FileTree) : Except BuildError String :=
  let path := job.root.join (.ofString job.manifestName)
  (tree.readText path).mapError (.io path.toString)

/-- Builds outside the platform. -/
def buildOutside : Attempt σ BuildError Build := do
  match scene.builder? with
  | none => throw (.builder "no image builder configured")
  | some builder =>
    let rack ← require scene "system get" .rackGet
    let build ← require scene "build create" (.buildCreate job.app "" (job.request true))
    let text ← Attempt.ofExcept (job.readManifest (← scene.tree))
    let _ ← require scene "build update" (.buildUpdate build.app build.id (some text) none)
    let target ← Attempt.ofExcept
      ((PushTarget.ofRepository build.repository).mapError (BuildError.repository build.repository))
    buildImage builder (job.order build rack target)
    let release ← require scene "release create"
      (.releaseCreate build.app (some build.id) (some build.description))
    require scene "build update" (.buildUpdate build.app build.id none (some release.id))

/-- Builds the app for development. -/
def build (external : Bool) : Attempt σ BuildError Build :=
  if external then job.buildOutside scene else job.buildInside scene

/-! ## Promotion -/

def rollOut (release : String) (rollout : Rollout) : Attempt σ BuildError Unit :=
  require scene "release promote" (.releasePromote job.app release rollout)

/-- Promotes the release of a build for development. -/
def promote (build : Build) : Attempt σ BuildError Unit :=
  if build.release.isEmpty then throw (.noRelease build.id)
  else job.rollOut scene build.release .forDevelopment

/-- Takes a release out of development. -/
def demote (release : String) : Attempt σ BuildError Unit := job.rollOut scene release .standard

end BuildJob

end DevMode
