/-
# DevMode.Session.Run -- a development session

A session makes sure of the app, reads its manifest, builds and promotes it for development,
and resolves what is to be synced.  Any failure in that ends it.  Then it follows the log and
keeps the sources in sync until it is interrupted, and last it takes the app out of
development again.
-/
import DevMode.Build.Job
import DevMode.Log.Follower
import DevMode.Recipe.Resolve
import DevMode.Session.Error
import DevMode.Sync.Watcher

namespace DevMode

set_option autoImplicit false

/-- What is started, and how: the app and its directory, whether it is built and by whom, the
manifest if it is not the usual one, the services to follow if not all, and whether changes
are synced. -/
structure SessionOptions where
  app : String
  root : LocalPath
  build : Bool
  cache : Bool
  external : Bool
  manifest : Option String
  services : Option (List String)
  sync : Bool

/-- The intervals of a session in milliseconds. -/
structure Timings where
  batch : Nat
  buildPoll : Nat
  logRetry : Nat
  appPoll : Nat

def Timings.default : Timings := ⟨1000, 1000, 1000, 1000⟩

/-- What is synced for a service. -/
structure SyncPlan where
  service : String
  sources : List Source
  rules : Ignore.Ruleset

/-- What goes on beside a session. -/
structure Tasks where
  follower : Follower
  watchers : List Sync.Watcher

namespace Session

variable {σ : Type} (scene : Scene σ) (options : SessionOptions) (timings : Timings)

/-! ## Setup -/

/-- The generations of apps that know development. -/
def supportedGenerations : List String := ["2", "3"]

def newGeneration : String := "2"

/-- Asks the platform for something that the session cannot go on without. -/
def require (operation : String) (c : Call) : Attempt σ SessionError c.Reply :=
  scene.require (.platform operation) c

/-- Makes sure that there is an app that knows development. -/
def prepareApp : Attempt σ SessionError Unit := do
  match ← Act.await scene.platform (.appGet options.app) with
  | .ok app =>
    if app.generation ∈ supportedGenerations then return
    else throw (.invalidGeneration app.generation)
  | .error (.notFound ..) =>
    let _ ← require scene "app create" (.appCreate options.app (some newGeneration))
  | .error e => throw (.platform "app get" e)

def loadManifest : Attempt σ SessionError Manifest := do
  let path := options.root.join (.ofString (options.manifest.getD BuildJob.defaultManifest))
  let env ← require scene "app environment" (.appEnvironment options.app)
  let manifest ← Attempt.ofExcept ((Manifest.loadFile env (← scene.tree) path).mapError SessionError.manifest)
  Attempt.ofExcept (manifest.validate.mapError SessionError.manifest)
  return manifest

def job : BuildJob :=
  ⟨options.app, options.root, options.manifest, options.cache, timings.buildPoll⟩

/-- What is synced for one service. -/
def resolveService (service : Service) : Attempt σ SessionError SyncPlan := do
  let tree ← scene.tree
  let sources ← Attempt.ofExcept ((service.sources tree options.root scene.inspector).mapError
    (SessionError.resolve service.name))
  let rules ← Attempt.ofExcept ((Ignore.Ruleset.forService tree options.root service).mapError
    (SessionError.resolve service.name))
  return ⟨service.name, sources, rules⟩

/-- What is synced for all services of interest that are built from source. -/
def resolveServices (manifest : Manifest) (interest : List String) :
    Attempt σ SessionError (List SyncPlan) :=
  (manifest.services.filter fun s => interest.contains s.name && s.isSourceBuilt).mapM
    (resolveService scene options)

/-! ## Tasks -/

def watchers (plans : List SyncPlan) : List Sync.Watcher :=
  plans.flatMap fun p => p.sources.map fun s =>
    ⟨options.app, p.service, s, p.rules, options.root, timings.batch, .waiting⟩

def tasks (interest : List String) (plans : List SyncPlan) : Tasks :=
  ⟨.new options.app interest timings.logRetry, watchers options timings plans⟩

/-- What all tasks do at one time.  Once waiting for the signal is over, no changes are brought
to the services and no reports are shown any more; the follower finds out by itself. -/
def stepTasks (t : Tasks) : Act σ Tasks := do
  let follower ← t.follower.stepUntil scene.platform scene.interruption
  if ← scene.isReleased then return { t with follower := follower }
  let watchers ← t.watchers.mapM (·.step scene)
  Act.displayReports
  return ⟨follower, watchers⟩

/-! ## The run -/

def runningStatus : String := "running"

/-- What an answer means for those who wait for the app to run. -/
def running? : Except PlatformError App → Option (Except SessionError Unit)
  | .ok app => if app.status = runningStatus then some (.ok ()) else none
  | .error e => some (.error (.platform "app get" e))

/-- Follows the app: until it runs, and then until the session is interrupted. -/
def follow (t : Tasks) : Attempt σ SessionError Unit := do
  let ticker := Ticker.startingAt (← get).now timings.appPoll
  let (found?, t) ← Attempt.act (Act.poll scene.interruption scene.platform (stepTasks scene)
    (.appGet options.app) running? ticker t)
  Attempt.ofExcept (found?.getD (.ok ()))
  let _ ← Attempt.act (Act.passUntil (stepTasks scene) scene.interruption.time t)

/-- Takes the app out of development, if it can be had and has a release. -/
def tearDown (job : BuildJob) : Attempt σ SessionError Unit := do
  match ← Act.await scene.platform (.appGet options.app) with
  | .error _ => return
  | .ok app =>
    Attempt.act (Act.display (Console.control "stopping"))
    if app.release.isEmpty then return
    else ExceptT.adapt .build (job.demote scene app.release)

/-- Builds and promotes; false if the session was cancelled meanwhile. -/
def deploy (job : BuildJob) : Attempt σ SessionError Bool := do
  if options.build then
    let build ← ExceptT.adapt .build (job.build scene options.external)
    if ← scene.isFired then return false
    ExceptT.adapt .build (job.promote scene build)
  return true

def run : Attempt σ SessionError Unit := do
  if ← scene.isFired then return
  if options.app.isEmpty then throw .appRequired
  prepareApp scene options
  let manifest ← loadManifest scene options
  let interest := manifest.interest options.services
  let job := job options timings
  if ← deploy scene options job then
    let plans ← if options.sync then resolveServices scene options manifest interest else pure []
    follow scene options timings (tasks options timings interest plans)
    tearDown scene options job

end Session

end DevMode
