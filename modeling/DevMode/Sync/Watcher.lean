/-
# DevMode.Sync.Watcher -- keeping one source of a service in sync

A watcher gathers the changes that file events stand for, and brings them to the service at
regular times.  It watches the place that its source leads to when it starts.
-/
import DevMode.BatchLoop
import DevMode.Sync.Engine
import DevMode.World.Scene

namespace DevMode.Sync

set_option autoImplicit false

/-- What a watcher is at: it is to start, it watches a place, or it is over. -/
inductive WatcherPhase where
  | waiting
  | watching (root : LocalPath) (batch : Batch) (ticker : Ticker)
  | over

/-- A watcher of a source of a service: the rules for what is ignored, the directory of the
app, and how often changes are brought to the service. -/
structure Watcher where
  app : String
  service : String
  source : Source
  rules : Ignore.Ruleset
  appRoot : LocalPath
  interval : Nat
  phase : WatcherPhase

namespace Watcher

/-- The source as it is shown, from the directory of the app if it lies there. -/
def shownSource (w : Watcher) : String :=
  match w.source.path.relativeTo? w.appRoot with
  | none => w.source.path.toString
  | some rel => if rel.chars = [] then "." else rel.toString

def startLine (w : Watcher) : Line :=
  Console.control ("starting sync from <dir>" ++ w.shownSource ++ "</dir> to <dir>" ++
    w.source.remoteLabel ++ "</dir> on <service>" ++ w.service ++ "</service>")

/-- The place to be watched, if it is there. -/
def watchedRoot (w : Watcher) (tree : FileTree) : Except SyncError LocalPath :=
  (tree.canonical w.source.path).mapError fun _ => .watch w.source.path.toString

/-- The watcher once it watches a place. -/
def watch (w : Watcher) (root : LocalPath) (now : Nat) : Watcher :=
  { w with phase := .watching root .empty (.startingAt (now + w.interval) w.interval) }

def changes (w : Watcher) (tree : FileTree) (root : LocalPath) (events : List FileEvent) :
    List Change :=
  events.flatMap fun e => e.changes tree w.source.path root w.rules

variable {σ : Type}

/-- Brings changes to the service. -/
def deliver (platform : Platform σ) (disk : Disk) (w : Watcher) (adds removes : List Change) :
    Act σ Unit :=
  apply platform disk w.app w.service w.source adds removes

def context (w : Watcher) : String := "watch " ++ w.service

def begin (scene : Scene σ) (w : Watcher) : Act σ Watcher := do
  Act.display w.startLine
  match w.watchedRoot (← scene.tree) with
  | .ok root => return w.watch root (← get).now
  | .error e =>
    Act.report ⟨w.context, e.message⟩
    return { w with phase := .over }

/-- What a watcher does at one time: it starts, or it gathers changes and delivers them if it
is time for that. -/
def step (scene : Scene σ) (w : Watcher) : Act σ Watcher := do
  let now := (← get).now
  let tree ← scene.tree
  match w.phase with
  | .over => return w
  | .waiting => w.begin scene
  | .watching root batch ticker =>
    let batch := (w.changes tree root (scene.events now)).foldl Batch.push batch
    if now < ticker.deadline then return { w with phase := .watching root batch ticker }
    else
      match BatchLoop.flush? now batch with
      | none => pure ()
      | some flush => w.deliver scene.platform tree.disk flush.adds flush.removes
      return { w with phase := .watching root .empty (ticker.tick now) }

end Watcher

end DevMode.Sync
