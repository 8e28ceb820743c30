/-
# DevMode.Sync.Engine -- bringing changes to the processes of a service

Every process of a service gets the additions as one archive and the removals as one request.
A failure is reported and stops nothing but what depends on it: without a remote directory a
process gets nothing, while a failed upload leaves the removals and all other processes alone.
-/
import DevMode.Sync.Message
import DevMode.Sync.Transfer
import DevMode.World

namespace DevMode.Sync

set_option autoImplicit false

variable {σ : Type} (platform : Platform σ)

/-! ## One process -/

/-- The command that tells the working directory. -/
def workDirCommand : String := "pwd"

/-- The directory of a process that a remote path leads to: a relative one is taken against
the working directory of the process. -/
def resolveRemote (app pid remote : String) : Attempt σ SyncError String := do
  if RemotePath.isAbsolute remote then return RemotePath.clean remote
  match ← Act.call platform (.processExec app pid workDirCommand) with
  | .ok dir => return RemotePath.join (String.ofList (Text.trim dir.toList)) remote
  | .error e => throw (.workDir pid e)

/-- Uploads additions into a directory of a process.  A transfer that came to a standstill
would count as one that nobody reads. -/
def handleAdds (disk : Disk) (app pid remote : String) (adds : List Change) :
    Attempt σ SyncError Unit := do
  if adds.isEmpty then return
  let answer ← Act.call platform (.filesUpload app pid)
  match (Transfer.start remote (script disk remote adds) answer).settle.result? with
  | some (.ok bytes) => modify fun w => { w with state := platform.receive app pid bytes w.state }
  | some (.error e) => throw e
  | none => throw (.io remote (.pipe .readerClosed))

/-- The remote paths of removed files. -/
def removedPaths (remote : String) (removes : List Change) : List String :=
  removes.map fun c => RemotePath.join remote c.remoteRelative

/-- Deletes removed files from a directory of a process. -/
def handleRemoves (app pid remote : String) (removes : List Change) : Attempt σ SyncError Unit := do
  if removes.isEmpty then return
  match ← Act.call platform (.filesDelete app pid (removedPaths remote removes)) with
  | .ok () => return
  | .error e => throw (.platform e)

/-! ## All processes -/

/-- A place on a service, as reports name it. -/
def placeName (service : String) (source : Source) : String := service ++ ":" ++ source.remoteLabel

def reportFailure {α : Type} (context : String) : Except SyncError α → Act σ Unit
  | .ok _ => pure ()
  | .error e => Act.report ⟨context, e.message⟩

/-- Brings changes to one process. -/
def applyTo (disk : Disk) (app service : String) (source : Source) (adds removes : List Change)
    (process : Container) : Act σ Unit := do
  match ← (resolveRemote platform app process.id source.remote).run with
  | .error e => Act.report ⟨"sync " ++ placeName service source, e.message⟩
  | .ok remote =>
    Act.displayAll ((addMessages service source adds).map Console.control)
    let uploaded ← (handleAdds platform disk app process.id remote adds).run
    reportFailure ("sync add " ++ placeName service source) uploaded
    Act.displayAll ((removeMessages service source removes).map Console.control)
    let deleted ← (handleRemoves platform app process.id remote removes).run
    reportFailure ("sync remove " ++ placeName service source) deleted

/-- Brings changes to all processes of a service; nothing happens if there are none. -/
def apply (disk : Disk) (app service : String) (source : Source) (adds removes : List Change) :
    Act σ Unit := do
  if adds.isEmpty && removes.isEmpty then return
  match ← Act.call platform (.processList app (some service)) with
  | .error e => Act.report ⟨"sync " ++ service, e.message⟩
  | .ok processes => processes.forM (applyTo platform disk app service source adds removes)

end DevMode.Sync
