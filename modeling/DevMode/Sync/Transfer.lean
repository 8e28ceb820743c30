/-
# DevMode.Sync.Transfer -- an archive on its way into a container

The archive is written into a pipe while the platform reads from it.  A `Transfer` is the
state of both parties.  Each makes its own steps (`stepWriter`, `stepUploader`), and neither
can step while it has to wait for the other; a schedule says whose turn it is.

A platform that refuses the upload closes the pipe without reading.  The writer may notice
that early, late or never, so its broken pipe is no cause of its own: the refusal is told
instead.
-/
import DevMode.Sync.Script

namespace DevMode.Sync

set_option autoImplicit false

/-- The number of chunks that wait in the pipe. -/
def pipeCapacity : Nat := 16

/-- The platform's side: it is about to refuse, it reads, or it is done. -/
inductive Uploader where
  | refusing (error : PlatformError)
  | reading (received : ByteArray)
  | finished (result : Except PlatformError ByteArray)

/-- Both parties: what is still to be written and how the archive ends after it, and how the
writer ended if it did. -/
structure Transfer where
  remote : String
  pipe : Pipe
  writes : List Write
  outcome : Except SyncError Nat
  archived : Option (Except SyncError Nat)
  uploader : Uploader

namespace Transfer

/-- The start of a transfer that the platform answers as it does. -/
def start (remote : String) (script : Script) (answer : Except PlatformError Unit) : Transfer where
  remote := remote
  pipe := Pipe.ofCapacity pipeCapacity
  writes := script.writes
  outcome := script.outcome
  archived := none
  uploader := match answer with
    | .ok () => .reading ByteArray.empty
    | .error e => .refusing e

/-! ## The writer -/

def writeNext (t : Transfer) (w : Write) (rest : List Write) : Option Transfer :=
  if w.bytes.isEmpty then some { t with writes := rest }
  else
    match t.pipe.write w.bytes with
    | none => none
    | some (.ok n, p) =>
      some { t with pipe := p, writes := { w with bytes := w.bytes.extract n w.bytes.size } :: rest }
    | some (.error e, p) =>
      some { t with pipe := p, writes := [], outcome := .error (.io w.path (.pipe e)) }

/-- Ends the stream: properly after a whole archive, with the failure after one that broke
off. -/
def close (t : Transfer) : Option Transfer :=
  match t.outcome with
  | .ok n =>
    match t.pipe.finish with
    | none => none
    | some (.ok (), p) => some { t with pipe := p, archived := some (.ok n) }
    | some (.error e, p) => some { t with pipe := p, archived := some (.error (.io t.remote (.pipe e))) }
  | .error e => (t.pipe.abort e.message).map fun p => { t with pipe := p, archived := some (.error e) }

def stepWriter (t : Transfer) : Option Transfer :=
  match t.archived, t.writes with
  | some _, _ => none
  | none, [] => t.close
  | none, w :: rest => t.writeNext w rest

/-! ## The uploader -/

/-- The uploader is done and leaves the pipe. -/
def leave (t : Transfer) (pipe : Pipe) (result : Except PlatformError ByteArray) : Transfer :=
  { t with pipe := pipe.closeReader, uploader := .finished result }

def stepUploader (t : Transfer) : Option Transfer :=
  match t.uploader with
  | .finished _ => none
  | .refusing e => some (t.leave t.pipe (.error e))
  | .reading received =>
    match t.pipe.receive with
    | (.chunk bytes, p) => some { t with pipe := p, uploader := .reading (received ++ bytes) }
    | (.fault f, p) => some (t.leave p (.error (.io f.message)))
    | (.stop, p) => some (t.leave p (.ok received))
    | (.pending, _) => none

/-! ## Whole transfers -/

/-- A step of either party, the uploader first. -/
def step (t : Transfer) : Option Transfer := t.stepUploader <|> t.stepWriter

/-- At most so many steps. -/
def run : Nat → Transfer → Transfer
  | 0, t => t
  | fuel + 1, t =>
    match t.step with
    | none => t
    | some t => run fuel t

/-- More steps than a transfer has: every byte is written once and read once. -/
def stepBound (t : Transfer) : Nat :=
  4 * (total (t.writes.map fun w => w.bytes.size) + t.writes.length + 2)

/-- The transfer when no party can step any more. -/
def settle (t : Transfer) : Transfer := t.run t.stepBound

/-- What a transfer comes to, from how both parties ended. -/
def result : Except SyncError Nat → Except PlatformError ByteArray → Except SyncError ByteArray
  | .ok _, .ok bytes => .ok bytes
  | .error (.io _ (.pipe _)), .error e => .error (.platform e)
  | .error e, _ => .error e
  | .ok _, .error e => .error (.platform e)

/-- What a transfer comes to once both parties have ended. -/
def result? (t : Transfer) : Option (Except SyncError ByteArray) :=
  match t.archived, t.uploader with
  | some archived, .finished uploaded => some (result archived uploaded)
  | _, _ => none

end Transfer

end DevMode.Sync
