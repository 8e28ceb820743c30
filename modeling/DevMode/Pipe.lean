/-
# DevMode.Pipe -- a bounded pipe of bytes

A writer gathers bytes into chunks of `Pipe.chunkSize` and puts each full one on a
queue that holds at most `capacity` of them; a reader takes them off.  Every operation
is one step on the state of both ends, so that a run of a writer beside a reader is a
sequence of such steps.  A step that would have to wait is not possible: it is `none`.

A writer that is gone without having finished leaves a failure behind for the reader,
so that the start of a stream is never taken for all of it.
-/

namespace DevMode

set_option autoImplicit false

/-- What a reader is told instead of the next chunk. -/
inductive StreamFault where
  | dropped
  | aborted (reason : String)
  deriving DecidableEq, Repr

def StreamFault.message : StreamFault → String
  | dropped => "pipe writer dropped before finishing"
  | aborted reason => reason

/-- A writer's failure: nobody reads any more. -/
inductive WriteFault where
  | readerClosed
  deriving DecidableEq, Repr

def WriteFault.message : WriteFault → String
  | readerClosed => "pipe reader closed"

/-- Both ends of a pipe: the queue between them, the bytes of an unfinished chunk, and
which ends are still there. -/
structure Pipe where
  capacity : Nat
  queue : List (Except StreamFault ByteArray)
  buffer : ByteArray
  hasWriter : Bool
  hasReader : Bool

namespace Pipe

def chunkSize : Nat := 32 * 1024

/-- A new pipe, which holds at least one chunk. -/
def ofCapacity (capacity : Nat) : Pipe := ⟨max capacity 1, [], ByteArray.empty, true, true⟩

/-! ## The writer's end -/

/-- Puts something on the queue.  Without a reader it is refused, and on a full queue it
has to wait. -/
def send (p : Pipe) (chunk : Except StreamFault ByteArray) : Option (Except WriteFault Unit × Pipe) :=
  if !p.hasReader then some (.error .readerClosed, p)
  else if p.capacity ≤ p.queue.length then none
  else some (.ok (), { p with queue := p.queue ++ [chunk] })

/-- Sends the unfinished chunk; if it is refused it is lost. -/
def sendBuffer (p : Pipe) : Option (Except WriteFault Unit × Pipe) :=
  { p with buffer := ByteArray.empty }.send (.ok p.buffer)

/-- How many of `n` bytes still fit into the unfinished chunk. -/
def accepted (p : Pipe) (n : Nat) : Nat := min (chunkSize - p.buffer.size) n

/-- Writes as many of the bytes as fit into the unfinished chunk, and sends it if it is
full then. -/
def write (p : Pipe) (data : ByteArray) : Option (Except WriteFault Nat × Pipe) :=
  let n := p.accepted data.size
  let q := { p with buffer := p.buffer ++ data.extract 0 n }
  if q.buffer.size < chunkSize then some (.ok n, q)
  else q.sendBuffer.map fun (r, q) => (r.map fun _ => n, q)

/-- Writes all bytes, in as many steps as it takes. -/
def writeFrom : Nat → Pipe → ByteArray → Option (Except WriteFault Unit × Pipe)
  | 0, p, _ => some (.ok (), p)
  | fuel + 1, p, data =>
    if data.isEmpty then some (.ok (), p)
    else
      match p.write data with
      | none => none
      | some (.error e, q) => some (.error e, q)
      | some (.ok n, q) => writeFrom fuel q (data.extract n data.size)

/-- Writes all bytes; every step takes one at least. -/
def writeAll (p : Pipe) (data : ByteArray) : Option (Except WriteFault Unit × Pipe) :=
  writeFrom data.size p data

/-- Sends the unfinished chunk, if there is anything in it. -/
def flush (p : Pipe) : Option (Except WriteFault Unit × Pipe) :=
  if p.buffer.isEmpty then some (.ok (), p) else p.sendBuffer

/-- The writer goes away in the middle: the reader is told so if there is room for it. -/
def drop (p : Pipe) : Pipe :=
  let p := { p with hasWriter := false }
  match p.send (.error .dropped) with
  | some (_, q) => q
  | none => p

/-- Sends what is left and ends the stream. -/
def finish (p : Pipe) : Option (Except WriteFault Unit × Pipe) :=
  p.flush.map fun (r, q) =>
    match r with
    | .ok () => (.ok (), { q with hasWriter := false })
    | .error e => (.error e, q.drop)

/-- Ends the stream with a fault; the unfinished chunk is lost. -/
def abort (p : Pipe) (reason : String) : Option Pipe :=
  (p.send (.error (.aborted reason))).map fun (_, q) => { q with hasWriter := false }

/-! ## The reader's end -/

/-- What a reader gets: a chunk, a fault, the end, or nothing yet. -/
inductive Received where
  | chunk (bytes : ByteArray)
  | fault (fault : StreamFault)
  | stop
  | pending

def receive (p : Pipe) : Received × Pipe :=
  match p.queue with
  | .ok bytes :: rest => (.chunk bytes, { p with queue := rest })
  | .error e :: rest => (.fault e, { p with queue := rest })
  | [] => (if p.hasWriter then .pending else .stop, p)

/-- All bytes up to the end, the first fault, or `none` if more is to come. -/
def gather (hasWriter : Bool) (out : ByteArray) : List (Except StreamFault ByteArray) →
    Option (Except StreamFault ByteArray) × List (Except StreamFault ByteArray)
  | [] => (if hasWriter then none else some (.ok out), [])
  | .ok bytes :: rest => gather hasWriter (out ++ bytes) rest
  | .error e :: rest => (some (.error e), rest)

/-- Reads up to the end of the stream.  What was read before a fault, or before the
queue gave out, is lost. -/
def receiveAll (p : Pipe) : Option (Except StreamFault ByteArray) × Pipe :=
  let (r, rest) := gather p.hasWriter ByteArray.empty p.queue
  (r, { p with queue := rest })

/-- The reader goes away, and with it what is on the queue. -/
def closeReader (p : Pipe) : Pipe := { p with hasReader := false, queue := [] }

end Pipe

end DevMode
