/-
# DevMode.Log.Stream -- streams that take their time

The bytes of a stream come in chunks, each some time after the stream was opened, and the
stream ends some time after that, or never.  A `Tail` reads the lines of one as they come.
-/
import DevMode.Log.Scanner

namespace DevMode

set_option autoImplicit false

/-- Chunks with the times at which they come, in order, and the time of the end.  Times
are milliseconds since the stream was opened. -/
structure LogStream where
  chunks : List (Nat × ByteArray)
  length : Option Nat

/-- A stream that is there as a whole when it is opened. -/
def LogStream.ofBytes (bytes : ByteArray) : LogStream :=
  ⟨if bytes.isEmpty then [] else [(0, bytes)], some 0⟩

/-- A stream that is being read: when it was opened, what is still to come, and the
unfinished line. -/
structure Tail where
  opened : Nat
  stream : LogStream
  scanner : Scanner

namespace Tail

/-- How the reading of a stream stands. -/
inductive Status where
  | reading
  | overlong
  | ended
  deriving DecidableEq, Repr

def start (now : Nat) (stream : LogStream) : Tail := ⟨now, stream, .ofSegments []⟩

/-- Whether something that comes `time` after the opening is there. -/
def isDue (t : Tail) (now time : Nat) : Bool := t.opened + time ≤ now

/-- The chunks that are there. -/
def arrived (t : Tail) (now : Nat) : List ByteArray :=
  ((t.stream.chunks.takeWhile fun c => t.isDue now c.1).map Prod.snd).filter (!·.isEmpty)

/-- The tail with all chunks that are there given to the scanner. -/
def advance (t : Tail) (now : Nat) : Tail :=
  { t with
    stream := { t.stream with chunks := t.stream.chunks.dropWhile fun c => t.isDue now c.1 }
    scanner := { t.scanner with source := t.scanner.source ++ t.arrived now } }

def hasEnded (t : Tail) (now : Nat) : Bool :=
  t.stream.chunks.isEmpty && t.stream.length.any (t.isDue now)

/-- What asking a stream for its next line comes to: a line, one that is too long, the end of the
stream, or nothing so far. -/
inductive Reading where
  | line (bytes : ByteArray)
  | overlong
  | stop
  | starved

/-- Asks for the next line. -/
def next (fits : Nat → Bool) (now : Nat) (t : Tail) : Reading × Tail :=
  let t := t.advance now
  match t.scanner.next fits with
  | (.line bytes, s) => (.line bytes, { t with scanner := s })
  | (.overlong, s) => (.overlong, { t with scanner := s })
  | (.starved, s) =>
    if t.hasEnded now then
      match s.last? with
      | some bytes => (.line bytes, { t with scanner := .ofSegments [] })
      | none => (.stop, { t with scanner := .ofSegments [] })
    else (.starved, { t with scanner := s })

/-- How much of a stream is left, whether it has come or not. -/
def weight (t : Tail) : Nat :=
  t.scanner.part.size + t.scanner.weight + total (t.stream.chunks.map fun c => c.2.size + 1)

/-- The lines that can be read now, how the reading stands after them, and the tail. -/
def pull (fits : Nat → Bool) (now : Nat) (t : Tail) : List ByteArray × Status × Tail :=
  let t := t.advance now
  match t.scanner.drain fits with
  | (lines, true, s) => (lines, .overlong, { t with scanner := s })
  | (lines, false, s) =>
    if t.hasEnded now then (lines ++ s.last?.toList, .ended, { t with scanner := .ofSegments [] })
    else (lines, .reading, { t with scanner := s })

end Tail

end DevMode
