/-
# DevMode.Log.Follower -- following the log of an app

A follower asks for the log of an app and shows what is of interest in it.  When there is no
stream, or when a stream has ended or is given up, it waits for a while and asks again.

It does so in turns.  There is one in front of every call, of every line of a stream, and at the
end of every wait, and a turn begins with a look at the signal of the session: when waiting for
that is over, so is the follower.  An answer that is on its way then is dropped.
-/
import DevMode.Log.Shown
import DevMode.World.Waiting

namespace DevMode

set_option autoImplicit false

/-- What a follower is at: it waits until a time, it has asked for the log and waits for the answer
to arrive, it reads a stream, or it is over. -/
inductive FollowerPhase where
  | idle (due : Nat)
  | fetching (answer : Except PlatformError LogStream) (arrival : Nat)
  | reading (tail : Tail)
  | over

/-- How far it is to the next wait: what comes in between, and what is left of the stream. -/
def FollowerPhase.distance : FollowerPhase → Nat × Nat
  | .idle _ => (2, 0)
  | .fetching .. => (1, 0)
  | .reading tail => (0, tail.weight + 1)
  | .over => (0, 0)

/-- One phase is closer to the next wait than another one. -/
def FollowerPhase.Closer (p q : FollowerPhase) : Prop :=
  Prod.Lex (· < ·) (· < ·) p.distance q.distance

instance (p q : FollowerPhase) : Decidable (p.Closer q) :=
  decidable_of_decidable_of_iff Prod.lex_def.symm

/-- A follower of the log of an app: the services it is for, and how long it waits before it
asks again. -/
structure Follower where
  app : String
  interest : List String
  retry : Nat
  phase : FollowerPhase

namespace Follower

/-- A follower that is to ask at once. -/
def new (app : String) (interest : List String) (retry : Nat) : Follower :=
  ⟨app, interest, retry, .idle 0⟩

/-- How far back a log goes when it is asked for. -/
def since : Nat := 1000

def call (f : Follower) : Call := .appLogs f.app true (some since)

def lineLimit : Nat := Scanner.defaultLimit

variable {σ : Type}

/-- The follower waiting before it asks again. -/
def rest (f : Follower) : Act σ Follower := do
  return { f with phase := .idle ((← get).now + f.retry) }

/-- Asks for the log. -/
def fetch (platform : Platform σ) (f : Follower) : Act σ Follower := do
  let time ← Act.lasting platform f.call
  let answer ← Act.call platform f.call
  return { f with phase := .fetching answer ((← get).now + time) }

/-- Takes an answer that has arrived. -/
def receive (f : Follower) (answer : Except PlatformError LogStream) (arrival : Nat) :
    Act σ Follower :=
  match answer with
  | .ok stream => return { f with phase := .reading (.start arrival stream) }
  | .error _ => f.rest

/-- Takes the next line of a stream, if it is there. -/
def take (f : Follower) (tail : Tail) : Act σ Follower := do
  match tail.next (Scanner.upTo lineLimit) (← get).now with
  | (.line bytes, tail) =>
    Act.displayAll (LogEntry.show? f.interest (lineText bytes)).toList
    return { f with phase := .reading tail }
  | (.starved, tail) => return { f with phase := .reading tail }
  | (.overlong, _) =>
    Act.display (LogEntry.scanFailure lineLimit)
    f.rest
  | (.stop, _) => f.rest

/-- One turn. -/
def turn (platform : Platform σ) (signal : Cancellation) (f : Follower) : Act σ Follower := do
  if signal.released then return { f with phase := .over }
  match f.phase with
  | .idle due => if (← get).now < due then return f else f.fetch platform
  | .fetching answer arrival => if (← get).now < arrival then return f else f.receive answer arrival
  | .reading tail => f.take tail
  | .over => return f

/-- What a follower does at one time: it takes turns until it has to wait. -/
def stepUntil (platform : Platform σ) (i : Interruption) (f : Follower) : Act σ Follower := fun w =>
  let (next, w') := f.turn platform (i.signal w.now) w
  if _h : next.phase.Closer f.phase then
    next.stepUntil platform i w'
  else (next, w')
termination_by f.phase.distance
decreasing_by exact _h

end Follower

end DevMode
