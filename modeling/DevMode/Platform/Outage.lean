/-
# DevMode.Platform.Outage -- platforms that fail at times

Some calls to a platform can be made to fail, by their number among the calls of their kind.
A call that fails does not reach the platform.
-/
import DevMode.Platform.Call

namespace DevMode

set_option autoImplicit false

def Call.kindName : Call → String
  | appGet .. => "app_get"
  | appCreate .. => "app_create"
  | appEnvironment .. => "app_environment"
  | appLogs .. => "app_logs"
  | rackGet => "system_get"
  | objectStore .. => "object_store"
  | buildCreate .. => "build_create"
  | buildGet .. => "build_get"
  | buildUpdate .. => "build_update"
  | buildLogs .. => "build_logs"
  | releaseCreate .. => "release_create"
  | releasePromote .. => "release_promote"
  | processList .. => "process_list"
  | processExec .. => "process_exec"
  | processStop .. => "process_stop"
  | filesUpload .. => "files_upload"
  | filesDelete .. => "files_delete"

/-- A failure of the calls of one kind from one number to another, both counted; the first
call has number one. -/
structure Outage where
  kind : String
  error : PlatformError
  first : Nat
  last : Option Nat

/-- A platform's state beside the outages that are set and the number of calls of each kind
so far. -/
structure Faulty (σ : Type) where
  inner : σ
  outages : List Outage
  counts : List (String × Nat)

namespace Faulty

variable {σ : Type}

def ofState (inner : σ) : Faulty σ := ⟨inner, [], []⟩

/-- The number of calls of a kind so far. -/
def count (f : Faulty σ) (kind : String) : Nat := (f.counts.lookup kind).getD 0

def countUp (f : Faulty σ) (kind : String) : Faulty σ :=
  { f with counts := (kind, f.count kind + 1) :: f.counts.filter (·.1 ≠ kind) }

/-- The failure of the `n`-th call of a kind, if it fails. -/
def failure? (f : Faulty σ) (kind : String) (n : Nat) : Option PlatformError :=
  (f.outages.find? fun o => o.kind = kind && o.first ≤ n && o.last.all (n ≤ ·)).map (·.error)

/-- The answer to a call: its failure if it fails, or else the one of the platform. -/
def answer (p : Platform σ) (c : Call) (f : Faulty σ) : c.Answer × Faulty σ :=
  let f := f.countUp c.kindName
  match f.failure? c.kindName (f.count c.kindName) with
  | some e => (.error e, f)
  | none =>
    let (answer, inner) := p.answer c f.inner
    (answer, { f with inner := inner })

end Faulty

/-- The platform with outages. -/
def Platform.faulty {σ : Type} (p : Platform σ) : Platform (Faulty σ) where
  answer := Faulty.answer p
  receive app pid bytes f := { f with inner := p.receive app pid bytes f.inner }
  takes c f := p.takes c f.inner

end DevMode
