/-
# DevMode.Platform.Call -- what a platform is asked for

Every call has its own kind of answer (`Call.Reply`).  A `Platform` is any state machine that
answers calls, with a failure or with a reply, and takes its time for it.  An upload is answered
twice: the call says whether it is accepted at all, and what it comes to is told when its stream
has ended.
-/
import DevMode.Archive.Reader
import DevMode.Environment
import DevMode.Log.Stream
import DevMode.Platform.Error
import DevMode.Platform.Record

namespace DevMode

set_option autoImplicit false

/-- What kind of build is asked for. -/
structure BuildRequest where
  development : Bool
  external : Bool
  manifest : Option String
  deriving DecidableEq, Repr

/-- What is asked of a platform. -/
inductive Call where
  | appGet (app : String)
  | appCreate (app : String) (generation : Option String)
  | appEnvironment (app : String)
  | appLogs (app : String) (prefixed : Bool) (since : Option Nat)
  | rackGet
  | objectStore (app key : String) (object : List Archive.Entry)
  | buildCreate (app address : String) (request : BuildRequest)
  | buildGet (app id : String)
  | buildUpdate (app id : String) (manifest release : Option String)
  | buildLogs (app id : String)
  | releaseCreate (app : String) (build description : Option String)
  | releasePromote (app id : String) (rollout : Rollout)
  | processList (app : String) (service : Option String)
  | processExec (app pid command : String)
  | processStop (app pid : String)
  | filesUpload (app pid : String)
  | filesDelete (app pid : String) (files : List String)

/-- What a call is answered with. -/
@[reducible] def Call.Reply : Call → Type
  | appGet .. => App
  | appCreate .. => App
  | appEnvironment .. => Environment
  | appLogs .. => LogStream
  | rackGet => Rack
  | objectStore .. => StoredObject
  | buildCreate .. => Build
  | buildGet .. => Build
  | buildUpdate .. => Build
  | buildLogs .. => LogStream
  | releaseCreate .. => Release
  | releasePromote .. => Unit
  | processList .. => List Container
  | processExec .. => String
  | processStop .. => Unit
  | filesUpload .. => Unit
  | filesDelete .. => Unit

/-- How a platform answers. -/
abbrev Call.Answer (c : Call) : Type := Except PlatformError c.Reply

/-- A platform: how it answers calls, what it makes of the whole stream of an upload to a
process of an app, and how many milliseconds an answer takes. -/
structure Platform (σ : Type) where
  answer : (c : Call) → σ → c.Answer × σ
  receive : (app pid : String) → ByteArray → σ → σ
  takes : Call → σ → Nat := fun _ _ => 0

end DevMode
