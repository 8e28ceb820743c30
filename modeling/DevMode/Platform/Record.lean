/-
# DevMode.Platform.Record -- what a platform keeps

Apps, their builds and releases, and the containers that run them.
-/

namespace DevMode

set_option autoImplicit false

/-- An application.  The release is empty until one was promoted. -/
structure App where
  name : String
  generation : String
  release : String
  status : String
  deriving DecidableEq, Repr

/-- The platform itself, by its name. -/
structure Rack where
  name : String
  deriving DecidableEq, Repr

/-- An object in the platform's store. -/
structure StoredObject where
  url : String
  deriving DecidableEq, Repr

/-! ## Builds -/

/-- How far a build is. -/
inductive BuildStatus where
  | created
  | running
  | complete
  | failed
  | unknown (text : String)
  deriving DecidableEq, Repr

namespace BuildStatus

def ofString (s : String) : BuildStatus :=
  if s = "created" then created
  else if s = "running" then running
  else if s = "complete" then complete
  else if s = "failed" then failed
  else unknown s

def toString : BuildStatus → String
  | created => "created"
  | running => "running"
  | complete => "complete"
  | failed => "failed"
  | unknown s => s

/-- A status written from its name is that name again. -/
@[simp] theorem toString_ofString (s : String) : (ofString s).toString = s := by
  unfold ofString
  split
  · simp [toString, *]
  · split
    · simp [toString, *]
    · split
      · simp [toString, *]
      · split <;> simp [toString, *]

end BuildStatus

/-- A build.  The release is empty until it has one; an external build is pushed to the
repository, whose address may hold a login. -/
structure Build where
  id : String
  app : String
  status : BuildStatus
  release : String
  repository : String
  description : String
  deriving DecidableEq, Repr

/-- A release of an app. -/
structure Release where
  id : String
  app : String
  build : String
  deriving DecidableEq, Repr

/-- A running container of a service. -/
structure Container where
  id : String
  service : String
  deriving DecidableEq, Repr

/-! ## Promotion -/

/-- How a release is rolled out; what is not set is left to the platform. -/
structure Rollout where
  development : Option Bool
  force : Option Bool
  idle : Option Bool
  minimum : Option Nat
  timeout : Option Nat
  deriving DecidableEq, Repr

namespace Rollout

/-- The rollout for development: everything is replaced at once. -/
def forDevelopment : Rollout := ⟨some true, some true, some false, some 0, some 300⟩

/-- The usual rollout. -/
def standard : Rollout := ⟨some false, some true, none, none, none⟩

end Rollout

end DevMode
