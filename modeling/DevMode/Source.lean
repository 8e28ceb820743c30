/-
# DevMode.Source -- directory pairs that are kept in sync

A `Source` ties a local file or directory to the remote place it goes to.  One
source covers another if the second lies at or beneath the first on both sides and
by the same offset: syncing the first already delivers the second.  `dedupe` drops
every covered source; of two that cover each other the first stays.
-/
import DevMode.LocalPath

namespace DevMode

set_option autoImplicit false

/-- A local path and the remote path it is delivered to.  A relative remote is taken
against the working directory of the process that receives it. -/
structure Source where
  path : LocalPath
  remote : String
  deriving DecidableEq, Repr

namespace Source

/-- The remote as it is shown: an empty one is the working directory. -/
def remoteLabel (s : Source) : String := if s.remote.isEmpty then "." else s.remote

/-- A relative local path as a remote offset, `.` for none. -/
def offset (rel : LocalPath) : String := if rel.posix.isEmpty then "." else rel.posix

/-- Whether syncing `outer` delivers all that syncing `inner` does. -/
def covers (outer inner : Source) : Bool :=
  match inner.path.relativeTo? outer.path with
  | none => false
  | some rel => RemotePath.relative? outer.remote inner.remote == some (offset rel)

/-- Keeps the sources that none of `before` and none of those behind makes redundant:
one before by covering it, one behind by covering it one-sidedly. -/
def keep (before : List Source) : List Source → List Source
  | [] => []
  | s :: rest =>
    let redundant := before.any (·.covers s) || rest.any fun t => t.covers s && !s.covers t
    if redundant then keep (before ++ [s]) rest else s :: keep (before ++ [s]) rest

/-- Drops every source that another one covers. -/
def dedupe (sources : List Source) : List Source := keep [] sources

end Source

end DevMode
