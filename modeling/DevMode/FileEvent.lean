/-
# DevMode.FileEvent -- what a file system reports

An event names the paths that something happened to.  Whether that adds a file or
removes it is told by the file tree as it is when the event is looked at
(`FileEvent.changes`): a file that is there was added, one that is not was removed,
and directories count for nothing themselves.
-/
import DevMode.Change
import DevMode.FileTree
import DevMode.Ignore.Rules

namespace DevMode

set_option autoImplicit false

/-- What happened to some paths. -/
inductive EventKind where
  | create
  | modify
  | remove
  | access
  | other
  deriving DecidableEq, Repr

/-- An event: what happened, and to which paths. -/
structure FileEvent where
  kind : EventKind
  paths : List LocalPath

namespace FileEvent

/-- Whether an event can change a file. -/
def matters (e : FileEvent) : Bool := e.kind = .create || e.kind = .modify || e.kind = .remove

/-- The change of one path under `base`, whose links are resolved in `watchRoot`; none
for a path elsewhere, for one that is ignored and for a directory. -/
def change? (tree : FileTree) (base watchRoot : LocalPath) (rules : Ignore.Ruleset)
    (path : LocalPath) : Option Change :=
  match path.relativeTo? watchRoot with
  | none => none
  | some rel =>
    let localPath := if rel.chars = [] then base else base.join rel
    if rules.isIgnored localPath (tree.isDir path) then none
    else
      match tree.stat path with
      | .ok .dir => none
      | .ok _ => some ⟨base, rel, .add⟩
      | .error _ => some ⟨base, rel, .remove⟩

def changes (e : FileEvent) (tree : FileTree) (base watchRoot : LocalPath)
    (rules : Ignore.Ruleset) : List Change :=
  if e.matters then e.paths.filterMap (change? tree base watchRoot rules) else []

end FileEvent

end DevMode
