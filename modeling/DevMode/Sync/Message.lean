/-
# DevMode.Sync.Message -- announcing what is synced
-/
import DevMode.Change
import DevMode.Source

namespace DevMode.Sync

set_option autoImplicit false

/-- The number of files above which they are announced together. -/
def summaryThreshold : Nat := 3

/-- The path of a change as it is shown: under its base, or the name of the base if that
is the file. -/
def shownPath (c : Change) : String :=
  if c.remoteRelative.isEmpty then String.ofList (c.base.fileName?.getD []) else c.remoteRelative

/-- The announcement of something that happens to files at a place on a service. -/
def announcement (head subject direction : String) (service : String) (source : Source) : String :=
  head ++ ": " ++ subject ++ " " ++ direction ++ " <dir>" ++ source.remoteLabel ++
    "</dir> on <service>" ++ service ++ "</service>"

/-- The announcements of some changes: one each, or one of all. -/
def announcements (head direction service : String) (source : Source) (changes : List Change) :
    List String :=
  if summaryThreshold < changes.length then
    [announcement head (toString changes.length ++ " files") direction service source]
  else
    changes.map fun c =>
      announcement head ("<dir>" ++ shownPath c ++ "</dir>") direction service source

def addMessages (service : String) (source : Source) (adds : List Change) : List String :=
  announcements "sync" "to" service source adds

def removeMessages (service : String) (source : Source) (removes : List Change) : List String :=
  announcements "remove" "from" service source removes

end DevMode.Sync
