/-
# DevMode.Sync.Error -- why files cannot be brought to a container
-/
import DevMode.Archive.Writer
import DevMode.FileTree
import DevMode.Pipe
import DevMode.Platform.Error

namespace DevMode

set_option autoImplicit false

/-- Why something cannot be archived: the file system refused, the name is no name for an
archive, or nobody reads the archive. -/
inductive ArchiveFault where
  | file (error : FileError)
  | badName (fault : Archive.NameFault)
  | pipe (fault : WriteFault)
  deriving DecidableEq, Repr

def ArchiveFault.message : ArchiveFault → String
  | file e => e.message
  | badName f => f.message
  | pipe f => f.message

/-- Why files cannot be brought to a container, or not even be watched. -/
inductive SyncError where
  | io (path : String) (fault : ArchiveFault)
  | workDir (pid : String) (error : PlatformError)
  | platform (error : PlatformError)
  | watch (path : String)
  deriving DecidableEq, Repr

def SyncError.message : SyncError → String
  | io path fault => "I/O error at " ++ path ++ ": " ++ fault.message
  | workDir pid e => pid ++ " pwd: " ++ e.message
  | platform e => "provider error: " ++ e.message
  | watch path => "notify error: No path was found. about [\"" ++ path ++ "\"]"

end DevMode
