/-
# DevMode.Log.Shown -- showing one stream of log lines
-/
import DevMode.Log.Entry
import DevMode.Log.Scanner

namespace DevMode

set_option autoImplicit false

namespace LogEntry

/-- The line that says why a stream is given up. -/
def scanFailure (limit : Nat) : Line :=
  Console.control ("scan error: " ++ Scanner.overlongMessage limit)

/-- What is shown of some lines, and of the failure behind them if there is one. -/
def showAll (interest : List String) (limit : Nat) (lines : List ByteArray) (failed : Bool) :
    List Line :=
  lines.filterMap (fun l => show? interest (lineText l)) ++
    if failed then [scanFailure limit] else []

/-- What is shown of a stream that comes in segments. -/
def showStream (interest : List String) (limit : Nat) (source : List ByteArray) : List Line :=
  let (lines, failed) := Scanner.lines (Scanner.upTo limit) source
  showAll interest limit lines failed

end LogEntry

end DevMode
