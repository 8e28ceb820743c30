/-
# DevMode.Recipe.Analysis -- what a recipe copies where

A recipe is followed instruction by instruction (`State.step`): the image it builds
on gives an environment and a working directory, settings and changes of directory
update them, and a copy records where each of its sources goes, as far as that is
known at that line.  What is open until the end is settled by `Pending.settle`: what
kind of file a source is, and which directory a target of `.` means.
-/
import DevMode.Environment
import DevMode.Recipe.Error
import DevMode.Recipe.Instruction
import DevMode.Source

namespace DevMode.Recipe

set_option autoImplicit false

/-- What is known of images: their environment entries and working directory. -/
structure Inspector where
  env : String → Except ResolveError (List String)
  workDir : String → Except ResolveError String

/-- A source with its target so far.  `targetIsDir` if the target names a directory
also for a source that is a file. -/
structure Pending where
  path : LocalPath
  remote : String
  targetIsDir : Bool
  deriving DecidableEq, Repr

/-- What the lines so far have set. -/
structure State where
  env : Environment
  workDir : String
  pending : List Pending

namespace State

def start : State := ⟨[], "", []⟩

/-- The text of a word with its references replaced. -/
def expand (s : State) (w : Word) : String := s.env.expand (String.ofList w)

def setting (s : State) (kv : Word × Word) : State :=
  { s with env := s.env.set (String.ofList kv.1) (s.expand kv.2) }

def enter (s : State) (dir : Word) : State :=
  let dir := s.expand dir
  { s with
    workDir :=
      if RemotePath.isAbsolute dir ∨ s.workDir.isEmpty then RemotePath.clean dir
      else RemotePath.join s.workDir dir }

/-- Whether the text of a target can only be a directory. -/
def namesDirectory (target : String) : Bool :=
  match (Text.pieces '/' target.toList).getLast? with
  | some last => (last = [] && !target.isEmpty) || last = ['.'] || last = ['.', '.']
  | none => false

/-- Where a target lies: against the working directory if there is one, `.` staying
open if there is none. -/
def targetOf (s : State) (target : String) : String :=
  if !s.workDir.isEmpty && !RemotePath.isAbsolute target then RemotePath.join s.workDir target
  else if target = "." then target
  else RemotePath.clean target

/-- Records where sources below the build directory go. -/
def copy (s : State) (buildDir : LocalPath) (sources : List Word) (target : Word) : State :=
  let target := s.expand target
  let isDir := namesDirectory target || decide (1 < sources.length)
  { s with
    pending := s.pending ++ (sources.filter (!Instruction.isUrl ·)).map fun w =>
      ⟨buildDir.join ⟨w⟩, s.targetOf target, isDir⟩ }

/-- Takes environment and working directory from an image.  An image that cannot be
inspected changes nothing. -/
def from_ (s : State) (inspector : Inspector) (image : Word) : Except ResolveError State := do
  let name := String.ofList image
  match inspector.env name with
  | .error (.inspect _ _) => return s
  | .error e => throw e
  | .ok entries =>
    let env := entries.foldl (fun env entry =>
      match Text.splitOnce? '=' entry.toList with
      | some (k, v) => env.set (String.ofList k) (String.ofList v)
      | none => env) s.env
    let dir ← inspector.workDir name
    return { s with env, workDir := String.ofList (Text.trim dir.toList) }

def step (inspector : Inspector) (buildDir : LocalPath) (s : State) :
    Instruction → Except ResolveError State
  | .from_ image => s.from_ inspector image
  | .env settings => .ok (settings.foldl setting s)
  | .workdir dir => .ok (s.enter dir)
  | .copy sources target => .ok (s.copy buildDir sources target)

end State

/-- Follows instructions from a state on. -/
def follow (inspector : Inspector) (buildDir : LocalPath) (s : State) :
    List Instruction → Except ResolveError State
  | [] => .ok s
  | i :: rest => do follow inspector buildDir (← s.step inspector buildDir i) rest

/-- The state after all of a recipe. -/
def analyze (inspector : Inspector) (buildDir : LocalPath) (text : String) :
    Except ResolveError State :=
  follow inspector buildDir .start (instructions text)

/-! ## Settling -/

/-- The source of a pending one: its path made absolute and clean, with a slash at
the end for a directory; `.` is the last working directory; a file that goes to a
directory keeps its name there. -/
def Pending.settle (p : Pending) (tree : FileTree) (workDir : String) :
    Except ResolveError Source :=
  let path := (p.path.against tree.current).clean
  let remote := if p.remote = "." then workDir else p.remote
  match tree.stat path with
  | .error e => .error (.io path.toString (.file e))
  | .ok .dir => .ok ⟨path.asDirectory, remote⟩
  | .ok _ =>
    match p.targetIsDir, path.fileName? with
    | true, some name => .ok ⟨path, RemotePath.join remote (String.ofList name)⟩
    | _, _ => .ok ⟨path, remote⟩

/-- The sources of all pending ones. -/
def State.settle (s : State) (tree : FileTree) : Except ResolveError (List Source) :=
  s.pending.mapM (·.settle tree s.workDir)

end DevMode.Recipe
