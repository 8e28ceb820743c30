/-
# DevMode.Proofs.Instructions -- what the instructions of a recipe do

An instruction changes a state in a way that does not depend on the state, and whether it fails
is up to the inspection of images alone (`State.step_eq`).  So a recipe runs through from one
state just if it does from every other (`follow_cons`, `follow_error_iff`).

What the paths of a recipe name is said with locations: a change of directory and the target of a
copy are taken against the working directory so far, `parse_enter` and `parse_targetOf`.
-/
import DevMode.Proofs.Location
import DevMode.Proofs.World
import DevMode.Recipe.Analysis

namespace DevMode

set_option autoImplicit false

namespace Recipe

/-! ## Effects -/

/-- An environment with entries on top, of the form `NAME=value`; others count for nothing. -/
def overlay (env : Environment) (entries : List String) : Environment :=
  entries.foldl (fun env entry =>
    match Text.splitOnce? '=' entry.toList with
    | some (k, v) => env.set (String.ofList k) (String.ofList v)
    | none => env) env

/-- The entries and the working directory of an image, or nothing if it cannot be inspected. -/
def Inspector.look (inspector : Inspector) (image : Word) :
    Except ResolveError (Option (List String × String)) :=
  match inspector.env (String.ofList image) with
  | .error (.inspect _ _) => .ok none
  | .error e => .error e
  | .ok entries => (inspector.workDir (String.ofList image)).map fun dir =>
      some (entries, String.ofList (Text.trim dir.toList))

namespace State

/-- A state after an image was looked at. -/
def based (s : State) : Option (List String × String) → State
  | none => s
  | some (entries, dir) => { s with env := overlay s.env entries, workDir := dir }

/-- What an instruction does to states. -/
def effect (inspector : Inspector) (buildDir : LocalPath) :
    Instruction → Except ResolveError (State → State)
  | .from_ image => (inspector.look image).map fun found s => s.based found
  | .env settings => .ok fun s => settings.foldl setting s
  | .workdir dir => .ok fun s => s.enter dir
  | .copy sources target => .ok fun s => s.copy buildDir sources target

variable {inspector : Inspector} {buildDir : LocalPath}

theorem from_eq (s : State) (image : Word) :
    s.from_ inspector image = (inspector.look image).map s.based := by
  unfold from_ Inspector.look
  dsimp only
  cases inspector.env (String.ofList image) with
  | ok entries => cases inspector.workDir (String.ofList image) <;> rfl
  | error e => cases e <;> rfl

/-- **What an instruction does does not depend on the state.** -/
theorem step_eq (s : State) (i : Instruction) :
    s.step inspector buildDir i = (effect inspector buildDir i).map fun f => f s := by
  cases i with
  | from_ image =>
      rw [step, from_eq, effect]
      cases inspector.look image <;> rfl
  | env settings => rfl
  | workdir dir => rfl
  | copy sources target => rfl

end State

variable {inspector : Inspector} {buildDir : LocalPath}

@[simp] theorem follow_nil (s : State) : follow inspector buildDir s [] = .ok s := rfl

/-- A recipe goes on after its first instruction, if that does not fail. -/
theorem follow_cons (s : State) (i : Instruction) (rest : List Instruction) :
    follow inspector buildDir s (i :: rest) =
      match State.effect inspector buildDir i with
      | .ok f => follow inspector buildDir (f s) rest
      | .error e => .error e := by
  rw [follow, State.step_eq]
  cases State.effect inspector buildDir i <;> rfl

/-- **Whether and how a recipe fails does not depend on the state.** -/
theorem follow_error_iff (s t : State) (is : List Instruction) (e : ResolveError) :
    follow inspector buildDir s is = .error e ↔ follow inspector buildDir t is = .error e := by
  induction is generalizing s t with
  | nil => simp
  | cons i rest ih =>
      rw [follow_cons, follow_cons]
      cases State.effect inspector buildDir i with
      | ok f => exact ih (f s) (f t)
      | error e => rfl

/-- A recipe that runs through from one state runs through from every other. -/
theorem exists_follow {s s' : State} {is : List Instruction}
    (went : follow inspector buildDir s is = .ok s') (t : State) :
    ∃ t', follow inspector buildDir t is = .ok t' := by
  cases other : follow inspector buildDir t is with
  | ok t' => exact ⟨t', rfl⟩
  | error e =>
      rw [(follow_error_iff t s is e).1 other] at went
      cases went

/-! ## Where paths lead -/

namespace State

open Location

@[simp] theorem enter_env (s : State) (dir : Word) : (s.enter dir).env = s.env := by
  unfold enter
  dsimp only

theorem expand_enter (s : State) (dir : Word) : (s.enter dir).expand = s.expand := by
  funext w
  rw [expand, enter_env, expand]

@[simp] theorem enter_pending (s : State) (dir : Word) : (s.enter dir).pending = s.pending := by
  unfold enter
  dsimp only

/-- **A change of directory is taken against the directory so far.** -/
theorem parse_enter (s : State) (dir : Word) :
    parse (s.enter dir).workDir.toList =
      (parse (s.expand dir).toList).against (parse s.workDir.toList) := by
  unfold enter
  dsimp only
  split
  · rename_i alone
    rw [RemotePath.parse_clean]
    rcases alone with absolute | unknown
    · exact (RemotePath.against_absolute ((RemotePath.isAbsolute_iff _).1 absolute) _).symm
    · rw [String.isEmpty_iff.1 unknown]
      exact (RemotePath.against_origin _).symm
  · rename_i behind
    rw [not_or, String.isEmpty_iff] at behind
    rw [RemotePath.parse_join behind.2, RemotePath.against_relative]
    exact fun absolute => behind.1 ((RemotePath.isAbsolute_iff _).2 absolute)

/-- **A target is taken against the directory so far.** -/
theorem parse_targetOf (s : State) (target : String) :
    parse (s.targetOf target).toList =
      (parse target.toList).against (parse s.workDir.toList) := by
  have alone : parse (if target = "." then target else RemotePath.clean target).toList =
      parse target.toList := by
    split
    · rfl
    · exact RemotePath.parse_clean target
  unfold targetOf
  by_cases absolute : RemotePath.isAbsolute target = true
  · rw [RemotePath.against_absolute ((RemotePath.isAbsolute_iff _).1 absolute), absolute]
    simpa using alone
  · have relative : target.toList.head? ≠ some '/' :=
      fun head => absolute ((RemotePath.isAbsolute_iff _).2 head)
    by_cases unknown : s.workDir = ""
    · rw [unknown]
      refine Eq.trans ?_ (RemotePath.against_origin target.toList).symm
      simpa using alone
    · rw [if_pos (by simpa [unknown] using absolute), RemotePath.parse_join unknown,
        RemotePath.against_relative relative]

end State

end Recipe

end DevMode
