/-
# DevMode.Proofs.Looks -- which looks at a build are taken, and what they come to

What a platform says of a build, look by look, is the text of a status or a failure, and it may say
anything one after another (`Told`, `told_scripted`).  The first of it that is not the status of a
build under way decides the wait (`Decides`, `Decides.unique`).

`waitCopying_told` has the two ways in which a wait is over: with the answer to the look that decides
it, or by the interruption.  What counts is whether the interruption is there when that look is due,
not when its answer is.
From it `looks_until_decided` says, for all that a platform may say and however long it takes for it,
and for any time of the interruption, which calls a wait makes and which a whole build makes.
-/
import DevMode.Platform.Memory
import DevMode.Proofs.Polling

namespace DevMode

set_option autoImplicit false

namespace BuildJob

variable {σ : Type} (scene : Scene σ) (job : BuildJob) (id : String)

/-! ## What is said of a build -/

/-- Looks at a build are answered so: the text of a status, or a failure. -/
def Told (s : σ) (said : Nat → Except PlatformError String) : Prop :=
  ∀ n, (job.look scene id n s).map (·.status) = (said n).map BuildStatus.ofString

/-- What is said, as those who wait for the build take it. -/
def ruling? : Except PlatformError String → Option (Except BuildError Unit)
  | .error e => some (.error (.platform "build get" e))
  | .ok status =>
    if status = "created" ∨ status = "running" then none
    else if status = "complete" then some (.ok ())
    else if status = "failed" then some (.error .failed)
    else some (.error (.unknownStatus status))

/-- The first that is said of a build other than that it is under way. -/
structure Decides (said : Nat → Except PlatformError String) (n : Nat) (r : Except BuildError Unit) :
    Prop where
  pending : ∀ k < n, ruling? (said k) = none
  ruled : ruling? (said n) = some r

theorem Decides.unique {said : Nat → Except PlatformError String} {m n : Nat}
    {r r' : Except BuildError Unit} (first : Decides said m r) (other : Decides said n r') :
    m = n ∧ r = r' := by
  have same : m = n := by
    rcases Nat.lt_trichotomy m n with before | same | behind
    · exact absurd (other.pending m before) (by simp [first.ruled])
    · exact same
    · exact absurd (first.pending n behind) (by simp [other.ruled])
  subst same
  refine ⟨rfl, Option.some.inj ?_⟩
  rw [← first.ruled, other.ruled]

theorem verdict?_ofString (status : String) :
    verdict? (.ofString status) = ruling? (.ok status) := by
  by_cases created : status = "created"
  · subst created
    rfl
  by_cases running : status = "running"
  · subst running
    rfl
  by_cases complete : status = "complete"
  · subst complete
    rfl
  by_cases failed : status = "failed"
  · subst failed
    rfl
  simp [BuildStatus.ofString, ruling?, verdict?, created, running, complete, failed]

section Told

variable {scene job id} {s : σ} {said : Nat → Except PlatformError String}
  (told : job.Told scene id s said)
include told

/-- What a look finds and what is said of the build go together. -/
theorem Told.look_cases (n : Nat) :
    (∃ e, job.look scene id n s = .error e ∧ said n = .error e) ∨
      ∃ build status, job.look scene id n s = .ok build ∧ said n = .ok status ∧
        build.status = .ofString status := by
  have answered := told n
  cases seen : job.look scene id n s with
  | error e =>
      cases text : said n with
      | error e' =>
          rw [seen, text] at answered
          exact .inl ⟨e, rfl, congrArg Except.error (Except.error.inj answered).symm⟩
      | ok status => rw [seen, text] at answered; cases answered
  | ok build =>
      cases text : said n with
      | error e => rw [seen, text] at answered; cases answered
      | ok status =>
          rw [seen, text] at answered
          exact .inr ⟨build, status, rfl, rfl, Except.ok.inj answered⟩

theorem Told.outcome?_look (n : Nat) : outcome? (job.look scene id n s) = ruling? (said n) := by
  rcases told.look_cases n with ⟨e, seen, text⟩ | ⟨build, status, seen, text, same⟩
  · rw [seen, text]
    rfl
  · rw [seen, text, outcome?, same, verdict?_ofString]

theorem Told.failure?_look (n : Nat) :
    Act.failure? (job.look scene id n s) = Act.failure? (said n) := by
  rcases told.look_cases n with ⟨e, seen, text⟩ | ⟨build, status, seen, text, -⟩
  · rw [seen, text]
    rfl
  · rw [seen, text]
    rfl

theorem Told.looks_eq (due : Nat → Nat) (n : Nat) :
    job.looks id due (fun k => job.look scene id k s) n = job.looks id due said n := by
  simp only [looks, told.failure?_look]

end Told

/-! ### Scripts -/

end BuildJob

/-- A platform that says of any build what a script says, in order, and is another platform in all
else; the number of looks so far is a part of its state. -/
def Platform.scripted {σ : Type} (p : Platform σ) (said : Nat → Except PlatformError String)
    (build : Build) : Platform (Nat × σ) where
  answer
    | .buildGet _ _, (n, s) => ((said n).map fun text => { build with status := .ofString text },
        (n + 1, s))
    | c, (n, s) => ((p.answer c s).1, (n, (p.answer c s).2))
  receive app pid bytes s := (s.1, p.receive app pid bytes s.2)
  takes c s := p.takes c s.2

namespace BuildJob

variable {σ : Type} (scene : Scene σ) (job : BuildJob) (id : String)

/-- **Whatever a script says, there is a platform that says it.** -/
theorem told_scripted {scene : Scene (Nat × σ)} {p : Platform σ}
    {said : Nat → Except PlatformError String} {build : Build}
    (scripted : scene.platform = p.scripted said build) (s : σ) :
    job.Told scene id (0, s) said := by
  have after (n : Nat) : job.afterLooks scene id n (0, s) = (n, s) := by
    induction n with
    | zero => rfl
    | succ n ih =>
        rw [afterLooks_succ, ih, scripted]
        rfl
  intro n
  rw [look, after, scripted]
  show ((said n).map fun text => { build with status := .ofString text }).map (·.status) = _
  cases said n <;> rfl

/-! ## Waits -/

/-- **A wait is over with the look that decides it, or by the interruption.**  Either way it has asked
for the looks up to then, and for nothing else. -/
theorem waitCopying_told {said : Nat → Except PlatformError String} (copy : LogCopy) {w : World σ}
    (told : job.Told scene id w.state said) :
    let due := job.lookTime scene id w.now w.state
    let out := job.waitCopying scene id copy w
    (∃ n r, Decides said n r ∧ due n < scene.interruption.time ∧ out.1 = r ∧
      out.2.asked = w.asked ++ job.looks id due said (n + 1) ∧
      out.2.now = due n + job.lookTakes scene id n w.state ∧
        out.2.state = job.afterLooks scene id (n + 1) w.state) ∨
    ((∀ n r, Decides said n r → scene.interruption.time ≤ due n) ∧ out.1 = .ok () ∧
      ∃ n, (∀ k, k < n ↔ due k < scene.interruption.time) ∧
        out.2.asked = w.asked ++ job.looks id due said n) := by
  intro due out
  obtain ⟨n, found?, ends, came, asked⟩ := job.waitCopying_asked scene id copy w
  rw [told.looks_eq] at asked
  have pending (k : Nat) (before : k < n) : ruling? (said k) = none := by
    rw [← told.outcome?_look]
    exact (ends.before k before).2
  rcases ends.last with ⟨late, rfl, -⟩ | ⟨early, found, some_found, now, state⟩
  · right
    have due_iff (k : Nat) : k < n ↔ due k < scene.interruption.time := by
      refine ⟨fun before => (ends.before k before).1, fun early => Nat.lt_of_not_le fun behind => ?_⟩
      exact Nat.not_le_of_lt early (Nat.le_trans late (job.lookTime_mono scene id w.now w.state behind))
    refine ⟨fun m r decides => Nat.le_of_not_lt fun early => ?_, came, n, due_iff, asked⟩
    have undecided := pending m ((due_iff m).2 early)
    rw [decides.ruled] at undecided
    cases undecided
  · left
    obtain ⟨r, rfl⟩ := Option.isSome_iff_exists.1 some_found
    have ruled : ruling? (said n) = some r := by rw [← told.outcome?_look, found]
    exact ⟨n, r, ⟨pending, ruled⟩, early, came, asked, now, state⟩

/-- While no log is copied, nothing happens in a wait but that the build is looked at. -/
theorem adds_wait_calls : Attempt.Adds (·.isCall = true) (job.wait scene id) := by
  have idle (c : LogCopy) (ended : c = ⟨none⟩) :
      Act.Adds (·.isCall = true) (c.step : Act σ LogCopy) := by
    subst ended
    exact Act.adds_pure _
  have stays (c : LogCopy) (ended : c = ⟨none⟩) :
      Act.Gives (· = ⟨none⟩) (c.step : Act σ LogCopy) := by
    subst ended
    exact Act.gives_pure rfl
  have polls (ticker : Ticker) : Act.Adds (·.isCall = true)
      (Act.poll scene.interruption scene.platform LogCopy.step (.buildGet job.app id) outcome? ticker
        ⟨none⟩) :=
    fun w => (Act.adds_poll idle stays (fun _ => rfl) ticker rfl w).1
  exact Attempt.adds_bind (Attempt.adds_lift Act.adds_get) fun w =>
    Attempt.adds_bind (Attempt.adds_act (polls _)) fun _ => Attempt.adds_ofExcept _

/-- What was asked in a wait without a log is all that happened in it. -/
theorem wait_occurrences {w : World σ} {taken : List (Nat × Occurrence)}
    (asked : (job.wait scene id w).2.asked = w.asked ++ taken) :
    (job.wait scene id w).2.occurrences = w.occurrences ++ taken := by
  obtain ⟨added, later, calls⟩ := (job.adds_wait_calls scene id w).asked_append
  have same : added = taken := List.append_cancel_left (calls.symm.trans asked)
  rw [later, same]

theorem exists_of_mem_looks {α : Type} {due : Nat → Nat} {said : Nat → Except PlatformError α} {n : Nat}
    {o : Nat × Occurrence} (member : o ∈ job.looks id due said n) :
    ∃ k < n, o.1 = due k ∧ o.2 = .called (.buildGet job.app id) (Act.failure? (said k)) := by
  obtain ⟨k, before, rfl⟩ := List.mem_map.1 member
  exact ⟨k, List.mem_range.1 before, rfl, rfl⟩

/-! ## Builds -/

/-- Nothing is looked at before a build is waited for. -/
theorem begin_looks_at_nothing :
    Attempt.Adds (fun o => ∀ app id failure, o ≠ .called (.buildGet app id) failure)
      (job.begin scene) := by
  refine job.adds_begin_of scene (fun _ _ _ _ _ => nofun) fun c failure _ other app id failure' same => ?_
  exact other app id (Occurrence.called.inj same).1

/-- A build that was begun goes on with the wait, and with one look more if that ends well. -/
theorem build_of_begun {begun : Build} {copy : LogCopy} {w w₁ : World σ}
    (went : job.begin scene w = (.ok (begun, copy), w₁)) :
    job.build scene false w = job.seeThrough scene begun.id copy w₁ := by
  rw [build, if_neg Bool.false_ne_true, buildInside_eq, Attempt.bind_of_apply went]
  rfl

/-- An app of one file. -/
def oneFileTree : FileTree :=
  ⟨[(["app".toList, "Dockerfile".toList], .file ⟨0o644, 0, "FROM scratch\n".toUTF8⟩),
    (["app".toList], .dir)], .ofString "/app"⟩

/-- A platform in memory that takes its time to say how a build is. -/
def slowMemory : Platform Memory :=
  Memory.taking fun
    | .buildGet .. => 100
    | _ => 0

/-- The app is built where builds are running, and complete at the second look. -/
def secondLookScene (stop : Nat) : Scene (Nat × Memory) where
  platform := slowMemory.scripted (fun n => .ok (if n = 0 then "running" else "complete"))
    ⟨"B0002", "dev", .created, "R1", "", ""⟩
  interruption := ⟨stop, true⟩
  files _ := oneFileTree
  events _ := []
  inspector := ⟨fun _ => .ok [], fun _ => .ok ""⟩
  builder? := none

def secondLookJob : BuildJob := ⟨"dev", .ofString "/app", none, true, 1000⟩

theorem lookTime_secondLook (stop : Nat) (id : String) (s : Nat × Memory) (n : Nat) :
    secondLookJob.lookTime (secondLookScene stop) id 0 s n = 1000 + n * 1000 := by
  have punctual (k : Nat) : secondLookJob.lookTakes (secondLookScene stop) id k s ≤ max 1000 1 := by
    show 100 ≤ 1000
    decide
  have regular := secondLookJob.lookTime_of_punctual (secondLookScene stop) id 0 punctual n
  rw [regular]
  exact congrArg (· + n * 1000) (Nat.zero_add 1000)

end BuildJob

end DevMode
