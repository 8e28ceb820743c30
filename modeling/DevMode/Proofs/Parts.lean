/-
# DevMode.Proofs.Parts -- what the parts of a session leave behind

A session sets up, follows the app, and ends.  What happens while it sets up is of one kind
(`Occurrence.SetsUp`): calls, lines of the build and orders to an image builder, but no reports.
What goes on while it follows the app is of another (`Occurrence.Accompanies`), which is for the
services that are synced.  Each part asks the platform for its own things only: preparing the app
for the app, a build for builds, what goes on beside for the log and the processes.  None of them
promotes anything, which is left to `BuildJob.promote` and `BuildJob.demote`.
-/
import DevMode.Proofs.LogLines
import DevMode.Proofs.Polling
import DevMode.Proofs.Trace
import DevMode.Proofs.Turns
import DevMode.Session.Run

namespace DevMode

set_option autoImplicit false

/-! ## Kinds of what happens -/

namespace Occurrence

/-- What may happen while a session sets up. -/
inductive SetsUp (listed : List Purpose) : Occurrence → Prop where
  | call {c : Call} (about : c.purpose ∈ listed) (failure : Option PlatformError) :
      SetsUp listed (.called c failure)
  | line {l : Line} (key : l.key = Console.buildTag) : SetsUp listed (.shown l)
  | order (o : ImageOrder) : SetsUp listed (.imageBuilt o)

/-- What may happen while an app is followed: the log is shown for some names of interest, and the
sources of some services are synced. -/
inductive Accompanies (app : String) (interest services : List String) : Occurrence → Prop where
  | look (failure : Option PlatformError) :
      Accompanies app interest services (.called (.appGet app) failure)
  | log (failure : Option PlatformError) :
      Accompanies app interest services (.called (.appLogs app true (some Follower.since)) failure)
  | entry {l : Line} (routed : l.key ∈ interest) : Accompanies app interest services (.shown l)
  | overlong (limit : Nat) : Accompanies app interest services (.shown (LogEntry.scanFailure limit))
  | start {w : Sync.Watcher} (serves : w.service ∈ services) :
      Accompanies app interest services (.shown w.startLine)
  | list {service : String} (serves : service ∈ services) (failure : Option PlatformError) :
      Accompanies app interest services (.called (.processList app (some service)) failure)
  | enter (pid command : String) (failure : Option PlatformError) :
      Accompanies app interest services (.called (.processExec app pid command) failure)
  | upload (pid : String) (failure : Option PlatformError) :
      Accompanies app interest services (.called (.filesUpload app pid) failure)
  | delete (pid : String) (files : List String) (failure : Option PlatformError) :
      Accompanies app interest services (.called (.filesDelete app pid files) failure)
  | announce {head : String} (known : head = "sync" ∨ head = "remove") (subject direction : String)
      {service : String} (serves : service ∈ services) (source : Source) :
      Accompanies app interest services
        (.shown (Console.control (Sync.announcement head subject direction service source)))
  | report (r : Report) : Accompanies app interest services (.reported r)
  | tell (r : Report) : Accompanies app interest services (.shown r.line)

theorem SetsUp.mono {few many : List Purpose} (more : few ⊆ many) {o : Occurrence}
    (sets_up : o.SetsUp few) : o.SetsUp many := by
  cases sets_up with
  | call about failure => exact .call (more about) failure
  | line key => exact .line key
  | order o => exact .order o

theorem SetsUp.within {listed : List Purpose} {o : Occurrence} (sets_up : o.SetsUp listed) :
    o.Within listed := by
  cases sets_up with
  | call about failure => exact about
  | line | order => trivial

theorem Accompanies.within {app : String} {interest services : List String} {o : Occurrence}
    (accompanies : o.Accompanies app interest services) : o.Within [.app, .log, .process] := by
  cases accompanies <;> first | trivial | simp [Within, Call.purpose]

end Occurrence

variable {σ : Type} {listed : List Purpose}

theorem Attempt.Adds.asks {ε α : Type} {x : Attempt σ ε α}
    (adds : Attempt.Adds (Occurrence.SetsUp listed) x) : Attempt.Asks listed x :=
  adds.mono fun _ => Occurrence.SetsUp.within

/-! ## Building -/

theorem LogCopy.adds_step (c : LogCopy) :
    Act.Adds (Occurrence.SetsUp listed) (c.step : Act σ LogCopy) :=
  adds_step_of (fun _ key => .line key) c

namespace BuildJob

variable (scene : Scene σ) (job : BuildJob)

theorem adds_require {operation : String} {c : Call} (about : c.purpose ∈ listed) :
    Attempt.Adds (Occurrence.SetsUp listed) (require scene operation c) :=
  scene.adds_require (.call about)

theorem adds_require_build {operation : String} {c : Call} (about : c.purpose = .build) :
    Attempt.Adds (Occurrence.SetsUp [.build]) (require scene operation c) :=
  adds_require scene (List.mem_singleton.2 about)

theorem adds_waitCopying (id : String) (copy : LogCopy) :
    Attempt.Adds (Occurrence.SetsUp [.build]) (job.waitCopying scene id copy) := by
  unfold waitCopying
  have copies (c : LogCopy) (_ : True) : Act.Adds (Occurrence.SetsUp [.build])
      (c.step : Act σ LogCopy) := c.adds_step
  have polls (ticker : Ticker) : Act.Adds (Occurrence.SetsUp [.build])
      (Act.poll scene.interruption scene.platform LogCopy.step (.buildGet job.app id) outcome? ticker
        copy) := fun w =>
    (Act.adds_poll copies (fun _ _ _ => trivial) (.call (List.mem_singleton_self _)) ticker trivial w).1
  exact Attempt.adds_bind (Attempt.adds_lift Act.adds_get) fun w =>
    Attempt.adds_bind (Attempt.adds_act (polls _)) fun outcome => Attempt.adds_ofExcept _

theorem adds_begin : Attempt.Adds (Occurrence.SetsUp [.build]) (job.begin scene) :=
  job.adds_begin_of scene (fun _ key => .line key) fun _ failure about _ =>
    .call (List.mem_singleton.2 about) failure

theorem adds_buildInside : Attempt.Adds (Occurrence.SetsUp [.build]) (job.buildInside scene) := by
  rw [buildInside_eq]
  exact Attempt.adds_bind (job.adds_begin scene) fun begun =>
    Attempt.adds_bind (job.adds_waitCopying scene _ _) fun _ => adds_require_build scene rfl

theorem adds_buildImage (builder : ImageBuilder) (order : ImageOrder) :
    Attempt.Adds (Occurrence.SetsUp listed) (buildImage builder order : Attempt σ BuildError Unit) := by
  refine Attempt.adds_bind (Attempt.adds_lift fun w => ?_) fun _ => Attempt.adds_ofExcept _
  exact .one (.order order) rfl

theorem adds_buildOutside : Attempt.Adds (Occurrence.SetsUp [.build]) (job.buildOutside scene) := by
  unfold buildOutside
  split
  · exact Attempt.adds_throw _
  · exact Attempt.adds_bind (adds_require_build scene rfl) fun rack =>
      Attempt.adds_bind (adds_require_build scene rfl) fun build =>
      Attempt.adds_bind (Attempt.adds_lift scene.adds_tree) fun tree =>
      Attempt.adds_bind (Attempt.adds_ofExcept _) fun text =>
      Attempt.adds_bind (adds_require_build scene rfl) fun _ =>
      Attempt.adds_bind (Attempt.adds_ofExcept _) fun target =>
      Attempt.adds_bind (adds_buildImage _ _) fun _ =>
      Attempt.adds_bind (adds_require_build scene rfl) fun release =>
      adds_require_build scene rfl

/-- **A build asks for builds**, and promotes nothing. -/
theorem adds_build (external : Bool) :
    Attempt.Adds (Occurrence.SetsUp [.build]) (job.build scene external) := by
  unfold build
  split
  · exact job.adds_buildOutside scene
  · exact job.adds_buildInside scene

theorem adds_promote (build : Build) :
    Attempt.Adds (Occurrence.SetsUp [.promotion]) (job.promote scene build) := by
  unfold promote
  split
  · exact Attempt.adds_throw _
  · exact adds_require scene (List.mem_singleton_self _)

end BuildJob

/-! ## Setting up -/

namespace Session

variable (scene : Scene σ) (options : SessionOptions)

theorem adds_prepareApp : Attempt.Adds (Occurrence.SetsUp [.app]) (prepareApp scene options) := by
  unfold prepareApp
  refine Attempt.adds_bind (Attempt.adds_lift (Act.adds_await (.call (List.mem_singleton_self _))))
    fun answer => ?_
  split
  · split
    · exact Attempt.adds_pure _
    · exact Attempt.adds_throw _
  · exact Attempt.adds_bind (scene.adds_require (.call (List.mem_singleton_self _))) fun _ =>
      Attempt.adds_pure _
  · exact Attempt.adds_throw _

theorem adds_loadManifest : Attempt.Adds (Occurrence.SetsUp [.app]) (loadManifest scene options) := by
  unfold loadManifest
  exact Attempt.adds_bind (scene.adds_require (.call (List.mem_singleton_self _))) fun env =>
    Attempt.adds_bind (Attempt.adds_lift scene.adds_tree) fun tree =>
    Attempt.adds_bind (Attempt.adds_ofExcept _) fun manifest =>
    Attempt.adds_bind (Attempt.adds_ofExcept _) fun _ => Attempt.adds_pure _

/-- A deployment is a build and a promotion. -/
theorem adds_deploy (job : BuildJob) :
    Attempt.Adds (Occurrence.SetsUp [.build, .promotion]) (deploy scene options job) := by
  have build := (job.adds_build scene options.external).mono fun _ =>
    Occurrence.SetsUp.mono (List.cons_subset_cons _ (List.nil_subset [.promotion]))
  have promote (b : Build) := (job.adds_promote scene b).mono fun _ =>
    Occurrence.SetsUp.mono (List.subset_cons_self .build _)
  unfold deploy
  split
  · refine Attempt.adds_bind (Attempt.adds_adapt build _) fun b =>
      Attempt.adds_bind (Attempt.adds_lift scene.adds_isFired) fun fired => ?_
    split
    · exact Attempt.adds_pure _
    · exact Attempt.adds_bind (Attempt.adds_adapt (promote b) _) fun _ => Attempt.adds_pure _
  · exact Attempt.adds_pure _

/-- To resolve a service leaves nothing behind. -/
theorem adds_resolveService {kind : Occurrence → Prop} (service : Service) :
    Attempt.Adds kind (resolveService scene options service) := by
  unfold resolveService
  exact Attempt.adds_bind (Attempt.adds_lift scene.adds_tree) fun tree =>
    Attempt.adds_bind (Attempt.adds_ofExcept _) fun sources =>
    Attempt.adds_bind (Attempt.adds_ofExcept _) fun rules => Attempt.adds_pure _

theorem adds_resolveServices {kind : Occurrence → Prop} (manifest : Manifest)
    (interest : List String) :
    Attempt.Adds kind (resolveServices scene options manifest interest) :=
  Attempt.adds_mapM fun service _ => adds_resolveService scene options service

end Session

/-! ## Following the log -/

namespace Follower

variable {interest services : List String}

theorem adds_rest {kind : Occurrence → Prop} (f : Follower) :
    Act.Adds kind (f.rest : Act σ Follower) :=
  Act.adds_bind Act.adds_get fun _ => Act.adds_pure _

theorem adds_receive {kind : Occurrence → Prop} (f : Follower)
    (answer : Except PlatformError LogStream) (arrival : Nat) :
    Act.Adds kind (f.receive answer arrival : Act σ Follower) := by
  cases answer with
  | ok stream => exact Act.adds_pure _
  | error e => exact f.adds_rest

theorem adds_take (f : Follower) (tail : Tail) :
    Act.Adds (Occurrence.Accompanies f.app f.interest services) (f.take tail : Act σ Follower) := by
  unfold take
  refine Act.adds_bind Act.adds_get fun w => ?_
  split
  · exact Act.adds_bind (Act.adds_displayAll fun l member =>
      .entry (LogEntry.show?_key (Option.mem_toList.1 member))) fun _ => Act.adds_pure _
  · exact Act.adds_pure _
  · exact Act.adds_bind (Act.adds_display (.overlong _)) fun _ => f.adds_rest
  · exact f.adds_rest

/-- A follower asks for the log. -/
theorem adds_turn (platform : Platform σ) (signal : Cancellation) (f : Follower)
    (services : List String) :
    Act.Adds (Occurrence.Accompanies f.app f.interest services) (f.turn platform signal) := by
  unfold turn
  split
  · exact Act.adds_pure _
  · split
    · refine Act.adds_bind Act.adds_get fun w => ?_
      split
      · exact Act.adds_pure _
      · exact Act.adds_bind Act.adds_lasting fun time => Act.adds_bind (Act.adds_call .log) fun answer =>
          Act.adds_bind Act.adds_get fun _ => Act.adds_pure _
    · refine Act.adds_bind Act.adds_get fun w => ?_
      split
      · exact Act.adds_pure _
      · exact f.adds_receive _ _
    · exact f.adds_take _
    · exact Act.adds_pure _

/-- A follower stays one of the same app, for the same names. -/
theorem same_of_turn (platform : Platform σ) (signal : Cancellation) (f : Follower) (w : World σ) :
    (f.turn platform signal w).1.app = f.app ∧ (f.turn platform signal w).1.interest = f.interest := by
  cases released : signal.released with
  | true =>
      rw [turn_of_released platform released]
      exact ⟨rfl, rfl⟩
  | false =>
      obtain ⟨phase, w', came, -⟩ := turn_cases platform released f w
      rw [came]
      exact ⟨rfl, rfl⟩

/-- **What a follower does at one time** is to ask for the log and to show it, and it stays what it
is for. -/
theorem adds_stepUntil (platform : Platform σ) (i : Interruption) (services : List String) (f : Follower)
    (w : World σ) :
    let out := f.stepUntil platform i w
    World.Adds (Occurrence.Accompanies f.app f.interest services) w out.2 ∧
      out.1.app = f.app ∧ out.1.interest = f.interest := by
  induction f, w using stepUntil.induct platform i with
  | case1 f w next w' came closer ih =>
      have first := f.adds_turn platform (i.signal w.now) services w
      obtain ⟨same_app, same_interest⟩ := f.same_of_turn platform (i.signal w.now) w
      rw [came] at first same_app same_interest
      dsimp only at first same_app same_interest
      rw [same_app, same_interest] at ih
      rw [stepUntil_of_closer came closer]
      exact ⟨first.trans ih.1, ih.2⟩
  | case2 f w next w' came farther =>
      have first := f.adds_turn platform (i.signal w.now) services w
      have same := f.same_of_turn platform (i.signal w.now) w
      rw [stepUntil_of_farther came farther]
      rw [came] at first same
      exact ⟨first, same⟩

end Follower

/-! ## Syncing -/

namespace Sync

variable (platform : Platform σ) {app : String} {interest services : List String}

theorem adds_resolveRemote (app pid remote : String) :
    Attempt.Adds (Occurrence.Accompanies app interest services)
      (resolveRemote platform app pid remote) := by
  unfold resolveRemote
  split
  · exact Attempt.adds_pure _
  · refine Attempt.adds_bind (Attempt.adds_lift (Act.adds_call (.enter _ _))) fun answer => ?_
    cases answer with
    | ok dir => exact Attempt.adds_pure _
    | error e => exact Attempt.adds_throw _

theorem adds_handleAdds (disk : Disk) (app pid remote : String) (adds : List Change) :
    Attempt.Adds (Occurrence.Accompanies app interest services)
      (handleAdds platform disk app pid remote adds) := by
  unfold handleAdds
  split
  · exact Attempt.adds_pure _
  · refine Attempt.adds_bind (Attempt.adds_lift (Act.adds_call (.upload _))) fun answer => ?_
    split
    · exact Attempt.adds_lift (Act.adds_modify fun _ => rfl)
    · exact Attempt.adds_throw _
    · exact Attempt.adds_throw _

theorem adds_handleRemoves (app pid remote : String) (removes : List Change) :
    Attempt.Adds (Occurrence.Accompanies app interest services)
      (handleRemoves platform app pid remote removes) := by
  unfold handleRemoves
  split
  · exact Attempt.adds_pure _
  · refine Attempt.adds_bind (Attempt.adds_lift (Act.adds_call (.delete _ _))) fun answer => ?_
    cases answer with
    | ok => exact Attempt.adds_pure _
    | error e => exact Attempt.adds_throw _

theorem adds_reportFailure {α : Type} (context : String) (r : Except SyncError α) :
    Act.Adds (Occurrence.Accompanies app interest services)
      (reportFailure context r : Act σ Unit) := by
  cases r with
  | ok a => exact Act.adds_pure _
  | error e => exact Act.adds_report (.report _)

theorem mem_announcements {head direction service : String} {source : Source}
    {changes : List Change} {message : String}
    (member : message ∈ announcements head direction service source changes) :
    ∃ subject, message = announcement head subject direction service source := by
  unfold announcements at member
  split at member
  · exact ⟨_, List.mem_singleton.1 member⟩
  · obtain ⟨c, -, rfl⟩ := List.mem_map.1 member
    exact ⟨_, rfl⟩

theorem adds_announcements {head : String} (known : head = "sync" ∨ head = "remove")
    {service : String} (serves : service ∈ services) (direction : String) (source : Source)
    (changes : List Change) :
    Act.Adds (Occurrence.Accompanies app interest services)
      (Act.displayAll ((announcements head direction service source changes).map Console.control) :
        Act σ Unit) := by
  refine Act.adds_displayAll fun l member => ?_
  obtain ⟨message, announced, rfl⟩ := List.mem_map.1 member
  obtain ⟨subject, rfl⟩ := mem_announcements announced
  exact .announce known subject direction serves source

theorem adds_applyTo (disk : Disk) (app : String) {service : String} (serves : service ∈ services)
    (source : Source) (adds removes : List Change) (process : Container) :
    Act.Adds (Occurrence.Accompanies app interest services)
      (applyTo platform disk app service source adds removes process) := by
  unfold applyTo
  refine Act.adds_bind (adds_resolveRemote platform app process.id source.remote) fun found => ?_
  cases found with
  | error e => exact Act.adds_report (.report _)
  | ok remote =>
      exact Act.adds_bind (adds_announcements (.inl rfl) serves _ _ _) fun _ =>
        Act.adds_bind (adds_handleAdds platform disk app process.id remote adds) fun uploaded =>
        Act.adds_bind (adds_reportFailure _ uploaded) fun _ =>
        Act.adds_bind (adds_announcements (.inr rfl) serves _ _ _) fun _ =>
        Act.adds_bind (adds_handleRemoves platform app process.id remote removes) fun deleted =>
        adds_reportFailure _ deleted

theorem adds_apply (disk : Disk) (app : String) {service : String} (serves : service ∈ services)
    (source : Source) (adds removes : List Change) :
    Act.Adds (Occurrence.Accompanies app interest services)
      (apply platform disk app service source adds removes) := by
  unfold apply
  split
  · exact Act.adds_pure _
  · refine Act.adds_bind (Act.adds_call (.list serves)) fun answer => ?_
    cases answer with
    | error e => exact Act.adds_report (.report _)
    | ok processes =>
        exact Act.adds_forM fun process _ =>
          adds_applyTo platform disk app serves source adds removes process

namespace Watcher

variable (scene : Scene σ) {w : Watcher}

theorem adds_begin (serves : w.service ∈ services) :
    Act.Adds (Occurrence.Accompanies w.app interest services) (w.begin scene) := by
  unfold begin
  refine Act.adds_bind (Act.adds_display (.start serves)) fun _ =>
    Act.adds_bind scene.adds_tree fun tree => ?_
  split
  · exact Act.adds_bind Act.adds_get fun _ => Act.adds_pure _
  · exact Act.adds_bind (Act.adds_report (.report _)) fun _ => Act.adds_pure _

/-- A watcher asks for processes of its service. -/
theorem adds_step (serves : w.service ∈ services) :
    Act.Adds (Occurrence.Accompanies w.app interest services) (w.step scene) := by
  unfold step
  refine Act.adds_bind Act.adds_get fun now => Act.adds_bind scene.adds_tree fun tree => ?_
  split
  · exact Act.adds_pure _
  · exact adds_begin scene serves
  · dsimp only
    split
    · exact Act.adds_pure _
    · split
      · exact Act.adds_pure _
      · exact Act.adds_bind (adds_apply _ _ _ serves _ _ _) fun _ => Act.adds_pure _

/-- A watcher stays one for the same service of the same app. -/
theorem gives_step (w : Watcher) :
    Act.Gives (fun w' => w'.app = w.app ∧ w'.service = w.service) (w.step scene) := by
  unfold step
  refine Act.gives_bind fun now => Act.gives_bind fun tree => ?_
  split
  · exact Act.gives_pure ⟨rfl, rfl⟩
  · refine Act.gives_bind fun _ => Act.gives_bind fun tree => ?_
    split
    · exact Act.gives_bind fun _ => Act.gives_pure ⟨rfl, rfl⟩
    · exact Act.gives_bind fun _ => Act.gives_pure ⟨rfl, rfl⟩
  · dsimp only
    split
    · exact Act.gives_pure ⟨rfl, rfl⟩
    · split
      · exact Act.gives_pure ⟨rfl, rfl⟩
      · exact Act.gives_bind fun _ => Act.gives_pure ⟨rfl, rfl⟩

end Watcher

end Sync

/-! ## Following the app -/

namespace Session

variable (scene : Scene σ) (options : SessionOptions) (timings : Timings)

/-- What goes on beside a session is for the log of an app, for some names of interest, and for some
services of the app. -/
structure TasksFor (app : String) (interest services : List String) (t : Tasks) : Prop where
  of_app : t.follower.app = app
  of_interest : t.follower.interest = interest
  serve : ∀ w ∈ t.watchers, w.app = app ∧ w.service ∈ services

variable {app : String} {interest services : List String} {t : Tasks}

theorem tasksFor_tasks (interest : List String) {plans : List SyncPlan}
    (serve : ∀ p ∈ plans, p.service ∈ services) :
    TasksFor options.app interest services (tasks options timings interest plans) := by
  refine ⟨rfl, rfl, fun w member => ?_⟩
  obtain ⟨p, planned, member⟩ := List.mem_flatMap.1 member
  obtain ⟨source, -, rfl⟩ := List.mem_map.1 member
  exact ⟨rfl, serve p planned⟩

theorem adds_stepTasks (tasks : TasksFor app interest services t) :
    Act.Adds (Occurrence.Accompanies app interest services) (stepTasks scene t) := by
  obtain ⟨rfl, rfl, serve⟩ := tasks
  unfold stepTasks
  refine Act.adds_bind (fun w => (t.follower.adds_stepUntil scene.platform _ _ w).1) fun follower =>
    Act.adds_bind scene.adds_isReleased fun released => ?_
  split
  · exact Act.adds_pure _
  · refine Act.adds_bind (Act.adds_mapM fun w member => ?_) fun watchers =>
      Act.adds_bind (Act.adds_displayReports .tell) fun _ => Act.adds_pure _
    obtain ⟨same, serves⟩ := serve w member
    rw [← same]
    exact Sync.Watcher.adds_step scene serves

/-- The tasks stay what they are for. -/
theorem gives_stepTasks (tasks : TasksFor app interest services t) :
    Act.Gives (TasksFor app interest services) (stepTasks scene t) := by
  intro w
  obtain ⟨rfl, rfl, serve⟩ := tasks
  obtain ⟨-, same_app, same_interest⟩ :=
    t.follower.adds_stepUntil scene.platform scene.interruption services w
  rw [stepTasks, Act.bind_apply]
  generalize t.follower.stepUntil scene.platform scene.interruption w = followed at same_app same_interest
  rw [Act.bind_apply]
  split
  · exact ⟨same_app, same_interest, serve⟩
  · refine ⟨same_app, same_interest, fun watcher member => ?_⟩
    obtain ⟨before, known, w', rfl⟩ := Act.exists_of_mem_mapM member
    obtain ⟨same, same_service⟩ := before.gives_step scene w'
    rw [same, same_service]
    exact serve before known

/-- **To follow an app is to ask for it, its log and the processes of the services that are
synced.** -/
theorem adds_follow (tasks : TasksFor options.app interest services t) :
    Attempt.Adds (Occurrence.Accompanies options.app interest services)
      (follow scene options timings t) := by
  have beside (t : Tasks) (tasks : TasksFor options.app interest services t) :=
    adds_stepTasks scene tasks
  have stays (t : Tasks) (tasks : TasksFor options.app interest services t) :=
    gives_stepTasks scene tasks
  intro w
  obtain ⟨waited, still⟩ := Act.adds_poll beside stays Occurrence.Accompanies.look
    (.startingAt w.now timings.appPoll) tasks w
  refine waited.trans ?_
  exact Attempt.adds_bind (Attempt.adds_ofExcept _) (fun _ =>
    Attempt.adds_bind (Attempt.adds_act (Act.adds_passUntil beside stays _ still)) fun _ =>
    Attempt.adds_pure _) _

end Session

end DevMode
