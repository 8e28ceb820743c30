/-
# DevMode.Proofs.Setup -- what a failed setup leaves behind

A session prepares its app, reads its manifest, builds and promotes, and resolves what is to be
synced, one service after the other.  Whatever of this fails ends the session before anything is
started that goes on beside it.

* `SetupFails` is a failure in one of the parts, the parts before it having gone well; in resolving,
  it is the failure of one service after others have been resolved.
* `run_failed_iff`: every failure of a session is one of its setup or comes after it.
* `setup_failure_starts_nothing`: after a failed setup no log was asked for, no process was asked for
  or touched, and no line told of a sync; and in every run what is resolved or watched is a service
  of the manifest that is followed and has no image of its own.
-/
import DevMode.Proofs.Teardown

namespace DevMode

set_option autoImplicit false

/-! ## Lines that tell of a sync -/

namespace Sync

/-- How a line begins that tells that a source is synced from now on. -/
def startLead : List Char := ['s', 't', 'a', 'r', 't', 'i', 'n', 'g', ' ', 's', 'y', 'n', 'c', ' ']

end Sync

/-- A line of the session itself that tells that a source is synced from now on. -/
def Line.StartsSync (l : Line) : Prop :=
  l.key = Console.controlTag ∧ Sync.startLead <+: l.message.toList

/-- A message that begins otherwise tells of nothing the like. -/
theorem Console.not_startsSync (lead : List Char) {message : String}
    (begins : lead <+: message.toList)
    (differs : ¬ lead <+: Sync.startLead ∧ ¬ Sync.startLead <+: lead) :
    ¬ (Console.control message).StartsSync := by
  rintro ⟨-, starts⟩
  rw [Console.control, Console.line, Console.trimMessage, String.toList_ofList] at starts
  rcases List.prefix_or_prefix_of_prefix begins (starts.trans (Text.trimEnd_prefix _ _)) with
    shorter | longer
  · exact differs.1 shorter
  · exact differs.2 longer

namespace Sync

theorem startsSync_startLine (w : Watcher) : w.startLine.StartsSync := by
  have ending : ("starting sync from <dir>" ++ w.shownSource ++ "</dir> to <dir>" ++
      w.source.remoteLabel ++ "</dir> on <service>" ++ w.service ++ "</service>").toList =
      ("starting sync from <dir>" ++ w.shownSource ++ "</dir> to <dir>" ++ w.source.remoteLabel ++
        "</dir> on <service>" ++ w.service ++ "</service").toList ++ ['>'] := by simp
  rw [Watcher.startLine, Console.control_of_concat ending (by decide)]
  exact ⟨rfl, by simp [startLead]⟩

theorem not_startsSync_announcement {head : String} (known : head = "sync" ∨ head = "remove")
    (subject direction service : String) (source : Source) :
    ¬ (Console.control (announcement head subject direction service source)).StartsSync := by
  rcases known with rfl | rfl
  · exact Console.not_startsSync ['s', 'y'] (by simp [announcement]) (by decide)
  · exact Console.not_startsSync ['r'] (by simp [announcement]) (by decide)

end Sync

theorem Report.not_startsSync_line (r : Report) : ¬ r.line.StartsSync :=
  Console.not_startsSync ['<'] (by simp) (by decide)

theorem LogEntry.not_startsSync_scanFailure (limit : Nat) : ¬ (scanFailure limit).StartsSync :=
  Console.not_startsSync ['s', 'c'] (by simp) (by decide)

/-! ## What is done for some services -/

/-- Processes are listed for some services only, and lines tell of a sync of theirs only.  The log
of a service of interest is shown as it is, even if its name is the key of the session itself. -/
def Occurrence.Serves (interest services : List String) : Occurrence → Prop
  | called (.processList _ service?) _ => ∃ service ∈ services, service? = some service
  | shown l => l.StartsSync → Console.controlTag ∈ interest ∨
      ∃ w : Sync.Watcher, w.service ∈ services ∧ l = w.startLine
  | _ => True

namespace Occurrence

variable {interest services : List String} {o : Occurrence}

theorem SetsUp.purpose {listed : List Purpose} {c : Call} {failure : Option PlatformError}
    (sets_up : (called c failure).SetsUp listed) : c.purpose ∈ listed := by
  cases sets_up with
  | call about => exact about

theorem SetsUp.not_startsSync {listed : List Purpose} {l : Line}
    (sets_up : (shown l).SetsUp listed) : ¬ l.StartsSync := by
  rintro ⟨control, -⟩
  cases sets_up with
  | line key => exact absurd (key.symm.trans control) (by decide)

theorem SetsUp.serves {listed : List Purpose} (sets_up : o.SetsUp listed)
    (not_process : .process ∉ listed) : o.Serves interest services := by
  cases sets_up with
  | @call c about failure => cases c <;> first | exact absurd about not_process | trivial
  | line key =>
      have sets_up : (shown _).SetsUp listed := .line key
      exact fun tells => absurd tells sets_up.not_startsSync
  | order o => trivial

theorem Accompanies.serves {app : String} (accompanies : o.Accompanies app interest services) :
    o.Serves interest services := by
  cases accompanies with
  | look | log | enter | upload | delete | report => trivial
  | entry routed =>
      rintro ⟨control, -⟩
      exact .inl (control ▸ routed)
  | overlong limit => exact fun tells => absurd tells (LogEntry.not_startsSync_scanFailure limit)
  | start serves => exact fun _ => .inr ⟨_, serves, rfl⟩
  | list serves failure => exact ⟨_, serves, rfl⟩
  | announce known subject direction serves source =>
      exact fun tells => absurd tells (Sync.not_startsSync_announcement known _ _ _ _)
  | tell r => exact fun tells => absurd tells r.not_startsSync_line

end Occurrence

namespace World

variable {σ : Type} {w : World σ}

theorem Adds.called {kind : Occurrence → Prop} {s : σ} (adds : Adds kind (start s) w) {c : Call}
    (member : c ∈ w.calls) : ∃ failure, kind (.called c failure) := by
  obtain ⟨⟨time, o⟩, happened, found⟩ := List.mem_filterMap.1 member
  cases o with
  | called c' failure =>
      obtain rfl := Option.some.inj found
      exact ⟨failure, adds.past (List.mem_reverse.1 happened)⟩
  | shown | reported | imageBuilt => cases found

theorem Adds.shown {kind : Occurrence → Prop} {s : σ} (adds : Adds kind (start s) w) {l : Line}
    (member : l ∈ w.lines) : kind (.shown l) := by
  obtain ⟨⟨time, o⟩, happened, found⟩ := List.mem_filterMap.1 member
  cases o with
  | shown l' =>
      obtain rfl := Option.some.inj found
      exact adds.past (List.mem_reverse.1 happened)
  | called | reported | imageBuilt => cases found

end World

/-! ## Setups -/

namespace Session

variable {σ : Type} (scene : Scene σ) (options : SessionOptions) (timings : Timings)

/-- The services that are resolved, in their order. -/
def followed (manifest : Manifest) : List Service :=
  manifest.services.filter fun s =>
    (manifest.interest options.services).contains s.name && s.isSourceBuilt

/-- A name is that of a service of the manifest that is followed and has no image of its own. -/
def Follows (manifest : Manifest) (name : String) : Prop :=
  ∃ s ∈ manifest.services, s.name = name ∧ name ∈ manifest.interest options.services ∧ s.image = none

theorem follows_of_followed {manifest : Manifest} {s : Service} (member : s ∈ followed options manifest) :
    Follows options manifest s.name := by
  obtain ⟨known, wanted⟩ := List.mem_filter.1 member
  obtain ⟨of_interest, built⟩ := Bool.and_eq_true_iff.1 wanted
  have imageless : s.image.isNone = true := (Bool.and_eq_true_iff.1 built).1
  exact ⟨s, known, rfl, List.contains_iff_mem.1 of_interest, Option.isNone_iff_eq_none.1 imageless⟩

/-- **How a setup fails**: for want of an app, or in one of its parts, in the world that the parts
before it lead to. -/
inductive SetupFails (w : World σ) : SessionError → World σ → Prop where
  | unnamed (going : scene.interruption.fired w.now = false) (unnamed : options.app = "") :
      SetupFails w .appRequired w
  | preparing {e : SessionError} {w' : World σ} (going : scene.interruption.fired w.now = false)
      (named : options.app ≠ "") (broken : prepareApp scene options w = (.error e, w')) :
      SetupFails w e w'
  | loading {e : SessionError} {w₁ w' : World σ} (going : scene.interruption.fired w.now = false)
      (named : options.app ≠ "") (prepared : prepareApp scene options w = (.ok (), w₁))
      (broken : loadManifest scene options w₁ = (.error e, w')) : SetupFails w e w'
  | building {manifest : Manifest} {e : BuildError} {w₁ w' : World σ}
      (loads : Loads scene options w manifest w₁) (builds : options.build = true)
      (broken : (job options timings).build scene options.external w₁ = (.error e, w')) :
      SetupFails w (.build e) w'
  | promoting {manifest : Manifest} {build : Build} {e : BuildError} {w₁ w₂ w' : World σ}
      (loads : Loads scene options w manifest w₁) (builds : options.build = true)
      (built : (job options timings).build scene options.external w₁ = (.ok build, w₂))
      (going : scene.interruption.fired w₂.now = false)
      (broken : (job options timings).promote scene build w₂ = (.error e, w')) :
      SetupFails w (.build e) w'
  | resolving {manifest : Manifest} {done rest : List Service} {service : Service}
      {resolved : List SyncPlan} {e : SessionError} {w₁ w₂ w₃ w' : World σ}
      (loads : Loads scene options w manifest w₁)
      (deployed : deploy scene options (job options timings) w₁ = (.ok true, w₂))
      (syncs : options.sync = true) (in_order : followed options manifest = done ++ service :: rest)
      (before : done.mapM (resolveService scene options) w₂ = (.ok resolved, w₃))
      (broken : resolveService scene options service w₃ = (.error e, w')) : SetupFails w e w'

/-- A setup has gone well: these are the plans. -/
def SetUp (w : World σ) (manifest : Manifest) (ps : List SyncPlan) (w' : World σ) : Prop :=
  ∃ w₁ w₂, Loads scene options w manifest w₁ ∧
    deploy scene options (job options timings) w₁ = (.ok true, w₂) ∧
    plans scene options manifest w₂ = (.ok ps, w')

/-- What follows on a setup. -/
def afterSetup (manifest : Manifest) (ps : List SyncPlan) : Attempt σ SessionError Unit := do
  follow scene options timings (tasks options timings (manifest.interest options.services) ps)
  tearDown scene options (job options timings)

variable {scene options timings} {w w₁ w₂ w' : World σ} {e : SessionError} {manifest : Manifest}

theorem deploy_failed_iff {job : BuildJob} :
    deploy scene options job w = (.error e, w') ↔ options.build = true ∧ ∃ e', e = .build e' ∧
      (job.build scene options.external w = (.error e', w') ∨
        ∃ build w₁, job.build scene options.external w = (.ok build, w₁) ∧
          scene.interruption.fired w₁.now = false ∧ job.promote scene build w₁ = (.error e', w')) := by
  have ends (outcome : Bool) (w₁ : World σ) :
      (pure outcome : Attempt σ SessionError Bool) w₁ ≠ (.error e, w') := Attempt.pure_ne_failed
  have promoting (build : Build) (w₁ : World σ) :
      (liftM scene.isFired >>= fun fired => if fired then pure false else
        ExceptT.adapt .build (job.promote scene build) >>= fun _ => pure true :
          Attempt σ SessionError Bool) w₁ = (.error e, w') ↔
        scene.interruption.fired w₁.now = false ∧
          ∃ e', e = .build e' ∧ job.promote scene build w₁ = (.error e', w') := by
    rw [Attempt.bind_lift, Scene.isFired_apply]
    cases scene.interruption.fired w₁.now with
    | true => simpa using ends false w₁
    | false =>
        simp only [Bool.false_eq_true, if_false, Attempt.bind_failed_iff, Attempt.adapt_failed_iff, ends]
        simp [and_comm]
  unfold deploy
  by_cases builds : options.build = true
  case neg => simpa [builds] using ends true w
  simp only [builds, if_true, true_and]
  rw [Attempt.bind_failed_iff, Attempt.adapt_failed_iff]
  constructor
  · rintro (⟨e', broken, rfl⟩ | ⟨build, w₁, built, rest⟩)
    · exact ⟨e', rfl, .inl broken⟩
    · obtain ⟨going, e', rfl, broken⟩ := (promoting build w₁).1 rest
      exact ⟨e', rfl, .inr ⟨build, w₁, Attempt.adapt_went built, going, broken⟩⟩
  · rintro ⟨e', rfl, broken | ⟨build, w₁, built, going, broken⟩⟩
    · exact .inl ⟨e', broken, rfl⟩
    · refine .inr ⟨build, w₁, ?_, (promoting build w₁).2 ⟨going, e', rfl, broken⟩⟩
      rw [Attempt.adapt_apply, built]
      rfl

theorem plans_failed_iff :
    plans scene options manifest w = (.error e, w') ↔ options.sync = true ∧
      ∃ done service rest resolved w₁, followed options manifest = done ++ service :: rest ∧
        done.mapM (resolveService scene options) w = (.ok resolved, w₁) ∧
        resolveService scene options service w₁ = (.error e, w') := by
  unfold plans
  split
  case isTrue syncs => simp only [syncs, true_and, resolveServices, Attempt.mapM_failed_iff, followed]
  case isFalse idle => simpa [idle] using Attempt.pure_ne_failed

theorem accompany_then (manifest : Manifest) :
    (accompany scene options timings manifest >>= fun _ =>
      tearDown scene options (job options timings)) =
      plans scene options manifest >>= afterSetup scene options timings manifest :=
  bind_assoc _ _ _

/-- What a session does once it goes by a manifest. -/
theorem Loads.run_eq (loads : Loads scene options w manifest w') :
    run scene options timings w = (do
      if ← deploy scene options (job options timings) then
        accompany scene options timings manifest
        tearDown scene options (job options timings) : Attempt σ SessionError Unit) w' := by
  obtain ⟨going, named, w₁, prepared, read⟩ := loads
  rw [run_of_going scene options timings going named, Attempt.bind_of_apply prepared]
  exact Attempt.bind_of_apply read _

/-- What a session does once its app is built and promoted. -/
theorem Loads.run_of_deployed (loads : Loads scene options w manifest w₁)
    (deployed : deploy scene options (job options timings) w₁ = (.ok true, w₂)) :
    run scene options timings w =
      (plans scene options manifest >>= afterSetup scene options timings manifest) w₂ := by
  rw [loads.run_eq, ← accompany_then]
  exact Attempt.bind_of_apply deployed _

/-- A session whose setup has gone well goes on with what follows on it. -/
theorem SetUp.run_eq {ps : List SyncPlan} (set_up : SetUp scene options timings w manifest ps w') :
    run scene options timings w = afterSetup scene options timings manifest ps w' := by
  obtain ⟨w₁, w₂, loads, deployed, planned⟩ := set_up
  rw [loads.run_of_deployed deployed]
  exact Attempt.bind_of_apply planned _

/-- A session ends with the failure of its setup. -/
theorem SetupFails.run_eq (fails : SetupFails scene options timings w e w') :
    run scene options timings w = (.error e, w') := by
  cases fails with
  | unnamed going named => exact run_of_unnamed scene options timings going named
  | preparing going named broken =>
      rw [run_of_going scene options timings going named]
      exact Attempt.bind_failed_iff.2 (.inl broken)
  | @loading _ w₁ _ going named prepared broken =>
      rw [run_of_going scene options timings going named]
      exact Attempt.bind_failed_iff.2 (.inr ⟨(), w₁, prepared,
        Attempt.bind_failed_iff.2 (.inl broken)⟩)
  | @building manifest e w₁ _ loads builds broken =>
      rw [loads.run_eq]
      exact Attempt.bind_failed_iff.2 (.inl (deploy_failed_iff.2 ⟨builds, e, rfl, .inl broken⟩))
  | promoting loads builds built going broken =>
      rw [loads.run_eq]
      exact Attempt.bind_failed_iff.2 (.inl (deploy_failed_iff.2
        ⟨builds, _, rfl, .inr ⟨_, _, built, going, broken⟩⟩))
  | resolving loads deployed syncs in_order before broken =>
      rw [loads.run_of_deployed deployed]
      exact Attempt.bind_failed_iff.2 (.inl (plans_failed_iff.2
        ⟨syncs, _, _, _, _, _, in_order, before, broken⟩))

/-- A session that goes by a manifest fails in its setup, or once it is set up. -/
theorem Loads.failed (loads : Loads scene options w manifest w₁)
    (failed : run scene options timings w = (.error e, w')) :
    SetupFails scene options timings w e w' ∨ ∃ ps w₃,
      SetUp scene options timings w manifest ps w₃ ∧
        afterSetup scene options timings manifest ps w₃ = (.error e, w') := by
  have parts := failed
  rw [loads.run_eq] at parts
  rcases Attempt.bind_failed parts with broken | ⟨went, w₂, deployed, parts⟩
  · obtain ⟨builds, e', rfl, broken | ⟨build, w₂, built, going, broken⟩⟩ :=
      deploy_failed_iff.1 broken
    · exact .inl (.building loads builds broken)
    · exact .inl (.promoting loads builds built going broken)
  cases went with
  | false => exact absurd parts Attempt.pure_ne_failed
  | true =>
      rw [loads.run_of_deployed deployed] at failed
      rcases Attempt.bind_failed failed with broken | ⟨ps, w₃, planned, failed⟩
      · obtain ⟨syncs, done, service, rest, resolved, w₃, in_order, before, broken⟩ :=
          plans_failed_iff.1 broken
        exact .inl (.resolving loads deployed syncs in_order before broken)
      · exact .inr ⟨ps, w₃, ⟨w₁, w₂, loads, deployed, planned⟩, failed⟩

/-- **Every failure of a session is one of its setup, or comes after it.** -/
theorem run_failed_iff :
    run scene options timings w = (.error e, w') ↔
      SetupFails scene options timings w e w' ∨ ∃ manifest ps w₁,
        SetUp scene options timings w manifest ps w₁ ∧
          afterSetup scene options timings manifest ps w₁ = (.error e, w') := by
  constructor
  · intro failed
    by_cases stopped : scene.interruption.fired w.now = true
    · rw [run_of_fired scene options timings stopped] at failed
      cases congrArg Prod.fst failed
    have going : scene.interruption.fired w.now = false := by simpa using stopped
    by_cases named : options.app = ""
    · rw [run_of_unnamed scene options timings going named] at failed
      obtain ⟨same, rfl⟩ := Prod.mk.inj failed
      obtain rfl := Except.error.inj same
      exact .inl (.unnamed going named)
    have parts := failed
    rw [run_of_going scene options timings going named] at parts
    rcases Attempt.bind_failed parts with broken | ⟨_, w₁, prepared, parts⟩
    · exact .inl (.preparing going named broken)
    rcases Attempt.bind_failed parts with broken | ⟨manifest, w₂, read, -⟩
    · exact .inl (.loading going named prepared broken)
    have loads : Loads scene options w manifest w₂ := ⟨going, named, w₁, prepared, read⟩
    exact (loads.failed failed).imp_right fun ⟨ps, w₃, late⟩ => ⟨manifest, ps, w₃, late⟩
  · rintro (fails | ⟨manifest, ps, w₁, set_up, failed⟩)
    · exact fails.run_eq
    · rw [set_up.run_eq, failed]

/-- **A failed setup leaves behind what a setup does**, and nothing of what goes on beside a session. -/
theorem SetupFails.adds (fails : SetupFails scene options timings w e w') :
    World.Adds (Occurrence.SetsUp [.app, .build, .promotion]) w w' := by
  have widen {few : List Purpose} (more : few ⊆ [.app, .build, .promotion]) {w w' : World σ}
      (adds : World.Adds (Occurrence.SetsUp few) w w') :
      World.Adds (Occurrence.SetsUp [.app, .build, .promotion]) w w' :=
    adds.mono fun _ => Occurrence.SetsUp.mono more
  cases fails with
  | unnamed => exact .refl w
  | preparing going named broken =>
      exact widen (by simp) ((adds_prepareApp scene options).of_apply broken)
  | loading going named prepared broken =>
      exact widen (by simp) (((adds_prepareApp scene options).of_apply prepared).trans
        ((adds_loadManifest scene options).of_apply broken))
  | building loads builds broken =>
      exact (widen (by simp) loads.adds).trans
        (widen (by simp) (((job options timings).adds_build scene options.external).of_apply broken))
  | promoting loads builds built going broken =>
      exact ((widen (by simp) loads.adds).trans
        (widen (by simp) (((job options timings).adds_build scene options.external).of_apply built))).trans
        (widen (by simp) (((job options timings).adds_promote scene _).of_apply broken))
  | resolving loads deployed syncs in_order before broken =>
      have resolves (s : Service) : Attempt.Adds (Occurrence.SetsUp [.app, .build, .promotion])
          (resolveService scene options s) := adds_resolveService scene options s
      exact (((widen (by simp) loads.adds).trans
        (widen (by simp) ((adds_deploy scene options (job options timings)).of_apply deployed))).trans
        ((Attempt.adds_mapM fun s _ => resolves s).of_apply before)).trans
        ((resolves _).of_apply broken)

/-! ## What is resolved and watched -/

theorem resolveService_went {service : Service} {plan : SyncPlan}
    (went : resolveService scene options service w = (.ok plan, w')) : plan.service = service.name := by
  obtain ⟨tree, w₁, -, went⟩ := Attempt.bind_went went
  obtain ⟨sources, w₂, -, went⟩ := Attempt.bind_went went
  obtain ⟨rules, w₃, -, went⟩ := Attempt.bind_went went
  obtain rfl := Except.ok.inj (congrArg Prod.fst went)
  rfl

/-- What is planned is planned for a service that is followed. -/
theorem followed_of_plans {ps : List SyncPlan} (went : plans scene options manifest w = (.ok ps, w'))
    {p : SyncPlan} (planned : p ∈ ps) : p.service ∈ (followed options manifest).map Service.name := by
  unfold plans at went
  split at went
  case isTrue =>
    obtain ⟨s, member, w₁, w₂, resolved⟩ := Attempt.exists_of_mem_mapM went planned
    exact List.mem_map.2 ⟨s, member, (resolveService_went resolved).symm⟩
  case isFalse =>
    obtain rfl := Except.ok.inj (congrArg Prod.fst went)
    cases planned

theorem adds_accompany (manifest : Manifest) : Attempt.Adds
    (Occurrence.Accompanies options.app (manifest.interest options.services)
      ((followed options manifest).map Service.name)) (accompany scene options timings manifest) := by
  intro w
  rcases Attempt.bind_cases (plans scene options manifest) _ w with
    ⟨e, w₁, failed, out⟩ | ⟨ps, w₁, went, out⟩
  · rw [accompany, out]
    exact (adds_plans scene options manifest).of_apply failed
  · rw [accompany, out]
    have tasks := tasksFor_tasks options timings (manifest.interest options.services)
      fun p planned => followed_of_plans went planned
    exact ((adds_plans scene options manifest).of_apply went).trans
      (adds_follow scene options timings tasks w₁)

theorem adds_tearDown {interest services : List String} (job : BuildJob) :
    Attempt.Adds (Occurrence.Serves interest services) (tearDown scene options job) := by
  unfold tearDown
  refine Attempt.adds_bind (Attempt.adds_lift (Act.adds_call fun _ => trivial)) fun answer => ?_
  cases answer with
  | error e => exact Attempt.adds_pure _
  | ok app =>
      have stopping : ¬ (Console.control "stopping").StartsSync :=
        Console.not_startsSync ['s', 't', 'o'] (by simp) (by decide)
      refine Attempt.adds_bind (Attempt.adds_act (Act.adds_display fun tells => absurd tells stopping))
        fun _ => ?_
      split
      · exact Attempt.adds_pure _
      · exact Attempt.adds_adapt (scene.adds_require fun _ => trivial) _

/-- **A session that goes by a manifest serves what is followed of it**, and one that does not get as
far leaves behind what a setup does. -/
theorem run_serves (w : World σ) :
    World.Adds (Occurrence.SetsUp [.app]) w (run scene options timings w).2 ∨
      ∃ manifest w₁, Loads scene options w manifest w₁ ∧
        World.Adds (Occurrence.Serves (manifest.interest options.services)
          ((followed options manifest).map Service.name)) w (run scene options timings w).2 := by
  rcases run_parts scene options timings w with setup | ⟨manifest, w₁, loads, rest⟩
  · exact .inl setup
  refine .inr ⟨manifest, w₁, loads, ?_⟩
  have first : World.Adds (Occurrence.Serves (manifest.interest options.services)
      ((followed options manifest).map Service.name)) w
      (deploy scene options (job options timings) w₁).2 :=
    (loads.adds.mono fun _ sets_up => sets_up.serves (by decide)).trans
      ((adds_deploy scene options (job options timings) w₁).mono fun _ sets_up =>
        sets_up.serves (by decide))
  rcases rest with ⟨-, same⟩ | ⟨-, same⟩
  · rw [same]
    exact first
  · rw [same]
    refine first.trans (Attempt.adds_bind ?_ (fun _ => adds_tearDown _) _)
    exact (adds_accompany manifest).mono fun _ => Occurrence.Accompanies.serves

theorem ne_resolve_of_prepareApp (failed : prepareApp scene options w = (.error e, w')) (name : String)
    (cause : ResolveError) : e ≠ .resolve name cause := by
  have refuses (e' : SessionError) (w₁ : World σ)
      (thrown : (throw e' : Attempt σ SessionError Unit) w₁ = (.error e, w')) : e = e' :=
    (Except.error.inj (congrArg Prod.fst thrown)).symm
  rcases Attempt.bind_failed failed with never | ⟨answer, w₁, -, failed⟩
  · cases congrArg Prod.fst never
  cases answer with
  | ok app =>
      by_cases supported : app.generation ∈ supportedGenerations
      · simp only [supported, if_true] at failed
        exact absurd failed Attempt.pure_ne_failed
      · simp only [supported, if_false] at failed
        rw [refuses _ _ failed]
        exact SessionError.noConfusion
  | error err =>
      cases err with
      | notFound =>
          rcases Attempt.bind_failed failed with uncreated | ⟨_, _, -, never⟩
          · rw [require, Scene.require_apply] at uncreated
            obtain ⟨cause', rfl⟩ := exists_of_mapError (congrArg Prod.fst uncreated)
            exact SessionError.noConfusion
          · exact absurd never Attempt.pure_ne_failed
      | _ =>
          rw [refuses _ _ failed]
          exact SessionError.noConfusion

theorem ne_resolve_of_loadManifest (failed : loadManifest scene options w = (.error e, w'))
    (name : String) (cause : ResolveError) : e ≠ .resolve name cause := by
  rcases Attempt.bind_failed failed with unasked | ⟨env, w₁, -, failed⟩
  · rw [require, Scene.require_apply] at unasked
    obtain ⟨cause', rfl⟩ := exists_of_mapError (congrArg Prod.fst unasked)
    exact SessionError.noConfusion
  rcases Attempt.bind_failed failed with never | ⟨tree, w₂, -, failed⟩
  · cases congrArg Prod.fst never
  rcases Attempt.bind_failed failed with unread | ⟨manifest, w₃, -, failed⟩
  · obtain ⟨cause', rfl⟩ := exists_of_mapError (congrArg Prod.fst unread)
    exact SessionError.noConfusion
  rcases Attempt.bind_failed failed with invalid | ⟨_, _, -, never⟩
  · obtain ⟨cause', rfl⟩ := exists_of_mapError (congrArg Prod.fst invalid)
    exact SessionError.noConfusion
  · exact absurd never Attempt.pure_ne_failed

theorem ne_resolve_of_afterSetup {ps : List SyncPlan}
    (failed : afterSetup scene options timings manifest ps w = (.error e, w')) (name : String)
    (cause : ResolveError) : e ≠ .resolve name cause := by
  rcases Attempt.bind_failed failed with unfollowed | ⟨_, w₁, -, failed⟩
  · obtain ⟨cause', rfl⟩ := follow_failed scene options timings unfollowed
    exact SessionError.noConfusion
  · have orderly : leavesEarly (tearDown scene options (job options timings) w₁).1 = false :=
      (tearDown_spec scene options rfl w₁).2.1
    rw [failed] at orderly
    rintro rfl
    cases orderly

/-- The service that a session names as it fails to resolve it is followed. -/
theorem followed_of_resolve {name : String} {cause : ResolveError}
    (failed : (run scene options timings w).1 = .error (.resolve name cause)) :
    ∃ manifest w₁, Loads scene options w manifest w₁ ∧ Follows options manifest name := by
  have came : run scene options timings w =
      (.error (.resolve name cause), (run scene options timings w).2) := Prod.ext failed rfl
  rcases run_failed_iff.1 came with fails | ⟨manifest, ps, w₁, -, late⟩
  · generalize (run scene options timings w).2 = w' at fails
    cases fails with
    | preparing going named broken => exact absurd rfl (ne_resolve_of_prepareApp broken name cause)
    | loading going named prepared broken =>
        exact absurd rfl (ne_resolve_of_loadManifest broken name cause)
    | @resolving manifest done rest service _ _ w₁ _ _ _ loads deployed syncs in_order before broken =>
        obtain ⟨cause', same⟩ := resolveService_failed scene options broken
        obtain ⟨rfl, -⟩ := SessionError.resolve.inj same
        refine ⟨manifest, w₁, loads, follows_of_followed options ?_⟩
        rw [in_order]
        exact List.mem_append_right _ List.mem_cons_self
  · exact absurd rfl (ne_resolve_of_afterSetup late name cause)

variable (scene options timings)

/-- **A setup that fails has started nothing**, and only followed services without an image of their
own are resolved or watched, in any run. -/
theorem setup_failure_starts_nothing (s : σ) :
    let start := World.start s
    let out := run scene options timings start
    (∀ e w', out = (.error e, w') ↔ SetupFails scene options timings start e w' ∨
      ∃ manifest ps w₁, SetUp scene options timings start manifest ps w₁ ∧
        afterSetup scene options timings manifest ps w₁ = (.error e, w')) ∧
    (∀ e w', SetupFails scene options timings start e w' →
      (∀ c ∈ out.2.calls, c.purpose ≠ .log ∧ c.purpose ≠ .process) ∧
        ∀ l ∈ out.2.lines, ¬ l.StartsSync) ∧
    (∀ manifest ps w₁, SetUp scene options timings start manifest ps w₁ →
      ∀ p ∈ ps, Follows options manifest p.service) ∧
    (∀ name cause, out.1 = .error (.resolve name cause) →
      ∃ manifest w₁, Loads scene options start manifest w₁ ∧ Follows options manifest name) ∧
    (∀ app service?, .processList app service? ∈ out.2.calls → ∃ manifest w₁ name,
      Loads scene options start manifest w₁ ∧ service? = some name ∧ Follows options manifest name) ∧
    ∀ l ∈ out.2.lines, l.StartsSync → ∃ manifest w₁, Loads scene options start manifest w₁ ∧
      (Console.controlTag ∈ manifest.interest options.services ∨
        ∃ watcher : Sync.Watcher, l = watcher.startLine ∧ Follows options manifest watcher.service) := by
  intro start out
  have follows {manifest : Manifest} {name : String}
      (member : name ∈ (followed options manifest).map Service.name) :
      Follows options manifest name := by
    obtain ⟨service, known, rfl⟩ := List.mem_map.1 member
    exact follows_of_followed options known
  refine ⟨fun e w' => run_failed_iff, fun e w' fails => ?_, ?_, fun name cause => followed_of_resolve,
    ?_, ?_⟩
  · have same : out = (.error e, w') := fails.run_eq
    rw [same]
    refine ⟨fun c member => ?_, fun l member => (fails.adds.shown member).not_startsSync⟩
    obtain ⟨failure, sets_up⟩ := fails.adds.called member
    have about := sets_up.purpose
    constructor <;> rintro same <;> simp [same] at about
  · rintro manifest ps w₁ ⟨_, _, -, -, went⟩ p planned
    exact follows (followed_of_plans went planned)
  · intro app service? member
    rcases run_serves start with setup | ⟨manifest, w₁, loads, serves⟩
    · obtain ⟨failure, sets_up⟩ := setup.called member
      exact absurd sets_up.purpose (by simp [Call.purpose])
    · obtain ⟨failure, name, known, same⟩ := serves.called member
      exact ⟨manifest, w₁, name, loads, same, follows known⟩
  · intro l member tells
    rcases run_serves start with setup | ⟨manifest, w₁, loads, serves⟩
    · exact absurd tells (setup.shown member).not_startsSync
    · refine ⟨manifest, w₁, loads, (serves.shown member tells).imp_right ?_⟩
      rintro ⟨watcher, known, same⟩
      exact ⟨watcher, same, follows known⟩

/-! ### A setup that fails at its second service -/

/-- The services of a text in the order they are read in. -/
def readServices? (env : Environment) (text : String) : Option (List Service) :=
  (Yaml.Document.ofText? (env.expand text)).bind fun d =>
    ((match d.root with
      | none => pure []
      | some root => d.entries root >>= Manifest.readRoot d none : Yaml.Reads (List Service)).run 0).map
      Prod.fst

/-- Services that are listed by name stay in their order. -/
theorem load_of_sorted {env : Environment} {text : String} {services : List Service}
    (read : readServices? env text = some services)
    (sorted : services.Pairwise fun a b => decide (a.name ≤ b.name) = true) :
    Manifest.load env text = .ok ⟨services⟩ := by
  obtain ⟨d, document, listed⟩ := Option.bind_eq_some_iff.1 read
  obtain ⟨⟨services', aliases⟩, came, same⟩ := Option.map_eq_some_iff.1 listed
  obtain rfl : services' = services := same
  have of_document : Manifest.ofDocument? d = some ⟨services'⟩ := by
    unfold Manifest.ofDocument?
    refine (congrArg (· >>= _) came).trans ?_
    exact congrArg (fun services => some (Manifest.mk services)) (List.mergeSort_of_pairwise sorted)
  simp only [Manifest.load, document, Option.bind_some, of_document]

/-- An app with two services, of which only the first has a recipe. -/
def halfSyncableTree : FileTree :=
  ⟨[([['a', 'p', 'p'], ['a', 'p', 'i'], "Dockerfile".toList],
      .file ⟨0o644, 0, "COPY . /srv\n".toUTF8⟩),
    ([['a', 'p', 'p'], ['a', 'p', 'i']], .dir),
    ([['a', 'p', 'p'], "convox.yml".toList],
      .file ⟨0o644, 0, "services:\n  api:\n    build: ./api\n  web:\n    build: .\n".toUTF8⟩),
    ([['a', 'p', 'p']], .dir)], .ofString "/app"⟩

def halfSyncable : Scene Memory := { unsyncable with files := fun _ => halfSyncableTree }

def api : Service := ⟨"api", ⟨"./api", "Dockerfile"⟩, none⟩

def web : Service := ⟨"web", ⟨".", "Dockerfile"⟩, none⟩

theorem followed_halfSyncable : followed unsyncableOptions ⟨[api, web]⟩ = [api, web] := by
  have interest : (Manifest.mk [api, web]).interest unsyncableOptions.services = ["api", "web"] :=
    List.mergeSort_of_pairwise (by simp; decide)
  rw [followed, interest]
  decide

theorem loadFile_halfSyncable :
    Manifest.loadFile [] halfSyncableTree (.ofString "/app/convox.yml") = .ok ⟨[api, web]⟩ := by
  have text : halfSyncableTree.readText (.ofString "/app/convox.yml") =
      .ok "services:\n  api:\n    build: ./api\n  web:\n    build: .\n" :=
    eq_ok_of_toOption (by decide +kernel)
  rw [Manifest.loadFile, text]
  exact load_of_sorted (by decide +kernel) (by decide)

/-- The world in which the manifest is read. -/
def halfPrepared : World Memory :=
  (prepareApp halfSyncable unsyncableOptions (World.start unsyncableStart)).2

/-- The world in which the app is built. -/
def halfLoaded : World Memory := halfPrepared.awaited halfSyncable.platform (.appEnvironment "dev")

theorem loads_halfSyncable : Loads halfSyncable unsyncableOptions (World.start unsyncableStart)
    ⟨[api, web]⟩ halfLoaded where
  going := rfl
  named := by decide
  read := by
    have prepared : (prepareApp halfSyncable unsyncableOptions (World.start unsyncableStart)).1 =
        .ok () := eq_ok_of_toOption (by decide +kernel)
    have answer : (halfSyncable.platform.answer (.appEnvironment "dev") halfPrepared.state).1 = .ok [] :=
      eq_ok_of_toOption (by decide +kernel)
    have valid : (Manifest.mk [api, web]).validate = .ok () := eq_ok_of_toOption (by decide +kernel)
    exact ⟨halfPrepared, Prod.ext prepared rfl,
      loadManifest_of_loaded halfSyncable unsyncableOptions answer loadFile_halfSyncable valid⟩

/-- The world in which the services are resolved. -/
def halfDeployed : World Memory :=
  (deploy halfSyncable unsyncableOptions (job unsyncableOptions Timings.default) halfLoaded).2

theorem deployed_halfSyncable :
    deploy halfSyncable unsyncableOptions (job unsyncableOptions Timings.default) halfLoaded =
      (.ok true, halfDeployed) :=
  Attempt.apply_eq (eq_ok_of_toOption (by decide +kernel))

/-- The world in which the second service is resolved. -/
def halfResolved : World Memory :=
  (resolveService halfSyncable unsyncableOptions api halfDeployed).2

/-- The world in which that has failed. -/
def halfFailed : World Memory := (resolveService halfSyncable unsyncableOptions web halfResolved).2

theorem resolved_api : ∃ plan, resolveService halfSyncable unsyncableOptions api halfDeployed =
    (.ok plan, halfResolved) ∧ plan.sources.length = 1 := by
  have sources : ((resolveService halfSyncable unsyncableOptions api halfDeployed).1.toOption.map
      fun plan => plan.sources.length) = some 1 := by decide +kernel
  obtain ⟨plan, resolved, one⟩ := exists_of_toOption sources
  exact ⟨plan, Attempt.apply_eq resolved, one⟩

theorem unresolved_web : ∃ cause, resolveService halfSyncable unsyncableOptions web halfResolved =
    (.error (.resolve "web" cause), halfFailed) := by
  have missing : (resolveService halfSyncable unsyncableOptions web halfResolved).1.toOption.isNone =
      true := by decide +kernel
  obtain ⟨e, broken⟩ := exists_error_of_toOption missing
  have came := Attempt.apply_eq broken
  obtain ⟨cause, rfl⟩ := resolveService_failed halfSyncable unsyncableOptions came
  exact ⟨cause, came⟩

theorem developed_halfFailed : halfFailed.Developed := by
  decide +kernel

/-- The app was built and promoted and its first service resolved, with something to sync, as the
second could not be, and nothing was started for the first either. -/
theorem nothing_started_for_resolved :
    let start := World.start unsyncableStart
    let out := run halfSyncable unsyncableOptions Timings.default start
    (∃ plan, resolveService halfSyncable unsyncableOptions api halfDeployed =
      (.ok plan, halfResolved) ∧ plan.sources.length = 1) ∧
    ∃ cause, SetupFails halfSyncable unsyncableOptions Timings.default start (.resolve "web" cause)
        halfFailed ∧
      out = (.error (.resolve "web" cause), halfFailed) ∧ out.2.Developed ∧
      (∀ c ∈ out.2.calls, c.purpose ≠ .log ∧ c.purpose ≠ .process) ∧
      ∀ l ∈ out.2.lines, ¬ l.StartsSync := by
  intro start out
  obtain ⟨failures, failed_setup, -⟩ :=
    setup_failure_starts_nothing halfSyncable unsyncableOptions Timings.default unsyncableStart
  obtain ⟨plan, resolved, one⟩ := resolved_api
  obtain ⟨cause, broken⟩ := unresolved_web
  have before : [api].mapM (resolveService halfSyncable unsyncableOptions) halfDeployed =
      (.ok [plan], halfResolved) := by
    rw [List.mapM_cons, Attempt.bind_of_apply resolved, List.mapM_nil]
    rfl
  have fails : SetupFails halfSyncable unsyncableOptions Timings.default start
      (.resolve "web" cause) halfFailed :=
    .resolving loads_halfSyncable deployed_halfSyncable rfl followed_halfSyncable before broken
  have same : out = (.error (.resolve "web" cause), halfFailed) := (failures _ _).2 (.inl fails)
  refine ⟨⟨plan, resolved, one⟩, cause, fails, same, ?_, failed_setup _ _ fails⟩
  simp only [same, developed_halfFailed]

end Session

end DevMode
