/-
# DevMode.Proofs.Teardown -- which sessions take the app out of development

A session that has promoted a release for development ends in one of two ways.  It tears down,
and then the release that the app references is rolled out in the usual way again, if the app
can be had and references one (`tearDown_spec`).  Or it leaves early, because its services
cannot be resolved or the app cannot be looked at while it starts (`leavesEarly`), and then
nothing takes the app out of development.  `run_demotes_iff` says that this is all, and
`left_in_development` is a session that does it.

* `run_cases` cuts a run into setup, deployment, and what comes after both.
* `deploys`, `asks_accompany`, `tearDown_spec` say of each part what it promotes.
* `accompany_failed` says what can go wrong between a deployment and the end, and
  `ending_demotes_iff` what follows for the end.
-/
import DevMode.Platform.Memory
import DevMode.Proofs.Parts

namespace DevMode

set_option autoImplicit false

/-! ## Promotions -/

/-- A release is promoted for development, and that goes well. -/
def Occurrence.develops : Occurrence → Bool
  | called (.releasePromote _ _ rollout) none => rollout.development = some true
  | _ => false

/-- A release of an app is ordered out of development. -/
def Occurrence.demotes (app release : String) : Occurrence → Bool
  | called (.releasePromote app' release' rollout) _ =>
    rollout.development = some false ∧ app' = app ∧ release' = release
  | _ => false

theorem Occurrence.Within.not_develops {listed : List Purpose} (quiet : .promotion ∉ listed)
    {o : Occurrence} (within : o.Within listed) : o.develops = false := by
  unfold develops
  split
  · exact absurd within quiet
  · rfl

theorem Occurrence.Within.not_demotes {listed : List Purpose} (quiet : .promotion ∉ listed)
    {o : Occurrence} (within : o.Within listed) (app release : String) :
    o.demotes app release = false := by
  unfold demotes
  split
  · exact absurd within quiet
  · rfl

namespace World

variable {σ : Type}

/-- A release was promoted for development. -/
def Developed (w : World σ) : Prop := ∃ o ∈ w.past, o.2.develops = true

/-- A release of an app was ordered out of development. -/
def Demoted (w : World σ) (app release : String) : Prop := ∃ o ∈ w.past, o.2.demotes app release = true

instance (w : World σ) : Decidable w.Developed := by
  unfold Developed
  infer_instance

instance (w : World σ) (app release : String) : Decidable (w.Demoted app release) := by
  unfold Demoted
  infer_instance

variable {w w' : World σ} {listed : List Purpose}

theorem Grows.suffix (grows : Grows listed w w') : w.past <:+ w'.past :=
  (grows_iff_adds.1 grows).suffix

/-- What is not listed was there before. -/
theorem Grows.exists_iff {p : Occurrence → Bool} (other : ∀ o, o.Within listed → p o = false)
    (grows : Grows listed w w') : (∃ o ∈ w'.past, p o.2 = true) ↔ ∃ o ∈ w.past, p o.2 = true := by
  obtain ⟨added, past, fine⟩ := grows
  rw [past]
  constructor
  · rintro ⟨o, member, found⟩
    rcases List.mem_append.1 member with new | old
    · rw [other o.2 (fine o new)] at found
      cases found
    · exact ⟨o, old, found⟩
  · rintro ⟨o, member, found⟩
    exact ⟨o, List.mem_append_right _ member, found⟩

theorem Grows.developed_iff (quiet : .promotion ∉ listed) (grows : Grows listed w w') :
    w'.Developed ↔ w.Developed :=
  grows.exists_iff fun _ within => within.not_develops quiet

theorem Grows.demoted_iff (quiet : .promotion ∉ listed) (grows : Grows listed w w')
    (app release : String) : w'.Demoted app release ↔ w.Demoted app release :=
  grows.exists_iff fun _ within => within.not_demotes quiet app release

theorem not_developed_start (s : σ) : ¬ (start s).Developed := by
  rintro ⟨o, member, -⟩
  exact List.not_mem_nil member

theorem not_demoted_start (s : σ) (app release : String) : ¬ (start s).Demoted app release := by
  rintro ⟨o, member, -⟩
  exact List.not_mem_nil member

variable (platform : Platform σ) (app release : String)

/-- A promotion for development counts if it was answered well. -/
theorem developed_awaited_iff (rollout : Rollout) :
    (w.awaited platform (.releasePromote app release rollout)).Developed ↔
      w.Developed ∨ (rollout.development = some true ∧
        (platform.answer (.releasePromote app release rollout) w.state).1 = .ok ()) := by
  simp only [Developed, past_awaited, answered, World.record, List.mem_cons, exists_eq_or_imp]
  rw [or_comm]
  refine or_congr Iff.rfl ?_
  cases (platform.answer (.releasePromote app release rollout) w.state).1 with
  | ok => simp [Act.failure?, Occurrence.develops]
  | error e => simp [Act.failure?, Occurrence.develops]

theorem demoted_awaited_iff (rollout : Rollout) (app' release' : String) :
    (w.awaited platform (.releasePromote app release rollout)).Demoted app' release' ↔
      w.Demoted app' release' ∨
        (rollout.development = some false ∧ app = app' ∧ release = release') := by
  simp only [Demoted, past_awaited, answered, World.record, List.mem_cons, exists_eq_or_imp]
  rw [or_comm]
  refine or_congr Iff.rfl ?_
  simp [Occurrence.demotes]

end World

/-! ## Parts of a run -/

namespace Session

variable {σ : Type} (scene : Scene σ) (options : SessionOptions) (timings : Timings)

/-- A session ends early: a service cannot be resolved, or the app cannot be looked at while it
starts. -/
def leavesEarly : Except SessionError Unit → Bool
  | .error (.resolve ..) => true
  | .error (.platform operation _) => operation = "app get"
  | _ => false

/-- What is synced, if changes are. -/
def plans (manifest : Manifest) : Attempt σ SessionError (List SyncPlan) :=
  if options.sync then resolveServices scene options manifest (manifest.interest options.services)
  else pure []

/-- What comes between a deployment and the end. -/
def accompany (manifest : Manifest) : Attempt σ SessionError Unit := do
  let plans ← plans scene options manifest
  follow scene options timings (tasks options timings (manifest.interest options.services) plans)

/-! ### Deployment -/

/-- What a step of a deployment leaves behind: it takes nothing out of development, and if it
promoted something for development it `went` well. -/
structure Deploys (w w' : World σ) (went : Prop) : Prop where
  past : w.past <:+ w'.past
  demoted : ∀ app release, w'.Demoted app release ↔ w.Demoted app release
  developed : w'.Developed → w.Developed ∨ went

theorem Deploys.of_grows {w w' : World σ} (grows : World.Grows [.build] w w') (went : Prop) :
    Deploys w w' went where
  past := grows.suffix
  demoted := grows.demoted_iff (by decide)
  developed developed := .inl ((grows.developed_iff (by decide)).1 developed)

theorem Deploys.after {w₁ w₂ w₃ : World σ} (grows : World.Grows [.build] w₁ w₂) {went went' : Prop}
    (deploys : Deploys w₂ w₃ went) (so : went → went') : Deploys w₁ w₃ went' where
  past := grows.suffix.trans deploys.past
  demoted app release :=
    (deploys.demoted app release).trans (grows.demoted_iff (by decide) app release)
  developed developed := (deploys.developed developed).imp (grows.developed_iff (by decide)).1 so

theorem deploys_promote (job : BuildJob) (build : Build) (w : World σ) :
    Deploys w (job.promote scene build w).2 ((job.promote scene build w).1 = .ok ()) := by
  unfold BuildJob.promote
  split
  · exact .of_grows (.refl w) _
  rw [BuildJob.rollOut, BuildJob.require, Scene.require_apply]
  refine ⟨List.suffix_cons _ _, fun app release => ?_, fun developed => ?_⟩
  · rw [World.demoted_awaited_iff]
    simp [Rollout.forDevelopment]
  · refine ((World.developed_awaited_iff _ _ _ _).1 developed).imp_right fun promoted => ?_
    rw [promoted.2]
    rfl

/-- **A deployment promotes for development only**, and the session goes on if that went
well. -/
theorem deploys (job : BuildJob) (w : World σ) :
    Deploys w (deploy scene options job w).2 ((deploy scene options job w).1 = .ok true) := by
  unfold deploy
  by_cases builds : options.build = true
  case neg =>
    simp only [builds, if_false, Bool.false_eq_true]
    exact .of_grows (.refl w) _
  simp only [builds, if_true]
  have built := (job.adds_build scene options.external).asks w
  rw [Attempt.bind_apply]
  simp only [Attempt.adapt_apply]
  generalize job.build scene options.external w = after at *
  obtain ⟨r, w₁⟩ := after
  cases r with
  | error e => exact .of_grows built _
  | ok build =>
      simp only [mapError_ok]
      rw [Attempt.bind_apply]
      simp only [Attempt.lift_apply, Scene.isFired_apply]
      split
      · exact .of_grows built _
      rw [Attempt.bind_apply]
      simp only [Attempt.adapt_apply]
      have promoted := deploys_promote scene job build w₁
      generalize job.promote scene build w₁ = after at *
      obtain ⟨r, w₂⟩ := after
      cases r with
      | ok => exact promoted.after built fun _ => rfl
      | error e => exact promoted.after built fun went => by simp at went

/-! ### Following -/

theorem resolveService_failed {service : Service} {w w' : World σ} {e : SessionError}
    (failed : resolveService scene options service w = (.error e, w')) :
    ∃ e', e = .resolve service.name e' := by
  rcases Attempt.bind_failed failed with never | ⟨tree, w₁, -, failed⟩
  · cases congrArg Prod.fst never
  rcases Attempt.bind_failed failed with unresolved | ⟨sources, w₂, -, failed⟩
  · exact exists_of_mapError (congrArg Prod.fst unresolved)
  rcases Attempt.bind_failed failed with unruled | ⟨rules, w₃, -, never⟩
  · exact exists_of_mapError (congrArg Prod.fst unruled)
  · exact absurd never Attempt.pure_ne_failed

theorem plans_failed {manifest : Manifest} {w w' : World σ} {e : SessionError}
    (failed : plans scene options manifest w = (.error e, w')) :
    ∃ service e', e = .resolve service e' := by
  unfold plans at failed
  split at failed
  case isFalse => exact absurd failed Attempt.pure_ne_failed
  obtain ⟨_, service, _, _, w₁, -, -, broken⟩ := Attempt.mapM_failed_iff.1 failed
  exact ⟨service.name, resolveService_failed scene options broken⟩

theorem running?_failed {answer : Except PlatformError App} {e : SessionError}
    (failed : running? answer = some (.error e)) : ∃ e', e = .platform "app get" e' := by
  cases answer with
  | ok app =>
      by_cases running : app.status = runningStatus <;> simp [running?, running] at failed
  | error e' => exact ⟨e', (Except.error.inj (Option.some.inj failed)).symm⟩

theorem follow_failed {t : Tasks} {w w' : World σ} {e : SessionError}
    (failed : follow scene options timings t w = (.error e, w')) :
    ∃ e', e = .platform "app get" e' := by
  rcases Attempt.bind_failed failed with never | ⟨started, w₁, -, failed⟩
  · cases congrArg Prod.fst never
  rcases Attempt.bind_failed failed with never | ⟨⟨outcome, t'⟩, w₂, waited, failed⟩
  · cases congrArg Prod.fst never
  rcases Attempt.bind_failed failed with looked | ⟨_, w₃, -, failed⟩
  · have came : outcome.getD (.ok ()) = .error e := congrArg Prod.fst looked
    cases outcome with
    | none => simp at came
    | some r =>
        obtain rfl : r = .error e := came
        have found := Except.ok.inj (congrArg Prod.fst waited)
        obtain ⟨_, _, meant, -⟩ := Act.poll_some _ _ (congrArg Prod.fst found)
        exact running?_failed meant
  rcases Attempt.bind_failed failed with never | ⟨_, _, -, never⟩
  · cases congrArg Prod.fst never
  · exact absurd never Attempt.pure_ne_failed

/-- **What can go wrong while the app is followed.** -/
theorem accompany_failed {manifest : Manifest} {w w' : World σ} {e : SessionError}
    (failed : accompany scene options timings manifest w = (.error e, w')) :
    leavesEarly (.error e) = true := by
  rcases Attempt.bind_failed failed with unplanned | ⟨plans, w₁, -, unfollowed⟩
  · obtain ⟨service, e', rfl⟩ := plans_failed scene options unplanned
    rfl
  · obtain ⟨e', rfl⟩ := follow_failed scene options timings unfollowed
    rfl

theorem adds_plans {kind : Occurrence → Prop} (manifest : Manifest) :
    Attempt.Adds kind (plans scene options manifest) := by
  unfold plans
  split
  · exact adds_resolveServices _ _ _ _
  · exact Attempt.adds_pure _

theorem asks_accompany (manifest : Manifest) :
    Attempt.Asks [.app, .log, .process] (accompany scene options timings manifest) := by
  refine Attempt.adds_bind (adds_plans scene options manifest) fun plans => ?_
  have planned (p : SyncPlan) (member : p ∈ plans) : p.service ∈ plans.map SyncPlan.service :=
    List.mem_map_of_mem member
  have tasks := tasksFor_tasks options timings (manifest.interest options.services) planned
  exact (adds_follow scene options timings tasks).mono fun _ => Occurrence.Accompanies.within

/-! ### The end -/

/-- The orderly end of a session, step by step. -/
theorem tearDown_apply (job : BuildJob) (w : World σ) :
    tearDown scene options job w =
      let told := w.awaited scene.platform (.appGet options.app)
      match (scene.platform.answer (.appGet options.app) w.state).1 with
      | .error _ => (.ok (), told)
      | .ok app =>
        let stopping := told.record (.shown (Console.control "stopping"))
        if app.release.isEmpty then (.ok (), stopping)
        else
          let call : Call := .releasePromote job.app app.release .standard
          (((scene.platform.answer call stopping.state).1.mapError
              (BuildError.platform "release promote")).mapError .build,
            stopping.awaited scene.platform call) := by
  unfold tearDown
  rw [Attempt.bind_ok (a := (scene.platform.answer (.appGet options.app) w.state).1) (by simp)]
  cases (scene.platform.answer (.appGet options.app) w.state).1 with
  | error e => rfl
  | ok app =>
      dsimp only
      rw [Attempt.bind_ok (a := ()) (by simp)]
      split
      · rfl
      · rw [Attempt.adapt_apply, BuildJob.demote, BuildJob.rollOut, BuildJob.require,
          Scene.require_apply]
        rfl

theorem leavesEarly_build (r : Except BuildError Unit) :
    leavesEarly (r.mapError SessionError.build) = false := by
  cases r <;> rfl

/-- **A session that tears down rolls out what the app references**, if it can be had and
references something. -/
theorem tearDown_spec {job : BuildJob} (same_app : job.app = options.app) (w : World σ) :
    w.past <:+ (tearDown scene options job w).2.past ∧
      leavesEarly (tearDown scene options job w).1 = false ∧
      ((tearDown scene options job w).2.Developed ↔ w.Developed) ∧
      ∀ release, (tearDown scene options job w).2.Demoted options.app release ↔
        w.Demoted options.app release ∨ release ≠ "" ∧
          ∃ app, (scene.platform.answer (.appGet options.app) w.state).1 = .ok app ∧
            app.release = release := by
  rw [tearDown_apply]
  have looked : World.Grows [.app] w (w.awaited scene.platform (.appGet options.app)) :=
    Act.adds_await (fun _ => List.mem_singleton_self _) w
  cases (scene.platform.answer (.appGet options.app) w.state).1 with
  | error e =>
      refine ⟨looked.suffix, rfl, looked.developed_iff (by decide), fun release => ?_⟩
      rw [looked.demoted_iff (by decide)]
      simp
  | ok app =>
      have stopping : World.Grows [.app] w ((w.awaited scene.platform (.appGet options.app)).record
          (.shown (Console.control "stopping"))) :=
        looked.trans (World.grows_iff_adds.2 (.one trivial rfl))
      by_cases unreleased : app.release.isEmpty = true
      · simp only [unreleased, if_true]
        refine ⟨stopping.suffix, rfl, stopping.developed_iff (by decide),
          fun release => ?_⟩
        refine (stopping.demoted_iff (by decide) _ _).trans (or_iff_left ?_).symm
        rintro ⟨some_release, app', same, rfl⟩
        obtain rfl := Except.ok.inj same
        exact some_release (String.isEmpty_iff.1 unreleased)
      · simp only [unreleased, if_false, Bool.false_eq_true]
        have some_release : app.release ≠ "" := fun none => unreleased (by simp [none])
        refine ⟨stopping.suffix.trans (List.suffix_cons _ _), leavesEarly_build _, ?_,
          fun release => ?_⟩
        · refine (World.developed_awaited_iff _ _ _ _).trans ?_
          refine (or_iff_left ?_).trans (stopping.developed_iff (by decide))
          simp [Rollout.standard]
        · refine (World.demoted_awaited_iff _ _ _ _ _ _).trans ?_
          refine or_congr (stopping.demoted_iff (by decide) _ _) ?_
          constructor
          · rintro ⟨-, -, rfl⟩
            exact ⟨some_release, app, rfl, rfl⟩
          · rintro ⟨-, app', same, rfl⟩
            obtain rfl := Except.ok.inj same
            exact ⟨rfl, same_app, rfl⟩

theorem run_of_fired {w : World σ} (stopped : scene.interruption.fired w.now = true) :
    run scene options timings w = (.ok (), w) := by
  rw [run, Attempt.bind_lift, Scene.isFired_apply]
  simp only [stopped, if_true]
  rfl

theorem run_of_unnamed {w : World σ} (going : scene.interruption.fired w.now = false)
    (unnamed : options.app = "") : run scene options timings w = (.error .appRequired, w) := by
  rw [run, Attempt.bind_lift, Scene.isFired_apply]
  simp only [going, unnamed, if_false, Bool.false_eq_true]
  rfl

/-- A session that is not stopped at once and is for an app, by its parts. -/
theorem run_of_going {w : World σ} (going : scene.interruption.fired w.now = false)
    (named : options.app ≠ "") :
    run scene options timings w = (do
      prepareApp scene options
      let manifest ← loadManifest scene options
      if ← deploy scene options (job options timings) then
        accompany scene options timings manifest
        tearDown scene options (job options timings) : Attempt σ SessionError Unit) w := by
  have given : options.app.isEmpty = false := by simpa using named
  rw [run, Attempt.bind_lift, Scene.isFired_apply]
  simp only [going, given, if_false, Bool.false_eq_true]
  refine congrFun (bind_congr fun _ => bind_congr fun manifest => bind_congr fun went => ?_) w
  cases went with
  | false => rfl
  | true =>
      simp only [accompany, plans, bind_assoc, if_true]
      by_cases sync : options.sync = true
      · simp only [sync, if_true]
      · simp only [sync, if_false, Bool.false_eq_true]

theorem loadManifest_of_loaded {w : World σ} {env : Environment} {manifest : Manifest}
    (answer : (scene.platform.answer (.appEnvironment options.app) w.state).1 = .ok env)
    (loaded : Manifest.loadFile env
      (scene.files (w.awaited scene.platform (.appEnvironment options.app)).now)
      (options.root.join (.ofString (options.manifest.getD BuildJob.defaultManifest))) = .ok manifest)
    (valid : manifest.validate = .ok ()) :
    loadManifest scene options w =
      (.ok manifest, w.awaited scene.platform (.appEnvironment options.app)) := by
  have answered : (require scene "app environment" (.appEnvironment options.app) w).1 = .ok env := by
    rw [require, Scene.require_apply, answer]
    rfl
  rw [loadManifest, Attempt.bind_ok answered, require, Scene.require_apply,
    Attempt.bind_lift, Attempt.bind_ok (congrArg (Except.mapError _) loaded),
    Attempt.bind_ok (congrArg (Except.mapError _) valid)]
  rfl

/-- The manifest that a session goes by: it is not stopped at once, it is for an app, and the app is
made sure of before the manifest is read. -/
structure Loads (w : World σ) (manifest : Manifest) (w' : World σ) : Prop where
  going : scene.interruption.fired w.now = false
  named : options.app ≠ ""
  read : ∃ w₁, prepareApp scene options w = (.ok (), w₁) ∧
    loadManifest scene options w₁ = (.ok manifest, w')

theorem Loads.adds {w w' : World σ} {manifest : Manifest} (loads : Loads scene options w manifest w') :
    World.Adds (Occurrence.SetsUp [.app]) w w' := by
  obtain ⟨-, -, w₁, prepared, read⟩ := loads
  exact ((adds_prepareApp scene options).of_apply prepared).trans
    ((adds_loadManifest scene options).of_apply read)

/-- **A run is its setup, a deployment, and what comes after both.** -/
theorem run_parts (w : World σ) :
    World.Adds (Occurrence.SetsUp [.app]) w (run scene options timings w).2 ∨
      ∃ manifest w₁, Loads scene options w manifest w₁ ∧
        let deployed := deploy scene options (job options timings) w₁
        (deployed.1 ≠ .ok true ∧ (run scene options timings w).2 = deployed.2) ∨
          (deployed.1 = .ok true ∧ run scene options timings w =
            (accompany scene options timings manifest >>= fun _ =>
              tearDown scene options (job options timings)) deployed.2) := by
  by_cases stopped : scene.interruption.fired w.now = true
  · rw [run_of_fired scene options timings stopped]
    exact .inl (.refl w)
  have going : scene.interruption.fired w.now = false := by simpa using stopped
  by_cases unnamed : options.app = ""
  · rw [run_of_unnamed scene options timings going unnamed]
    exact .inl (.refl w)
  rw [run_of_going scene options timings going unnamed]
  rcases Attempt.bind_cases (prepareApp scene options) _ w with
    ⟨e, w₁, failed, out⟩ | ⟨_, w₁, prepared, out⟩
  · rw [out]
    exact .inl ((adds_prepareApp scene options).of_apply failed)
  rw [out]
  rcases Attempt.bind_cases (loadManifest scene options) _ w₁ with
    ⟨e, w₂, failed, out⟩ | ⟨manifest, w₂, read, out⟩
  · rw [out]
    exact .inl (((adds_prepareApp scene options).of_apply prepared).trans
      ((adds_loadManifest scene options).of_apply failed))
  rw [out]
  refine .inr ⟨manifest, w₂, ⟨going, unnamed, w₁, prepared, read⟩, ?_⟩
  rcases Attempt.bind_cases (deploy scene options (job options timings)) _ w₂ with
    ⟨e, w₃, failed, out⟩ | ⟨went, w₃, ended, out⟩
  · rw [out, failed]
    exact .inl ⟨by simp, rfl⟩
  rw [out, ended]
  cases went with
  | false => exact .inl ⟨by simp, rfl⟩
  | true => exact .inr ⟨rfl, rfl⟩

theorem run_cases (w : World σ) :
    World.Grows [.app] w (run scene options timings w).2 ∨
      ∃ manifest w₁, World.Grows [.app] w w₁ ∧
        let deployed := deploy scene options (job options timings) w₁
        (deployed.1 ≠ .ok true ∧ (run scene options timings w).2 = deployed.2) ∨
          (deployed.1 = .ok true ∧ run scene options timings w =
            (accompany scene options timings manifest >>= fun _ =>
              tearDown scene options (job options timings)) deployed.2) := by
  rcases run_parts scene options timings w with setup | ⟨manifest, w₁, loads, rest⟩
  · exact .inl (setup.mono fun _ => Occurrence.SetsUp.within)
  · exact .inr ⟨manifest, w₁, loads.adds.mono fun _ => Occurrence.SetsUp.within, rest⟩

/-- What comes after a deployment takes the app out of development at its end, or leaves early. -/
theorem ending_demotes_iff {manifest : Manifest} {w : World σ}
    (undemoted : ∀ release, ¬ w.Demoted options.app release)
    (developed : ((accompany scene options timings manifest >>= fun _ =>
      tearDown scene options (job options timings)) w).2.Developed) :
    let out := (accompany scene options timings manifest >>= fun _ =>
      tearDown scene options (job options timings)) w
    ∃ ended : World σ, ended.Developed ∧ (∀ release, ¬ ended.Demoted options.app release) ∧
      ended.past <:+ out.2.past ∧ (leavesEarly out.1 = true → out.2 = ended) ∧
      (leavesEarly out.1 = false → out = tearDown scene options (job options timings) ended) ∧
      ∀ release, out.2.Demoted options.app release ↔
        leavesEarly out.1 = false ∧ release ≠ "" ∧
          ∃ app, (scene.platform.answer (.appGet options.app) ended.state).1 = .ok app ∧
            app.release = release := by
  intro out
  have followed := asks_accompany scene options timings manifest w
  rcases Attempt.bind_cases (accompany scene options timings manifest)
    (fun _ => tearDown scene options (job options timings)) w with
    ⟨e, ended, failed, same⟩ | ⟨_, ended, went, same⟩
  · have early := accompany_failed scene options timings failed
    rw [failed] at followed
    have still_undemoted (release : String) : ¬ ended.Demoted options.app release := by
      rw [followed.demoted_iff (by decide)]
      exact undemoted release
    rw [show out = _ from same]
    rw [same] at developed
    refine ⟨ended, developed, still_undemoted, List.suffix_refl _, fun _ => rfl, ?_, ?_⟩
    · intro orderly
      exact absurd (early.symm.trans orderly) (by decide)
    · intro release
      simp only [early, Bool.true_eq_false, false_and, iff_false]
      exact still_undemoted release
  · obtain ⟨past, orderly, still_developed, demoted⟩ :=
      @tearDown_spec σ scene options (job options timings) rfl ended
    rw [went] at followed
    have still_undemoted (release : String) : ¬ ended.Demoted options.app release := by
      rw [followed.demoted_iff (by decide)]
      exact undemoted release
    rw [show out = _ from same]
    rw [same] at developed
    refine ⟨ended, still_developed.1 developed, still_undemoted, past, ?_, fun _ => rfl, ?_⟩
    · intro early
      exact absurd (early.symm.trans orderly) (by decide)
    · intro release
      rw [demoted release, or_iff_right (still_undemoted release)]
      simp only [orderly, true_and]

/-- **Which sessions take the app out of development.**  A session that promoted a release for
development `ended` at some time, before which it ordered nothing out of development.  If it
leaves early, that is all that happens.  Otherwise it orders just the release that the app
references then, if the app can be had and references one, out of development. -/
theorem run_demotes_iff {s : σ} (developed : (run scene options timings (World.start s)).2.Developed) :
    let out := run scene options timings (World.start s)
    ∃ ended : World σ, ended.Developed ∧ (∀ release, ¬ ended.Demoted options.app release) ∧
      ended.past <:+ out.2.past ∧ (leavesEarly out.1 = true → out.2 = ended) ∧
      (leavesEarly out.1 = false → out = tearDown scene options (job options timings) ended) ∧
      ∀ release, out.2.Demoted options.app release ↔
        leavesEarly out.1 = false ∧ release ≠ "" ∧
          ∃ app, (scene.platform.answer (.appGet options.app) ended.state).1 = .ok app ∧
            app.release = release := by
  intro out
  rcases run_cases scene options timings (World.start s) with
    setup | ⟨manifest, w, setup, ⟨stopped, same⟩ | ⟨went, same⟩⟩
  · -- Nothing is promoted in a setup.
    exact absurd ((setup.developed_iff (by decide)).1 developed) (World.not_developed_start s)
  · -- A promotion that went well does not end a session.
    have deployed := deploys scene options (job options timings) w
    rw [same] at developed
    rcases deployed.developed developed with before | went
    · exact absurd ((setup.developed_iff (by decide)).1 before) (World.not_developed_start s)
    · exact absurd went stopped
  · have undemoted (release : String) :
        ¬ (deploy scene options (job options timings) w).2.Demoted options.app release := by
      rw [(deploys scene options (job options timings) w).demoted, setup.demoted_iff (by decide)]
      exact World.not_demoted_start s _ _
    rw [same] at developed
    rw [show out = _ from same]
    exact ending_demotes_iff scene options timings undemoted developed

/-! ### A session that leaves early -/

/-- An app whose manifest names a service that has no recipe. -/
def unsyncableTree : FileTree :=
  ⟨[([['a', 'p', 'p'], "convox.yml".toList],
      .file ⟨0o644, 0, "services:\n  web:\n    build: .\n".toUTF8⟩),
    ([['a', 'p', 'p']], .dir)], .ofString "/app"⟩

/-- It is built on a platform in memory, and the session is to go on for a while. -/
def unsyncable : Scene Memory where
  platform := Memory.platform
  interruption := ⟨5000, true⟩
  files _ := unsyncableTree
  events _ := []
  inspector := ⟨fun _ => .ok [], fun _ => .ok ""⟩
  builder? := none

/-- The session builds the app and syncs all services. -/
def unsyncableOptions : SessionOptions :=
  ⟨"dev", .ofString "/app", true, true, false, none, none, true⟩

/-- The platform has the app, and builds come about at once. -/
def unsyncableStart : Memory :=
  { Memory.empty with
    apps := [("dev", ⟨"dev", "2", "", "running"⟩)]
    buildStatuses := [.complete] }

theorem unsyncable_developed :
    (run unsyncable unsyncableOptions Timings.default (World.start unsyncableStart)).2.Developed := by
  decide +kernel

theorem unsyncable_leavesEarly :
    leavesEarly (run unsyncable unsyncableOptions Timings.default (World.start unsyncableStart)).1 =
      true := by
  decide +kernel

/-- **A session can leave the app in development**: it has promoted a release, fails to resolve
what is to be synced, and although the app can be had and references that release, nothing
takes it out of development. -/
theorem left_in_development :
    let out := run unsyncable unsyncableOptions Timings.default (World.start unsyncableStart)
    out.2.Developed ∧ leavesEarly out.1 = true ∧
      (∃ app, (unsyncable.platform.answer (.appGet "dev") out.2.state).1 = .ok app ∧
        app.release = "R-B0002") ∧
      ¬ out.2.Demoted "dev" "R-B0002" := by
  intro out
  have referenced : (unsyncable.platform.answer (.appGet "dev") out.2.state).1.toOption.map
      App.release = some "R-B0002" := by decide +kernel
  have undemoted : ¬ out.2.Demoted "dev" "R-B0002" := by decide +kernel
  exact ⟨unsyncable_developed, unsyncable_leavesEarly, exists_of_toOption referenced, undemoted⟩

/-- It orders no release at all out of development. -/
theorem unsyncable_demotes_nothing :
    let out := run unsyncable unsyncableOptions Timings.default (World.start unsyncableStart)
    out.2.Developed ∧ ∀ release, ¬ out.2.Demoted "dev" release := by
  intro out
  refine ⟨unsyncable_developed, fun release demoted => ?_⟩
  obtain ⟨_, -, -, -, -, -, iff⟩ :=
    run_demotes_iff unsyncable unsyncableOptions Timings.default unsyncable_developed
  have orderly := ((iff release).1 demoted).1
  exact absurd (unsyncable_leavesEarly.symm.trans orderly) (by decide)

end Session

end DevMode
