/-
# DevMode.Proofs.Cancelled -- what becomes of a session that is cancelled

A session can be cancelled in two ways, by firing its signal or by dropping the last trigger of it.
Either way ends the wait for a build.  The wait over, the session has the build once more, and when it
has been given that it only asks whether the signal is fired by then, however the wait came to its end.
If not, it goes on as if the build were complete.  So a session whose last trigger is gone too early
promotes whatever release the build has then, or fails because there is none; and one whose signal is
fired when a look is already under way promotes nothing, though that finds the build complete.

`run_ok_iff` says this of all sessions that build on the platform and in which nothing else goes
wrong: their setup is in order (`Session.Prepared`), the build is not seen to have failed
(`BuildJob.Proceeds`) and no call is answered with a failure (`World.Troubled`).
`fails_without_trigger` is a session that fails so.

* `run_eq` cuts a session that builds on the platform at the wait for the build.
* `Attempt.SoundAt` says that an attempt fails only by a call that failed, and `soundAt_bind` that
  this holds of what is made of such attempts.
* `BuildJob.seeThrough_went` says behind which looks a build is had once more, and that the
  interruption is there by then if it cut the wait short.
* `outcome_behind_wait` is what follows for the session.
-/
import DevMode.Proofs.Polling
import DevMode.Proofs.Teardown

namespace DevMode

set_option autoImplicit false

variable {σ : Type}

/-! ## Failures of calls -/

/-- A call was answered with a failure. -/
def Occurrence.failed : Occurrence → Bool
  | called _ (some _) => true
  | _ => false

/-- Some call was answered with a failure. -/
def World.Troubled (w : World σ) : Prop := ∃ o ∈ w.past, o.2.failed = true

instance (w : World σ) : Decidable w.Troubled :=
  inferInstanceAs (Decidable (∃ o ∈ w.past, o.2.failed = true))

theorem World.Troubled.of_suffix {w w' : World σ} (troubled : w.Troubled) (older : w.past <:+ w'.past) :
    w'.Troubled := by
  obtain ⟨o, member, failed⟩ := troubled
  exact ⟨o, older.subset member, failed⟩

theorem World.troubled_awaited {w : World σ} {p : Platform σ} {c : Call} {e : PlatformError}
    (failed : (p.answer c w.state).1 = .error e) : (w.awaited p c).Troubled :=
  ⟨_, List.mem_cons_self, by rw [failed]; rfl⟩

theorem World.troubled_of_asked {w : World σ} {o : Nat × Occurrence} (member : o ∈ w.asked)
    (failed : o.2.failed = true) : w.Troubled :=
  ⟨o, List.mem_reverse.1 (List.mem_filter.1 member).1, failed⟩

namespace Attempt

variable {ε δ α β : Type}

/-- From a world on, an attempt fails only by a call that failed. -/
def SoundAt (x : Attempt σ ε α) (w : World σ) : Prop :=
  ∀ e, (x w).1 = .error e → (x w).2.Troubled

/-- What only adds to a world where a call has failed is sound there. -/
theorem Asks.soundAt {listed : List Purpose} {x : Attempt σ ε α} (asks : Asks listed x) {w : World σ}
    (troubled : w.Troubled) : x.SoundAt w :=
  fun _ _ => troubled.of_suffix (asks w).suffix

theorem soundAt_pure (a : α) (w : World σ) : (pure a : Attempt σ ε α).SoundAt w :=
  fun _ failed => nomatch failed

theorem soundAt_lift (x : Act σ α) (w : World σ) : (liftM x : Attempt σ ε α).SoundAt w :=
  fun _ failed => nomatch failed

theorem soundAt_act (x : Act σ α) (w : World σ) : (act x : Attempt σ ε α).SoundAt w :=
  fun _ failed => nomatch failed

theorem soundAt_ofExcept {r : Except ε α} (fine : ∃ a, r = .ok a) (w : World σ) :
    (ofExcept r : Attempt σ ε α).SoundAt w := by
  obtain ⟨a, rfl⟩ := fine
  exact fun _ failed => nomatch failed

theorem SoundAt.adapt {x : Attempt σ ε α} {w : World σ} (sound : x.SoundAt w) (f : ε → δ) :
    SoundAt (ExceptT.adapt f x : Attempt σ δ α) w := by
  intro e failed
  rw [adapt_apply] at failed ⊢
  cases went : (x w).1 with
  | ok a => rw [went] at failed; cases failed
  | error e' => exact sound e' went

/-- **One attempt after another.** -/
theorem soundAt_bind {x : Attempt σ ε α} {f : α → Attempt σ ε β} {w : World σ} (first : x.SoundAt w)
    (later : ∀ a, (x w).1 = .ok a → (f a).SoundAt (x w).2) : (x >>= f).SoundAt w := by
  intro e failed
  rw [bind_apply] at failed ⊢
  cases went : (x w).1 with
  | ok a => rw [went] at failed; exact later a went e failed
  | error e' => exact first e' went

theorem soundAt_mapM {f : α → Attempt σ ε β} {l : List α} (each : ∀ a ∈ l, ∀ w, (f a).SoundAt w)
    (w : World σ) : (l.mapM f).SoundAt w := by
  induction l generalizing w with
  | nil =>
      rw [List.mapM_nil]
      exact soundAt_pure _ w
  | cons a l ih =>
      rw [List.mapM_cons]
      exact soundAt_bind (each a List.mem_cons_self w) fun b _ =>
        soundAt_bind (ih (fun b member => each b (List.mem_cons_of_mem a member)) _) fun bs _ =>
          soundAt_pure _ _

/-- Where no call failed, one attempt goes on from the other. -/
theorem exists_of_calm {x : Attempt σ ε α} {f : α → Attempt σ ε β} {w : World σ}
    (sound : x.SoundAt w) (calm : ¬ ((x >>= f) w).2.Troubled) :
    ∃ a w', x w = (.ok a, w') ∧ (x >>= f) w = f a w' := by
  rcases bind_cases x f w with ⟨e, w', failed, out⟩ | went
  · rw [out] at calm
    have troubled := sound e (congrArg Prod.fst failed)
    rw [failed] at troubled
    exact absurd troubled calm
  · exact went

theorem adapt_bind (f : ε → δ) (x : Attempt σ ε α) (g : α → Attempt σ ε β) :
    (ExceptT.adapt f (x >>= g) : Attempt σ δ β) =
      ExceptT.adapt f x >>= fun a => ExceptT.adapt f (g a) := by
  funext w
  rw [bind_apply, adapt_apply, adapt_apply, bind_apply]
  cases (x w).1 <;> rfl

end Attempt

theorem Scene.soundAt_require {ε : Type} (scene : Scene σ) (failure : PlatformError → ε) (c : Call)
    (w : World σ) : (scene.require failure c).SoundAt w := by
  intro e failed
  rw [Scene.require_apply] at failed ⊢
  cases answer : (scene.platform.answer c w.state).1 with
  | ok a => rw [answer] at failed; cases failed
  | error e' => exact World.troubled_awaited answer

/-! ## Parts of a session -/

/-- The services of a manifest that are followed can be resolved at any time. -/
def Session.Resolves (scene : Scene σ) (options : SessionOptions) (manifest : Manifest) : Prop :=
  ∀ service ∈ manifest.services, (manifest.interest options.services).contains service.name →
    ∀ time, (∃ sources, service.sources (scene.files time) options.root scene.inspector =
        .ok sources) ∧
      ∃ rules, Ignore.Ruleset.forService (scene.files time) options.root service = .ok rules

/-- The setup of a session is in order, as the platform is when it begins: the app is named and of a
generation that knows development, the manifest is valid and its services can be resolved, and the
build context can be had. -/
structure Session.Prepared (scene : Scene σ) (options : SessionOptions) (s : σ) : Prop where
  named : options.app ≠ ""
  supported : ∀ app, (scene.platform.answer (.appGet options.app) s).1 = .ok app →
    app.generation ∈ supportedGenerations
  manifest : ∀ time env, (scene.platform.answer (.appEnvironment options.app)
      (scene.platform.answer (.appGet options.app) s).2).1 = .ok env →
    ∃ manifest, Manifest.loadFile env (scene.files time)
        (options.root.join (.ofString (options.manifest.getD BuildJob.defaultManifest))) =
          .ok manifest ∧
      manifest.validate = .ok () ∧ Resolves scene options manifest
  context : ∀ time, ∃ entries, BuildContext.entries (scene.files time) options.root = .ok entries

namespace BuildJob

variable (scene : Scene σ) (job : BuildJob)

theorem soundAt_require (operation : String) (c : Call) (w : World σ) :
    (require scene operation c).SoundAt w :=
  scene.soundAt_require _ c w

variable {scene job}

theorem soundAt_begin
    (context : ∀ time, ∃ entries, BuildContext.entries (scene.files time) job.root = .ok entries)
    (w : World σ) : (job.begin scene).SoundAt w := by
  unfold begin
  refine Attempt.soundAt_bind (Attempt.soundAt_act _ w) fun _ _ =>
    Attempt.soundAt_bind (Attempt.soundAt_lift scene.tree _) fun tree found => ?_
  obtain rfl := Except.ok.inj found
  exact Attempt.soundAt_bind (Attempt.soundAt_ofExcept (context _) _) fun _ _ =>
    Attempt.soundAt_bind (soundAt_require scene _ _ _) fun _ _ =>
    Attempt.soundAt_bind (Attempt.soundAt_act _ _) fun _ _ =>
    Attempt.soundAt_bind (soundAt_require scene _ _ _) fun _ _ =>
    Attempt.soundAt_bind (soundAt_require scene _ _ _) fun _ _ =>
    Attempt.soundAt_bind (Attempt.soundAt_lift _ _) fun _ _ => Attempt.soundAt_pure _ _

/-- A build is not seen to have failed, however often it is looked at. -/
def Proceeds (scene : Scene σ) (job : BuildJob) (id : String) (s : σ) : Prop :=
  ∀ n build, job.look scene id n s = .ok build →
    build.status = .created ∨ build.status = .running ∨ build.status = .complete

theorem Proceeds.verdict {id : String} {s : σ} (proceeds : job.Proceeds scene id s) {n : Nat}
    {build : Build} (seen : job.look scene id n s = .ok build) :
    verdict? build.status = if build.status = .complete then some (.ok ()) else none := by
  rcases proceeds n build seen with h | h | h <;> rw [h] <;> rfl

theorem soundAt_waitCopying {id : String} (copy : LogCopy) {w : World σ}
    (proceeds : job.Proceeds scene id w.state) : (job.waitCopying scene id copy).SoundAt w := by
  intro e failed
  obtain ⟨n, found?, ends, came, asked⟩ := job.waitCopying_asked scene id copy w
  rw [failed] at came
  rcases ends.last with ⟨-, rfl, -⟩ | ⟨-, found, some_found, -⟩
  · cases came
  · cases answer : job.look scene id n w.state with
    | error e' =>
        rw [if_pos some_found] at asked
        have last : (job.lookTime scene id w.now w.state n, Occurrence.called (.buildGet job.app id)
            (Act.failure? (job.look scene id n w.state))) ∈ (job.waitCopying scene id copy w).2.asked := by
          rw [asked]
          exact List.mem_append_right _ (List.mem_map.2 ⟨n, List.mem_range.2 (Nat.lt_succ_self n), rfl⟩)
        refine World.troubled_of_asked last ?_
        rw [answer]
        rfl
    | ok build =>
        rw [found, answer, outcome?, proceeds.verdict answer] at came
        split at came <;> cases came

/-! ### Waits that are cut short -/

section Waits

variable (scene job) (id : String) (start : Nat) (s : σ)

/-- The wait for a build is interrupted before a look is due that finds it complete. -/
def CutShort : Prop :=
  ∀ n build, job.look scene id n s = .ok build → build.status = .complete →
    scene.interruption.time ≤ job.lookTime scene id start s n

/-- So many looks at a build are taken: each due before the interruption, up to the first that finds
the build complete. -/
structure Takes (looks : Nat) : Prop where
  early : ∀ n < looks, job.lookTime scene id start s n < scene.interruption.time
  first : ∀ n build, n < looks → job.look scene id n s = .ok build → build.status = .complete →
    looks = n + 1
  ended : scene.interruption.time ≤ job.lookTime scene id start s looks ∨
    ∃ n build, looks = n + 1 ∧ job.look scene id n s = .ok build ∧ build.status = .complete

end Waits

/-- **How a wait ends where nothing fails**: so many looks are taken, and the interruption is there by
then if it cut the wait short. -/
theorem takes_of_ends {id : String} {s : σ} (proceeds : job.Proceeds scene id s) {start n : Nat}
    {found? : Option (Except BuildError Unit)} {w : World σ}
    (ends : job.Ends scene id (job.lookTime scene id start s) s n found? w)
    (went : found?.getD (.ok ()) = .ok ()) :
    ∃ looks, job.Takes scene id start s looks ∧ w.state = job.afterLooks scene id looks s ∧
      (job.CutShort scene id start s → scene.interruption.time ≤ w.now) := by
  have pending : ∀ k < n, ∀ build, job.look scene id k s = .ok build → build.status ≠ .complete := by
    intro k before build seen complete
    have nothing := (ends.before k before).2
    rw [seen, outcome?, complete] at nothing
    cases nothing
  rcases ends.last with ⟨late, -, now, state⟩ | ⟨early, came, some_found, -, state⟩
  · exact ⟨n, ⟨fun k before => (ends.before k before).1, fun k build before seen complete =>
      absurd complete (pending k before build seen), .inl late⟩, state, fun _ => now⟩
  · obtain ⟨build, seen, complete⟩ : ∃ build, job.look scene id n s = .ok build ∧
        build.status = .complete := by
      cases seen : job.look scene id n s with
      | error e =>
          rw [came, seen] at went
          cases went
      | ok build =>
          refine ⟨build, rfl, ?_⟩
          rw [came, seen, outcome?, proceeds.verdict seen] at some_found
          by_cases complete : build.status = .complete
          · exact complete
          · rw [if_neg complete] at some_found
            cases some_found
    refine ⟨n + 1, ⟨fun k before => ?_, fun k build' before seen' complete' => ?_,
      .inr ⟨n, build, rfl, seen, complete⟩⟩, state, fun cut => ?_⟩
    · rcases Nat.lt_succ_iff_lt_or_eq.1 before with before | rfl
      · exact (ends.before k before).1
      · exact early
    · rcases Nat.lt_succ_iff_lt_or_eq.1 before with before | rfl
      · exact absurd complete' (pending k before build' seen')
      · rfl
    · exact absurd (cut n build seen complete) (Nat.not_le_of_lt early)

theorem soundAt_seeThrough {id : String} {copy : LogCopy} {w : World σ}
    (proceeds : job.Proceeds scene id w.state) : (job.seeThrough scene id copy).SoundAt w := by
  unfold seeThrough
  exact Attempt.soundAt_bind (soundAt_waitCopying copy proceeds) fun _ _ => soundAt_require scene _ _ _

variable (scene job) in
theorem asks_seeThrough (id : String) (copy : LogCopy) :
    Attempt.Asks [.build] (job.seeThrough scene id copy) := by
  unfold seeThrough
  exact Attempt.adds_bind (job.adds_waitCopying scene id copy).asks fun _ =>
    (adds_require scene (List.mem_singleton_self _)).asks

/-- **A build that is seen through** is had as the platform has it behind the looks that were taken, and
the interruption is there by then if it cut the wait short. -/
theorem seeThrough_went {id : String} {copy : LogCopy} {w w' : World σ} {found : Build}
    (proceeds : job.Proceeds scene id w.state)
    (went : job.seeThrough scene id copy w = (.ok found, w')) :
    ∃ looks, job.Takes scene id w.now w.state looks ∧ job.look scene id looks w.state = .ok found ∧
      (job.CutShort scene id w.now w.state → scene.interruption.time ≤ w'.now) := by
  unfold seeThrough at went
  obtain ⟨_, w₁, waited, had⟩ := Attempt.bind_went went
  obtain ⟨n, found?, ends, came⟩ := job.waitCopying_ends scene id copy w
  rw [waited] at ends came
  obtain ⟨looks, takes, state, cut⟩ := takes_of_ends proceeds ends came.symm
  obtain ⟨answer, same⟩ := scene.require_went had
  refine ⟨looks, takes, ?_, ?_⟩
  · rw [look, ← state]
    exact answer
  · rw [same, World.awaited_now]
    exact fun short => Nat.le_trans (cut short) (Nat.le_add_right _ _)

end BuildJob

namespace Session

variable (scene : Scene σ) (options : SessionOptions) (timings : Timings)

/-- What a session does before it waits for its build. -/
def launch : Attempt σ SessionError (Manifest × Build × LogCopy) := do
  prepareApp scene options
  let manifest ← loadManifest scene options
  let (build, copy) ← ExceptT.adapt .build ((job options timings).begin scene)
  return (manifest, build, copy)

/-- What a session does once its build is over, and not fired meanwhile. -/
def settle (manifest : Manifest) (build : Build) : Attempt σ SessionError Unit := do
  ExceptT.adapt .build ((job options timings).promote scene build)
  accompany scene options timings manifest
  tearDown scene options (job options timings)

/-- What a session does from the time on when it waits for its build. -/
def await (manifest : Manifest) (build : Build) (copy : LogCopy) : Attempt σ SessionError Unit := do
  let found ← ExceptT.adapt .build ((job options timings).seeThrough scene build.id copy)
  if ← scene.isFired then return
  settle scene options timings manifest found

theorem run_eq (named : options.app ≠ "") (builds : options.build = true)
    (inside : options.external = false) {w : World σ}
    (going : scene.interruption.fired w.now = false) :
    run scene options timings w =
      (launch scene options timings >>= fun l => await scene options timings l.1 l.2.1 l.2.2) w := by
  have given : options.app.isEmpty = false := by simpa using named
  unfold run
  rw [Attempt.bind_ok (a := false) (by simp [going])]
  simp only [given, deploy, builds, inside, BuildJob.build, BuildJob.buildInside_eq, launch, await,
    settle, bind_assoc, pure_bind, Attempt.adapt_bind, if_true, if_false, Bool.false_eq_true]
  refine congrFun (bind_congr fun _ => bind_congr fun manifest => bind_congr fun begun =>
    bind_congr fun found => bind_congr fun fired => ?_) w
  cases fired with
  | true => rfl
  | false =>
      simp only [accompany, plans, bind_assoc, pure_bind, if_true, if_false, Bool.false_eq_true]
      by_cases sync : options.sync = true
      · simp only [sync, if_true]
      · simp only [sync, if_false, Bool.false_eq_true, pure_bind]

/-! ### Soundness -/

section Sound

theorem asks_launch :
    Attempt.Asks [.app, .build] (launch scene options timings) := by
  unfold launch
  have app_only : ([.app] : List Purpose) ⊆ [.app, .build] := List.cons_subset_cons _ (List.nil_subset _)
  have build_only : ([.build] : List Purpose) ⊆ [.app, .build] := List.subset_cons_self _ _
  exact Attempt.adds_bind ((adds_prepareApp scene options).asks.mono app_only) fun _ =>
    Attempt.adds_bind ((adds_loadManifest scene options).asks.mono app_only) fun _ =>
    Attempt.adds_bind
      (Attempt.adds_adapt (((job options timings).adds_begin scene).asks.mono build_only) _)
      fun _ => Attempt.adds_pure _

variable {scene options}

/-- The app is there and known to development, unless a call failed. -/
theorem soundAt_prepareApp {w : World σ}
    (supported : ∀ app, (scene.platform.answer (.appGet options.app) w.state).1 = .ok app →
      app.generation ∈ supportedGenerations) :
    (prepareApp scene options).SoundAt w ∧ ((prepareApp scene options w).2.Troubled ∨
      prepareApp scene options w = (.ok (), w.awaited scene.platform (.appGet options.app))) := by
  have out : prepareApp scene options w = _ := Attempt.bind_ok
    (a := (scene.platform.answer (.appGet options.app) w.state).1) rfl
  cases answer : (scene.platform.answer (.appGet options.app) w.state).1 with
  | ok app =>
      rw [answer] at out
      simp only [if_pos (supported app answer)] at out
      refine ⟨fun e failed => ?_, .inr out⟩
      rw [out] at failed
      cases failed
  | error e' =>
      have troubled : (prepareApp scene options w).2.Troubled := by
        have told := World.troubled_awaited answer
        rw [out, answer]
        cases e' with
        | notFound kind id =>
            exact told.of_suffix ((Attempt.adds_bind
              (scene.adds_require (Occurrence.SetsUp.call (List.mem_singleton_self _)))
              fun _ => Attempt.adds_pure _) _).suffix
        | request | io => exact told
      exact ⟨fun _ _ => troubled, .inl troubled⟩

/-- A manifest is loaded and can be resolved, unless its environment cannot be had. -/
theorem soundAt_loadManifest {s : σ} (prepared : Prepared scene options s) {w : World σ}
    (looked : w.state = (scene.platform.answer (.appGet options.app) s).2) :
    (loadManifest scene options).SoundAt w ∧
      ∀ manifest, (loadManifest scene options w).1 = .ok manifest →
        Resolves scene options manifest := by
  cases answer : (scene.platform.answer (.appEnvironment options.app) w.state).1 with
  | error e' =>
      have failed : (require scene "app environment" (.appEnvironment options.app) w).1 =
          .error (.platform "app environment" e') := by
        rw [require, Scene.require_apply, answer]
        rfl
      have out : loadManifest scene options w = (.error _, _) := Attempt.bind_error failed
      rw [out]
      refine ⟨fun e _ => ?_, fun manifest loaded => by cases loaded⟩
      rw [out, require, Scene.require_apply]
      exact World.troubled_awaited answer
  | ok env =>
      obtain ⟨manifest, loaded, valid, resolves⟩ := prepared.manifest
        (w.awaited scene.platform (.appEnvironment options.app)).now env (looked ▸ answer)
      have out : (loadManifest scene options w).1 = .ok manifest :=
        congrArg Prod.fst (loadManifest_of_loaded scene options (looked ▸ answer) loaded valid)
      refine ⟨fun e failed => ?_, fun manifest' loaded' => ?_⟩
      · rw [out] at failed
        cases failed
      · rw [out] at loaded'
        obtain rfl := Except.ok.inj loaded'
        exact resolves

theorem soundAt_resolveService {service : Service}
    (fine : ∀ time, (∃ sources, service.sources (scene.files time) options.root scene.inspector =
        .ok sources) ∧
      ∃ rules, Ignore.Ruleset.forService (scene.files time) options.root service = .ok rules)
    (w : World σ) : (resolveService scene options service).SoundAt w := by
  unfold resolveService
  refine Attempt.soundAt_bind (Attempt.soundAt_lift scene.tree _) fun tree found => ?_
  obtain rfl := Except.ok.inj found
  obtain ⟨⟨some_sources, sources⟩, some_rules, rules⟩ := fine w.now
  refine Attempt.soundAt_bind (Attempt.soundAt_ofExcept ⟨some_sources, ?_⟩ _) fun _ _ =>
    Attempt.soundAt_bind (Attempt.soundAt_ofExcept ⟨some_rules, ?_⟩ _) fun _ _ =>
      Attempt.soundAt_pure _ _
  · exact congrArg (Except.mapError _) sources
  · exact congrArg (Except.mapError _) rules

theorem soundAt_plans {manifest : Manifest} (resolves : Resolves scene options manifest)
    (w : World σ) : (plans scene options manifest).SoundAt w := by
  unfold plans
  split
  · refine Attempt.soundAt_mapM (fun service member => ?_) w
    obtain ⟨listed, wanted⟩ := List.mem_filter.1 member
    exact soundAt_resolveService (resolves service listed (Bool.and_eq_true_iff.1 wanted).1)
  · exact Attempt.soundAt_pure _ w

/-- Tasks only add to what happened, whatever they are for. -/
theorem suffix_passFor (n : Nat) (t : Tasks) (w : World σ) :
    w.past <:+ (Act.passFor (stepTasks scene) n t w).2.past := by
  have steps (t : Tasks) (_ : True) : Act.Adds (fun _ => True) (stepTasks scene t) := by
    refine Act.adds_bind (fun w => ?_) fun follower => Act.adds_bind scene.adds_isReleased fun _ => ?_
    · exact (t.follower.adds_stepUntil _ _ [] w).1.mono fun _ _ => trivial
    · split
      · exact Act.adds_pure _
      · refine Act.adds_bind (Act.adds_mapM fun watcher _ => ?_) fun _ =>
          Act.adds_bind (Act.adds_displayReports fun _ => trivial) fun _ => Act.adds_pure _
        have adds : Act.Adds (Occurrence.Accompanies watcher.app [] [watcher.service])
            (watcher.step scene) := Sync.Watcher.adds_step scene (List.mem_singleton_self _)
        exact adds.mono fun _ _ => trivial
  exact (Act.adds_passFor steps (fun _ _ _ => trivial) n (b := t) trivial w).suffix

theorem soundAt_follow (t : Tasks) (w : World σ) : (follow scene options timings t).SoundAt w := by
  unfold follow
  refine Attempt.soundAt_bind (Attempt.soundAt_lift _ w) fun started _ =>
    Attempt.soundAt_bind (Attempt.soundAt_act _ _) fun waited found =>
    Attempt.soundAt_bind ?_ fun _ _ =>
    Attempt.soundAt_bind (Attempt.soundAt_act _ _) fun _ _ => Attempt.soundAt_pure _ _
  -- An answer that comes to a failure is the last one, and tasks go on until it is there.
  intro e failed
  have came : waited.1 = some (.error e) := by
    cases outcome : waited.1 with
    | none => rw [outcome] at failed; cases failed
    | some r => rw [outcome] at failed; exact congrArg some failed
  rw [← Except.ok.inj found] at came
  obtain ⟨t', w', meant, last⟩ := Act.poll_some _ _ came
  show World.Troubled (Act.poll ..).2
  rw [last, Act.awaitBeside_apply]
  dsimp only
  cases answer : (scene.platform.answer (.appGet options.app) w'.state).1 with
  | ok app =>
      rw [answer] at meant
      by_cases running : app.status = runningStatus <;> simp [running?, running] at meant
  | error e' =>
      have asked : (w'.answered scene.platform (.appGet options.app)).Troubled :=
        World.troubled_awaited answer
      exact asked.of_suffix (suffix_passFor _ _ _)

theorem soundAt_tearDown (job : BuildJob) (w : World σ) :
    (tearDown scene options job).SoundAt w := by
  unfold tearDown
  refine Attempt.soundAt_bind (Attempt.soundAt_lift _ w) fun answer _ => ?_
  split
  · exact Attempt.soundAt_pure _ _
  · refine Attempt.soundAt_bind (Attempt.soundAt_act _ _) fun _ _ => ?_
    split
    · exact Attempt.soundAt_pure _ _
    · exact (BuildJob.soundAt_require scene _ _ _).adapt _

/-- A session is launched, and with a manifest that can be resolved, unless a call failed. -/
theorem soundAt_launch {s : σ} (prepared : Prepared scene options s) :
    (launch scene options timings).SoundAt (World.start s) ∧
      ∀ manifest build copy w, launch scene options timings (World.start s) =
          (.ok (manifest, build, copy), w) → ¬ w.Troubled → Resolves scene options manifest := by
  obtain ⟨sound, outcome⟩ := @soundAt_prepareApp σ scene options (World.start s) prepared.supported
  refine ⟨?_, ?_⟩
  · unfold launch
    refine Attempt.soundAt_bind sound fun _ _ => Attempt.soundAt_bind ?_ fun _ _ =>
      Attempt.soundAt_bind
        ((@BuildJob.soundAt_begin σ scene (job options timings) prepared.context _).adapt _)
        fun _ _ => Attempt.soundAt_pure _ _
    rcases outcome with troubled | same
    · exact (adds_loadManifest scene options).asks.soundAt troubled
    · rw [same]
      exact (soundAt_loadManifest prepared rfl).1
  · intro manifest build copy w launched calm
    unfold launch at launched
    obtain ⟨_, w₁, began, launched⟩ := Attempt.bind_went launched
    obtain ⟨manifest', w₂, loaded, launched⟩ := Attempt.bind_went launched
    obtain ⟨begun, w₃, built, launched⟩ := Attempt.bind_went launched
    obtain ⟨same, rfl⟩ := Prod.mk.inj launched
    obtain rfl : manifest' = manifest := congrArg Prod.fst (Except.ok.inj same)
    rw [began] at outcome
    rcases outcome with troubled | same
    · have loads := (adds_loadManifest scene options).asks w₁
      rw [loaded] at loads
      have builds := ((job options timings).adds_begin scene).asks w₂
      rw [Attempt.adapt_went built] at builds
      exact absurd ((troubled.of_suffix loads.suffix).of_suffix builds.suffix) calm
    · obtain rfl := congrArg Prod.snd same
      exact (soundAt_loadManifest prepared rfl).2 _ (congrArg Prod.fst loaded)

/-- Promoting fails otherwise only if there is nothing to promote. -/
theorem soundAt_settle {manifest : Manifest} (resolves : Resolves scene options manifest)
    {build : Build} (released : build.release ≠ "") (w : World σ) :
    (settle scene options timings manifest build).SoundAt w := by
  unfold settle
  refine Attempt.soundAt_bind ?_ fun _ _ => Attempt.soundAt_bind ?_ fun _ _ =>
    soundAt_tearDown _ _
  · have given : build.release.isEmpty = false := by simpa using released
    rw [BuildJob.promote, given, if_neg Bool.false_ne_true]
    exact (BuildJob.soundAt_require scene _ _ _).adapt _
  · exact Attempt.soundAt_bind (soundAt_plans resolves _) fun _ _ => soundAt_follow timings _ _

/-- **A session goes on from its wait** with the build as the platform has it then, unless the signal
is fired by the time it has been given that. -/
theorem exists_found {manifest : Manifest} {build : Build} {copy : LogCopy} {w : World σ}
    (proceeds : (job options timings).Proceeds scene build.id w.state)
    (calm : ¬ (await scene options timings manifest build copy w).2.Troubled) :
    ∃ found w', (job options timings).seeThrough scene build.id copy w = (.ok found, w') ∧
      await scene options timings manifest build copy w =
        if scene.interruption.fired w'.now then (.ok (), w')
        else settle scene options timings manifest found w' := by
  unfold await at calm ⊢
  obtain ⟨found, w', seen, out⟩ := Attempt.exists_of_calm
    ((BuildJob.soundAt_seeThrough proceeds).adapt _) calm
  refine ⟨found, w', Attempt.adapt_went seen, ?_⟩
  rw [out, Attempt.bind_ok (a := scene.interruption.fired w'.now) rfl]
  cases scene.interruption.fired w'.now <;> rfl

/-- What was there before the end is there at the end. -/
theorem suffix_ending (manifest : Manifest) (w : World σ) :
    w.past <:+ ((accompany scene options timings manifest >>= fun _ =>
      tearDown scene options (job options timings)) w).2.past := by
  have followed := asks_accompany scene options timings manifest w
  rcases Attempt.bind_cases (accompany scene options timings manifest)
    (fun _ => tearDown scene options (job options timings)) w with
    ⟨e, w₁, failed, out⟩ | ⟨_, w₁, went, out⟩
  · rw [failed] at followed
    rw [out]
    exact followed.suffix
  · rw [went] at followed
    rw [out]
    exact followed.suffix.trans
      (@tearDown_spec σ scene options (job options timings) rfl w₁).1

theorem suffix_settle (manifest : Manifest) (build : Build) (w : World σ) :
    w.past <:+ (settle scene options timings manifest build w).2.past := by
  have promoted := (deploys_promote scene (job options timings) build w).past
  unfold settle
  rcases Attempt.bind_cases (ExceptT.adapt SessionError.build
      ((job options timings).promote scene build)) (fun _ =>
        accompany scene options timings manifest >>= fun _ =>
          tearDown scene options (job options timings)) w with
    ⟨e, w₁, failed, out⟩ | ⟨_, w₁, went, out⟩
  · obtain rfl := congrArg Prod.snd failed
    rw [out]
    exact promoted
  · obtain rfl := congrArg Prod.snd went
    rw [out]
    exact promoted.trans (suffix_ending timings manifest _)

/-- Where no call failed, a release is promoted once it is there, and otherwise that is all. -/
theorem settle_cases {manifest : Manifest} (resolves : Resolves scene options manifest)
    {build : Build} {w : World σ}
    (calm : ¬ (settle scene options timings manifest build w).2.Troubled) :
    (build.release = "" ∧ settle scene options timings manifest build w =
        (.error (.build (.noRelease build.id)), w)) ∨
      (build.release ≠ "" ∧ (settle scene options timings manifest build w).1 = .ok () ∧
        ∃ time, (time, .called (.releasePromote options.app build.release .forDevelopment) none) ∈
          (settle scene options timings manifest build w).2.past) := by
  by_cases released : build.release = ""
  · refine .inl ⟨released, ?_⟩
    have failed : (ExceptT.adapt .build ((job options timings).promote scene build) :
        Attempt σ SessionError Unit) w = (.error (.build (.noRelease build.id)), w) := by
      rw [Attempt.adapt_apply, BuildJob.promote, released]
      rfl
    rw [settle, Attempt.bind_error (congrArg Prod.fst failed), failed]
  · refine .inr ⟨released, ?_, ?_⟩
    · cases out : (settle scene options timings manifest build w).1 with
      | ok => rfl
      | error e => exact absurd (soundAt_settle timings resolves released w e out) calm
    · unfold settle at calm ⊢
      have given : build.release.isEmpty = false := by simpa using released
      have ordered : Attempt.SoundAt (ExceptT.adapt SessionError.build
          ((job options timings).promote scene build)) w := by
        rw [BuildJob.promote, given, if_neg Bool.false_ne_true]
        exact (BuildJob.soundAt_require scene _ _ _).adapt _
      obtain ⟨_, w₁, promoted, out⟩ := Attempt.exists_of_calm ordered calm
      rw [out]
      have promoted := Attempt.adapt_went promoted
      rw [BuildJob.promote, given, if_neg Bool.false_ne_true] at promoted
      obtain ⟨answer, same⟩ := scene.require_went promoted
      refine ⟨w.now, (suffix_ending timings manifest w₁).subset ?_⟩
      rw [same, World.past_awaited, World.answered, answer]
      exact List.mem_cons_self

/-- **What a session comes to behind its wait**, if no call failed: it is over if the signal is fired
by then, and otherwise it stands or falls with the release of the build. -/
theorem outcome_behind_wait {manifest : Manifest} (resolves : Resolves scene options manifest)
    {found : Build} {begin w : World σ} (waits : World.Grows [.app, .build] begin w)
    (undeveloped : ¬ begin.Developed) {out : Except SessionError Unit × World σ}
    (went : out = if scene.interruption.fired w.now then (.ok (), w)
      else settle scene options timings manifest found w)
    (calm : ¬ out.2.Troubled) :
    let fired := scene.interruption.fired w.now = true
    (out.1 = .ok () ↔ fired ∨ found.release ≠ "") ∧
      (out.1 ≠ .ok () → out.1 = .error (.build (.noRelease found.id))) ∧
      (out.2.Developed ↔ ¬ fired ∧ found.release ≠ "") ∧
      (¬ fired ∧ found.release ≠ "" → ∃ time,
        (time, .called (.releasePromote options.app found.release .forDevelopment) none) ∈
          out.2.past) ∧
      (fired → World.Grows [.app, .build] begin out.2) := by
  intro fired
  have still_undeveloped : ¬ w.Developed := by
    rwa [waits.developed_iff (by decide)]
  by_cases signalled : fired
  · rw [if_pos signalled] at went
    rw [went]
    exact ⟨by simp [signalled], by simp, by simp [signalled, still_undeveloped],
      fun going => absurd signalled going.1, fun _ => waits⟩
  · rw [if_neg signalled] at went
    rw [went] at calm ⊢
    rcases settle_cases timings resolves calm with ⟨unreleased, same⟩ | ⟨released, fine, promoted⟩
    · rw [same]
      exact ⟨by simp [signalled, unreleased], fun _ => rfl, by simp [still_undeveloped, unreleased],
        fun h => absurd unreleased h.2, fun was_fired => absurd was_fired signalled⟩
    · obtain ⟨time, member⟩ := promoted
      exact ⟨by simp [fine, released], fun failed => absurd fine failed,
        ⟨fun _ => ⟨signalled, released⟩, fun _ => ⟨_, member, rfl⟩⟩, fun _ => ⟨time, member⟩,
        fun was_fired => absurd was_fired signalled⟩

/-- **What becomes of a session that is cancelled**, where its setup is in order, its build is never
seen to have failed, and no call fails, however long the calls take.  It ends well at once if the signal
is fired before it begins.  Otherwise it launches a build and looks at it until that is complete or the
wait is interrupted, and then it has it once more.  If the signal is fired by the time it has been given
that, the session ends well and has promoted nothing.  So it is when firing the signal cut the wait
short, and also when the signal was fired after the last look was made.  In all other cases, also if the
wait was cut short because the last trigger is gone, it promotes the release of the build as it is then,
and fails if there is none. -/
theorem run_ok_iff {s : σ} (prepared : Prepared scene options s) (builds : options.build = true)
    (inside : options.external = false)
    (proceeds : ∀ manifest build copy w, launch scene options timings (World.start s) =
      (.ok (manifest, build, copy), w) → (job options timings).Proceeds scene build.id w.state)
    (calm : ¬ (run scene options timings (World.start s)).2.Troubled) :
    let out := run scene options timings (World.start s)
    (scene.interruption.fired 0 = true ∧ out = (.ok (), World.start s)) ∨
      ∃ manifest build copy w looks found w',
        launch scene options timings (World.start s) = (.ok (manifest, build, copy), w) ∧
        (job options timings).Takes scene build.id w.now w.state looks ∧
        (job options timings).look scene build.id looks w.state = .ok found ∧
        (job options timings).seeThrough scene build.id copy w = (.ok found, w') ∧
        let fired := scene.interruption.fired w'.now = true
        ((job options timings).CutShort scene build.id w.now w.state ∧
          scene.interruption.fires = true → fired) ∧
        (out.1 = .ok () ↔ fired ∨ found.release ≠ "") ∧
        (out.1 ≠ .ok () → out.1 = .error (.build (.noRelease found.id))) ∧
        (out.2.Developed ↔ ¬ fired ∧ found.release ≠ "") ∧
        (¬ fired ∧ found.release ≠ "" → ∃ time,
          (time, .called (.releasePromote options.app found.release .forDevelopment) none) ∈
            out.2.past) ∧
        (fired → World.Grows [.app, .build] (World.start s) out.2) := by
  intro out
  cases begun : scene.interruption.fired 0 with
  | true =>
      refine .inl ⟨rfl, ?_⟩
      show run scene options timings (World.start s) = _
      rw [run, Attempt.bind_ok (a := true) (congrArg Except.ok begun)]
      rfl
  | false =>
      have split : out = _ := run_eq scene options timings prepared.named builds inside begun
      rw [show run scene options timings (World.start s) = _ from split] at calm
      obtain ⟨⟨manifest, build, copy⟩, w, launched, rest⟩ :=
        Attempt.exists_of_calm (soundAt_launch timings prepared).1 calm
      rw [rest] at split calm
      have proceeds := proceeds manifest build copy w launched
      obtain ⟨found, w', seen, awaited⟩ := exists_found timings proceeds calm
      obtain ⟨looks, takes, had, cut⟩ := BuildJob.seeThrough_went proceeds seen
      have grows : World.Grows [.build] w w' := by
        have grows := (job options timings).asks_seeThrough scene build.id copy w
        rwa [seen] at grows
      have resolves : Resolves scene options manifest := by
        refine (soundAt_launch timings prepared).2 manifest build copy w launched fun troubled => ?_
        have troubled' := troubled.of_suffix grows.suffix
        rw [awaited] at calm
        split at calm
        · exact calm troubled'
        · exact calm (troubled'.of_suffix (suffix_settle timings manifest found w'))
      refine .inr ⟨manifest, build, copy, w, looks, found, w', launched, takes, had, seen, ?_⟩
      intro fired
      refine ⟨fun stopped => (Interruption.fired_iff _ _).2 ⟨cut stopped.1, stopped.2⟩, ?_⟩
      have begins : World.Grows [.app, .build] (World.start s) w := by
        have grows := asks_launch scene options timings (World.start s)
        rwa [launched] at grows
      have waits : World.Grows [.app, .build] (World.start s) w' :=
        begins.trans (grows.mono (List.subset_cons_self _ _))
      rw [awaited] at split calm
      exact outcome_behind_wait timings resolves waits (World.not_developed_start s) split
        (split ▸ calm)

end Sound

/-! ## A session without its last trigger -/

/-- An app whose only service has a ready image. -/
def imageTree : FileTree :=
  ⟨[(["app".toList, "convox.yml".toList],
      .file ⟨0o644, 0, "services:\n  web:\n    image: nginx\n".toUTF8⟩),
    (["app".toList], .dir)], .ofString "/app"⟩

/-- It is built on a platform in memory where a look at a build takes some time, and cancelled. -/
def cancelledWhileBuilding (i : Interruption) (takes : Nat) : Scene Memory where
  platform := Memory.taking fun
    | .buildGet .. => takes
    | _ => 0
  interruption := i
  files _ := imageTree
  events _ := []
  inspector := ⟨fun _ => .ok [], fun _ => .ok ""⟩
  builder? := none

def imageOptions : SessionOptions :=
  ⟨"dev", .ofString "/app", true, true, false, none, none, true⟩

/-- The platform has the app, and its builds are found to be of one status. -/
def buildingStart (status : BuildStatus) : Memory :=
  { Memory.empty with
    apps := [("dev", ⟨"dev", "2", "", "running"⟩)]
    buildStatuses := [status] }

def imageService : Service := ⟨"web", ⟨"", "Dockerfile"⟩, some "nginx"⟩

theorem loadFile_imageTree :
    Manifest.loadFile [] imageTree (.ofString "/app/convox.yml") = .ok ⟨[imageService]⟩ :=
  eq_ok_of_toOption (by decide +kernel)

theorem rules_imageTree : ∃ rules, Ignore.Ruleset.forService imageTree (.ofString "/app")
    imageService = .ok rules :=
  exists_of_isSome (by decide +kernel)

theorem context_imageTree : ∃ entries, BuildContext.entries imageTree (.ofString "/app") =
    .ok entries :=
  exists_of_isSome (by decide +kernel)

theorem prepared_cancelledWhileBuilding (i : Interruption) (takes : Nat) (status : BuildStatus) :
    Prepared (cancelledWhileBuilding i takes) imageOptions (buildingStart status) where
  named := by decide
  supported app answer := by
    obtain rfl := Except.ok.inj answer
    show "2" ∈ supportedGenerations
    decide
  manifest _ env answer := by
    obtain rfl := Except.ok.inj answer
    refine ⟨⟨[imageService]⟩, loadFile_imageTree, rfl, ?_⟩
    intro service member _ _
    obtain rfl := List.mem_singleton.1 member
    exact ⟨⟨[], rfl⟩, rules_imageTree⟩
  context _ := context_imageTree

/-- With one status scripted, each look at a build finds that. -/
theorem status_of_look {scene : Scene Memory}
    (in_memory : scene.platform.answer = Memory.platform.answer) (job : BuildJob) (id : String)
    {status : BuildStatus} (n : Nat) :
    ∀ {m : Memory}, m.buildStatuses = [status] → ∀ build, job.look scene id n m = .ok build →
      build.status = status := by
  have each (m : Memory) (scripted : m.buildStatuses = [status]) :
      (∀ build, (Memory.platform.answer (.buildGet job.app id) m).1 = .ok build →
        build.status = status) ∧
        (Memory.platform.answer (.buildGet job.app id) m).2.buildStatuses = [status] := by
    show (∀ build, (m.getBuild id).1 = .ok build → build.status = status) ∧
      (m.getBuild id).2.buildStatuses = [status]
    unfold Memory.getBuild
    cases m.builds.lookup id with
    | none => simp [scripted]
    | some b =>
        simp only [scripted, List.length_singleton, Nat.lt_irrefl, if_false, List.head?_cons,
          Except.ok.injEq, forall_eq', Memory.advanceBuild, Option.getD_some, Memory.putBuild]
        split <;> simp
  induction n with
  | zero =>
      intro m scripted build seen
      rw [BuildJob.look, in_memory] at seen
      exact (each m scripted).1 build seen
  | succ n ih =>
      intro m scripted build seen
      refine ih ?_ build seen
      rw [in_memory]
      exact (each m scripted).2

/-- The build that a session finds to have no release. -/
def unreleased? : Except SessionError Unit → Option String
  | .error (.build (.noRelease id)) => some id
  | _ => none

theorem eq_of_unreleased? {r : Except SessionError Unit} {id : String} (found : unreleased? r = some id) :
    r = .error (.build (.noRelease id)) := by
  unfold unreleased? at found
  split at found
  · rw [Option.some.inj found]
  · cases found

/-- A session that is launched finds its build of that status, however often it looks. -/
theorem status_of_launch {i : Interruption} {takes : Nat} {status : BuildStatus}
    (scripted : (launch (cancelledWhileBuilding i takes) imageOptions Timings.default
      (World.start (buildingStart status))).2.state.buildStatuses = [status])
    {manifest : Manifest} {build : Build} {copy : LogCopy} {w : World Memory}
    (launched : launch (cancelledWhileBuilding i takes) imageOptions Timings.default
      (World.start (buildingStart status)) = (.ok (manifest, build, copy), w)) (n : Nat) (found : Build)
    (seen : (job imageOptions Timings.default).look (cancelledWhileBuilding i takes) build.id n w.state =
      .ok found) : found.status = status := by
  rw [launched] at scripted
  exact status_of_look rfl _ _ n scripted found seen

/-- **A session whose last trigger is gone while it builds fails**, though its setup is in order and
no call fails: it goes on to promote a build that is still running. -/
theorem fails_without_trigger :
    let scene := cancelledWhileBuilding ⟨1500, false⟩ 0
    let start := World.start (buildingStart .running)
    let out := run scene imageOptions Timings.default start
    Prepared scene imageOptions (buildingStart .running) ∧
      (∀ manifest build copy w, launch scene imageOptions Timings.default start =
          (.ok (manifest, build, copy), w) → ∀ n found,
        (job imageOptions Timings.default).look scene build.id n w.state = .ok found →
          found.status = .running) ∧
      ¬ out.2.Troubled ∧ out.1 = .error (.build (.noRelease "B0002")) := by
  refine ⟨prepared_cancelledWhileBuilding _ _ _, fun _ _ _ _ => status_of_launch ?_, ?_, ?_⟩
  · decide +kernel
  · decide +kernel
  · exact eq_of_unreleased? (by decide +kernel)

/-- A session whose signal is fired while a look is under way ends well and promotes nothing, though
that look finds the build complete. -/
theorem run_ok_of_fired :
    let scene := cancelledWhileBuilding ⟨1050, true⟩ 100
    let start := World.start (buildingStart .complete)
    let out := run scene imageOptions Timings.default start
    Prepared scene imageOptions (buildingStart .complete) ∧
      (∀ manifest build copy w, launch scene imageOptions Timings.default start =
          (.ok (manifest, build, copy), w) → ∀ n found,
        (job imageOptions Timings.default).look scene build.id n w.state = .ok found →
          found.status = .complete) ∧
      ¬ out.2.Troubled ∧ out.1 = .ok () ∧ ¬ out.2.Developed := by
  intro scene start out
  have prepared : Prepared scene imageOptions (buildingStart .complete) :=
    prepared_cancelledWhileBuilding _ _ _
  have complete : ∀ manifest build copy w, launch scene imageOptions Timings.default start =
      (.ok (manifest, build, copy), w) → ∀ n found,
        (job imageOptions Timings.default).look scene build.id n w.state = .ok found →
          found.status = .complete :=
    fun _ _ _ _ => status_of_launch (by decide +kernel)
  have calm : ¬ out.2.Troubled := by decide +kernel
  refine ⟨prepared, complete, calm, ?_⟩
  rcases run_ok_iff Timings.default prepared rfl rfl
      (fun manifest build copy w launched n found seen =>
        .inr (.inr (complete manifest build copy w launched n found seen))) calm with
    ⟨fired, -⟩ | ⟨manifest, build, copy, w, looks, found, w', launched, -, -, waited, -, ok_iff, -,
      developed_iff, -⟩
  · cases fired
  · let launches := launch scene imageOptions Timings.default start
    have last : (launches.1.toOption.elim 0 fun l =>
        ((job imageOptions Timings.default).seeThrough scene l.2.1.id l.2.2 launches.2).2.now) =
          1200 := by
      decide +kernel
    rw [show launches = _ from launched] at last
    dsimp only [Except.toOption, Option.elim] at last
    rw [waited] at last
    have fired : scene.interruption.fired w'.now = true := by
      rw [show w'.now = 1200 from last]
      rfl
    exact ⟨ok_iff.2 (.inl fired), fun developed => (developed_iff.1 developed).1 fired⟩

end Session

end DevMode
