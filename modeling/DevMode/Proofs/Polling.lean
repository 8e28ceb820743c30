/-
# DevMode.Proofs.Polling -- how long a build is waited for

A build on the platform is begun, and then waited for and had once more (`buildInside_eq`).  The
wait looks at the build whenever its ticker fires, for the first time one interval after it began,
and ends with the first look that comes to something.  An interruption ends it too, unless the next
look is due before; a look that is under way by then is waited for, and can still decide.

Copying the log meanwhile takes no time and leaves the platform alone.  So the looks go by what the
platform answers one after another, `look`, and by how long it takes for that, `lookTakes`; when a
look is due, `lookTime`, follows from these.  `waitCopying_ends` says which looks are taken and how
the wait ends, and `waitCopying_asked` that nothing else is asked meanwhile.
-/
import DevMode.Build.Job
import DevMode.Proofs.Trace

namespace DevMode

set_option autoImplicit false

/-! ## Ticks -/

namespace Ticker

/-- When a ticker fires for someone who waits for it from a time on, and is busy for a while after
each firing. -/
def firing (t : Ticker) (now : Nat) (busy : Nat → Nat) : Nat → Nat
  | 0 => max now t.deadline
  | n + 1 =>
    firing (t.tick (max now t.deadline)) (max now t.deadline + busy 0) (fun k => busy (k + 1)) n

variable (t : Ticker) (now : Nat) (busy : Nat → Nat)

theorem deadline_le_firing (n : Nat) : t.deadline ≤ t.firing now busy n := by
  induction n generalizing t now busy with
  | zero => exact Nat.le_max_right _ _
  | succ n ih => exact Nat.le_trans (Nat.le_of_lt (t.deadline_lt_tick _)) (ih _ _ _)

/-- Who is busy hears the next tick later. -/
theorem firing_add_busy_le (n : Nat) : t.firing now busy n + busy n ≤ t.firing now busy (n + 1) := by
  induction n generalizing t now busy with
  | zero => exact Nat.le_max_left _ _
  | succ n ih => exact ih _ _ _

theorem firing_mono {m n : Nat} (le : m ≤ n) : t.firing now busy m ≤ t.firing now busy n := by
  induction le with
  | refl => exact Nat.le_refl _
  | step _ ih =>
      exact Nat.le_trans ih (Nat.le_trans (Nat.le_add_right _ _) (t.firing_add_busy_le now busy _))

/-- For someone who is back in time, it fires once in every period. -/
theorem firing_of_punctual (early : now ≤ t.deadline) (punctual : ∀ k, busy k ≤ t.period) (n : Nat) :
    t.firing now busy n = t.deadline + n * t.period := by
  induction n generalizing t now busy with
  | zero => simp [firing, early]
  | succ n ih =>
      have next : t.tick (max now t.deadline) = { t with deadline := t.deadline + t.period } := by
        simp [tick, Nat.max_eq_right early]
      have back : max now t.deadline + busy 0 ≤ t.deadline + t.period := by
        have := punctual 0
        omega
      rw [firing, next, ih { t with deadline := t.deadline + t.period } _ _ back fun k => punctual (k + 1),
        Nat.succ_mul]
      dsimp only
      omega

end Ticker

/-! ## Time that passes -/

namespace Act

variable {σ α β : Type}

section Quiet

variable {beside : β → Act σ β} (quiet : ∀ b, Quiet (beside b))
include quiet

/-- Where nothing is asked meanwhile, time passes and that is all. -/
theorem passFor_quiet (n : Nat) (b : β) (w : World σ) :
    (passFor beside n b w).2.now = w.now + n ∧ (passFor beside n b w).2.state = w.state := by
  induction n generalizing b w with
  | zero => exact ⟨rfl, rfl⟩
  | succ n ih =>
      obtain ⟨now, state⟩ := quiet b w
      obtain ⟨now', state'⟩ := ih (beside b w).1 { (beside b w).2 with now := (beside b w).2.now + 1 }
      exact ⟨now'.trans (by dsimp only; omega), state'.trans state⟩

/-- Time passes up to a point, unless that is over. -/
theorem passUntil_quiet (time : Nat) (b : β) (w : World σ) :
    (passUntil beside time b w).2.now = max w.now time ∧
      (passUntil beside time b w).2.state = w.state := by
  obtain ⟨now, state⟩ := passFor_quiet quiet (time - w.now) b w
  exact ⟨now.trans (by omega), state⟩

end Quiet

/-- What holds of a wait while time passes and behind each call holds at its end. -/
theorem poll_keeps {P : β → World σ → Prop} {i : Interruption} {p : Platform σ}
    {beside : β → Act σ β} {c : Call} {verdict? : c.Answer → Option α}
    (passes : ∀ b w, P b w → P (beside b w).1 (tick (beside b w).2).2)
    (calls : ∀ b w, P b w → P b (w.answered p c)) (ticker : Ticker) (b : β) (w : World σ)
    (here : P b w) :
    P (poll i p beside c verdict? ticker b w).1.2 (poll i p beside c verdict? ticker b w).2 := by
  have passed (n : Nat) : ∀ b w, P b w → P (passFor beside n b w).1 (passFor beside n b w).2 := by
    induction n with
    | zero => exact fun b w here => here
    | succ n ih => exact fun b w here => ih _ _ (passes b w here)
  induction ticker, b using poll.induct (σ := σ) i generalizing w with
  | case1 ticker b ih =>
      rw [poll_apply]
      dsimp only
      split
      · exact passed (i.time - w.now) _ _ here
      · rename_i going
        have waited := passed (max w.now ticker.deadline - w.now) _ _ here
        have asked := passed (p.takes c (passUntil beside (max w.now ticker.deadline) b w).2.state) _ _
          (calls _ _ waited)
        split
        · exact asked
        · exact ih w going _ _ asked

end Act

namespace LogCopy

variable {σ : Type}

theorem quiet_step (c : LogCopy) : Act.Quiet (c.step : Act σ LogCopy) := by
  unfold step
  split
  · exact Act.quiet_pure _
  · exact Act.quiet_bind Act.quiet_get fun _ => Act.quiet_bind (Act.quiet_displayAll _) fun _ =>
      Act.quiet_pure _

theorem key_of_mem_readable {lines : List ByteArray} {l : Line} (member : l ∈ (readable lines).1) :
    l.key = Console.buildTag := by
  induction lines with
  | nil => simp [readable] at member
  | cons bytes rest ih =>
      rw [readable] at member
      split at member
      · simp at member
      · rename_i l' read
        rcases List.mem_cons.1 member with rfl | member
        · obtain ⟨text, -, rfl⟩ := Option.map_eq_some_iff.1 read
          rfl
        · exact ih member

/-- The copying only shows lines of the build. -/
theorem adds_step_of {kind : Occurrence → Prop}
    (shown : ∀ l : Line, l.key = Console.buildTag → kind (.shown l)) (c : LogCopy) :
    Act.Adds kind (c.step : Act σ LogCopy) := by
  unfold step
  split
  · exact Act.adds_pure _
  · exact Act.adds_bind Act.adds_get fun _ =>
      Act.adds_bind (Act.adds_displayAll fun l member => shown l (key_of_mem_readable member)) fun _ =>
      Act.adds_pure _

/-- While the log is copied nothing is asked. -/
theorem asked_passFor (n : Nat) (c : LogCopy) (w : World σ) :
    (Act.passFor step n c w).2.asked = w.asked := by
  have copies (c : LogCopy) (_ : True) : Act.Adds (·.isCall = false) (c.step : Act σ LogCopy) :=
    adds_step_of (fun _ _ => rfl) c
  exact (Act.adds_passFor copies (fun _ _ _ => trivial) n (b := c) trivial w).asked_eq

/-- While the log is copied time passes, and nothing else changes for the platform. -/
theorem passUntil_still (time : Nat) (c : LogCopy) (w : World σ) :
    let out := Act.passUntil step time c w
    out.2.now = max w.now time ∧ out.2.state = w.state ∧ out.2.asked = w.asked := by
  obtain ⟨now, state⟩ := Act.passUntil_quiet quiet_step time c w
  exact ⟨now, state, asked_passFor _ c w⟩

/-- A call that is waited for while the log is copied. -/
theorem awaitBeside_still (p : Platform σ) (call : Call) (c : LogCopy) (w : World σ) :
    let out := Act.awaitBeside p step call c w
    out.1.1 = (p.answer call w.state).1 ∧ out.2.now = w.now + p.takes call w.state ∧
      out.2.state = (p.answer call w.state).2 ∧
      out.2.asked = w.asked ++ [(w.now, .called call (Act.failure? (p.answer call w.state).1))] := by
  rw [Act.awaitBeside_apply]
  obtain ⟨now, state⟩ :=
    Act.passFor_quiet quiet_step (p.takes call w.state) c (w.answered p call)
  exact ⟨rfl, now, state, (asked_passFor _ c _).trans (World.asked_answered w p call)⟩

end LogCopy

namespace BuildJob

variable {σ : Type} (scene : Scene σ) (job : BuildJob)

/-! ## Beginnings -/

/-- What a build on the platform does before it is waited for: it comes to the build, and to the
copying of its log. -/
def begin : Attempt σ BuildError (Build × LogCopy) := do
  announce "uploading source"
  let context ← Attempt.ofExcept (BuildContext.entries (← scene.tree) job.root)
  let object ← require scene "object store" (.objectStore job.app "" context)
  announce "starting build"
  let build ← require scene "build create" (.buildCreate job.app object.url (job.request false))
  let log ← require scene "build logs" (.buildLogs job.app build.id)
  return (build, ⟨some (.start (← get).now log)⟩)

/-- What comes behind that: the build is waited for, and had once more. -/
def seeThrough (id : String) (copy : LogCopy) : Attempt σ BuildError Build := do
  job.waitCopying scene id copy
  require scene "build get" (.buildGet job.app id)

/-- To begin a build is to announce it and to ask for builds, but to look at none. -/
theorem adds_begin_of {kind : Occurrence → Prop}
    (shown : ∀ l : Line, l.key = Console.buildTag → kind (.shown l))
    (called : ∀ c failure, c.purpose = .build → (∀ app id, c ≠ .buildGet app id) →
      kind (.called c failure)) : Attempt.Adds kind (job.begin scene) := by
  have announces (message : String) : Attempt.Adds kind (announce message : Attempt σ BuildError Unit) :=
    Attempt.adds_act (Act.adds_display (shown _ rfl))
  unfold begin
  exact Attempt.adds_bind (announces _) fun _ =>
    Attempt.adds_bind (Attempt.adds_lift scene.adds_tree) fun tree =>
    Attempt.adds_bind (Attempt.adds_ofExcept _) fun context =>
    Attempt.adds_bind (scene.adds_require fun _ => called _ _ rfl fun _ _ => nofun) fun object =>
    Attempt.adds_bind (announces _) fun _ =>
    Attempt.adds_bind (scene.adds_require fun _ => called _ _ rfl fun _ _ => nofun) fun build =>
    Attempt.adds_bind (scene.adds_require fun _ => called _ _ rfl fun _ _ => nofun) fun log =>
    Attempt.adds_bind (Attempt.adds_lift Act.adds_get) fun w => Attempt.adds_pure _

/-- **A build is begun, waited for, and had once more.** -/
theorem buildInside_eq :
    job.buildInside scene =
      (job.begin scene >>= fun begun => job.seeThrough scene begun.1.id begun.2) := by
  simp only [buildInside, begin, seeThrough, bind_assoc, pure_bind]

/-! ## Looks -/

variable (id : String)

/-- The platform after some looks at a build. -/
def afterLooks : Nat → σ → σ
  | 0, s => s
  | n + 1, s => afterLooks n (scene.platform.answer (.buildGet job.app id) s).2

theorem afterLooks_succ (n : Nat) : ∀ s : σ, job.afterLooks scene id (n + 1) s =
    (scene.platform.answer (.buildGet job.app id) (job.afterLooks scene id n s)).2 := by
  induction n with
  | zero => exact fun s => rfl
  | succ n ih => exact fun s => ih _

/-- What the platform answers to a look that has some others before it. -/
def look (n : Nat) (s : σ) : Except PlatformError Build :=
  (scene.platform.answer (.buildGet job.app id) (job.afterLooks scene id n s)).1

/-- How long that takes. -/
def lookTakes (n : Nat) (s : σ) : Nat :=
  scene.platform.takes (.buildGet job.app id) (job.afterLooks scene id n s)

/-- When a look is due, in a wait that began at a time. -/
def lookTime (start : Nat) (s : σ) : Nat → Nat :=
  (Ticker.startingAt (start + job.pollEvery) job.pollEvery).firing start
    fun k => job.lookTakes scene id k s

theorem lookTime_mono (start : Nat) (s : σ) {m n : Nat} (le : m ≤ n) :
    job.lookTime scene id start s m ≤ job.lookTime scene id start s n :=
  Ticker.firing_mono _ _ _ le

/-- Where every answer is there before the next look is due, there is a look in every interval. -/
theorem lookTime_of_punctual (start : Nat) {s : σ}
    (punctual : ∀ k, job.lookTakes scene id k s ≤ max job.pollEvery 1) (n : Nat) :
    job.lookTime scene id start s n = start + job.pollEvery + n * max job.pollEvery 1 :=
  Ticker.firing_of_punctual _ _ _ (Nat.le_add_right _ _) punctual n

/-- No look is due before one interval is over. -/
theorem le_lookTime (start : Nat) (s : σ) (n : Nat) :
    start + job.pollEvery ≤ job.lookTime scene id start s n :=
  Ticker.deadline_le_firing (.startingAt (start + job.pollEvery) job.pollEvery) _ _ n

/-- The first looks at a build in order, each at its time and with its failure. -/
def looks {α : Type} (due : Nat → Nat) (said : Nat → Except PlatformError α) (n : Nat) :
    List (Nat × Occurrence) :=
  (List.range n).map fun k => (due k, .called (.buildGet job.app id) (Act.failure? (said k)))

variable {α : Type} (due : Nat → Nat) (said : Nat → Except PlatformError α)

theorem looks_one : job.looks id due said 1 =
    [(due 0, .called (.buildGet job.app id) (Act.failure? (said 0)))] := rfl

/-- The looks behind the first one are those of a wait that begins there. -/
theorem looks_succ (n : Nat) : job.looks id due said (n + 1) =
    job.looks id due said 1 ++ job.looks id (fun k => due (k + 1)) (fun k => said (k + 1)) n := by
  rw [looks, List.range_succ_eq_map, List.map_cons, List.map_map, looks_one]
  rfl

/-- How a wait with looks at some times ends behind `n` looks that came to nothing, and with which
outcome: it is interrupted, or one more look comes to something. -/
structure Ends (due : Nat → Nat) (s : σ) (n : Nat) (found? : Option (Except BuildError Unit))
    (w : World σ) : Prop where
  before : ∀ k < n, due k < scene.interruption.time ∧ outcome? (job.look scene id k s) = none
  last : (scene.interruption.time ≤ due n ∧ found? = none ∧ scene.interruption.time ≤ w.now ∧
      w.state = job.afterLooks scene id n s) ∨
    (due n < scene.interruption.time ∧ found? = outcome? (job.look scene id n s) ∧
      found?.isSome = true ∧ w.now = due n + job.lookTakes scene id n s ∧
        w.state = job.afterLooks scene id (n + 1) s)

variable {scene job id} in
/-- What holds behind one look that came to nothing holds of one look more. -/
theorem Ends.behind {due : Nat → Nat} {n : Nat} {s : σ} {found? : Option (Except BuildError Unit)}
    {w : World σ} (going : due 0 < scene.interruption.time)
    (nothing : outcome? (job.look scene id 0 s) = none)
    (ends : job.Ends scene id (fun k => due (k + 1)) (job.afterLooks scene id 1 s) n found? w) :
    job.Ends scene id due s (n + 1) found? w := by
  refine ⟨fun k behind => ?_, ends.last⟩
  cases k with
  | zero => exact ⟨going, nothing⟩
  | succ k => exact ends.before k (Nat.lt_of_succ_lt_succ behind)

/-- The looks at a build that a ticker asks for: they are all that is asked for. -/
theorem ends_of_poll (copy : LogCopy) (ticker : Ticker) (w : World σ) :
    let out := Act.poll scene.interruption scene.platform LogCopy.step (.buildGet job.app id) outcome?
      ticker copy w
    let due := ticker.firing w.now fun k => job.lookTakes scene id k w.state
    ∃ n, job.Ends scene id due w.state n out.1.1 out.2 ∧
      out.2.asked = w.asked ++ job.looks id due (fun k => job.look scene id k w.state)
        (if out.1.1.isSome then n + 1 else n) := by
  induction ticker, copy using Act.poll.induct (σ := σ) scene.interruption generalizing w with
  | case1 ticker copy ih =>
      rw [Act.poll_apply]
      dsimp only
      split
      · rename_i late
        obtain ⟨now, state, asked⟩ := LogCopy.passUntil_still scene.interruption.time copy w
        refine ⟨0, ⟨fun k none_before => absurd none_before (Nat.not_lt_zero k), .inl ?_⟩, ?_⟩
        · exact ⟨late, rfl, by rw [now]; exact Nat.le_max_right _ _, state⟩
        · rw [asked]
          exact (List.append_nil _).symm
      · rename_i going
        obtain ⟨now, state, asked⟩ :=
          LogCopy.passUntil_still (max w.now ticker.deadline) copy w
        rw [Nat.max_eq_right (Nat.le_max_left _ _)] at now
        generalize Act.passUntil LogCopy.step (max w.now ticker.deadline) copy w = waited
          at now state asked ⊢
        obtain ⟨answer, now', state', asked'⟩ :=
          LogCopy.awaitBeside_still scene.platform (.buildGet job.app id) waited.1 waited.2
        rw [state, now] at now'
        rw [state] at answer state'
        rw [asked, state, now] at asked'
        generalize Act.awaitBeside scene.platform LogCopy.step (.buildGet job.app id) waited.1 waited.2 =
          looked at answer now' state' asked' ⊢
        have first : looked.1.1 = job.look scene id 0 w.state := answer
        rw [first]
        cases came : outcome? (job.look scene id 0 w.state) with
        | some r =>
            refine ⟨0, ⟨fun k none_before => absurd none_before (Nat.not_lt_zero k), .inr ?_⟩, asked'⟩
            exact ⟨Nat.lt_of_not_le going, came.symm, rfl, now', state'⟩
        | none =>
            -- The looks behind this one are those of a wait from there.
            obtain ⟨n, ends, rest⟩ := ih w going looked.1.2 looked.2
            rw [now', state'] at ends rest
            refine ⟨n + 1, ends.behind (Nat.lt_of_not_le going) came, ?_⟩
            rw [asked', List.append_assoc] at rest
            rw [rest]
            have all (m : Nat) := (looks_succ job id (ticker.firing w.now fun k => job.lookTakes scene id k w.state)
              (fun k => job.look scene id k w.state) m).symm
            split <;> exact congrArg (w.asked ++ ·) (all _)

/-- A wait asks for the looks that it takes, and for nothing else. -/
theorem waitCopying_asked (copy : LogCopy) (w : World σ) :
    let due := job.lookTime scene id w.now w.state
    ∃ n found?, job.Ends scene id due w.state n found? (job.waitCopying scene id copy w).2 ∧
      (job.waitCopying scene id copy w).1 = found?.getD (.ok ()) ∧
      (job.waitCopying scene id copy w).2.asked = w.asked ++ job.looks id due
        (fun k => job.look scene id k w.state) (if found?.isSome then n + 1 else n) := by
  obtain ⟨n, ends, asked⟩ := job.ends_of_poll scene id copy
    (.startingAt (w.now + job.pollEvery) job.pollEvery) w
  exact ⟨n, _, ends, rfl, asked⟩

/-- **Which looks a wait takes, and how it ends.** -/
theorem waitCopying_ends (copy : LogCopy) (w : World σ) :
    ∃ n found?, job.Ends scene id (job.lookTime scene id w.now w.state) w.state n found?
        (job.waitCopying scene id copy w).2 ∧
      (job.waitCopying scene id copy w).1 = found?.getD (.ok ()) := by
  obtain ⟨n, found?, ends, came, -⟩ := job.waitCopying_asked scene id copy w
  exact ⟨n, found?, ends, came⟩

end BuildJob

end DevMode
