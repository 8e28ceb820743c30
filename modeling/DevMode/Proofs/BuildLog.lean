/-
# DevMode.Proofs.BuildLog -- how much of its log a build shows

While a build on the platform is waited for, a task of its own copies its log, and the end of the
wait ends that task wherever it is.  So what is shown depends on how the two go on beside each
other.  `BuildJob.Next` says what can happen next, and `BuildJob.Interleaved` what a build can come
to, whatever the order of things; the program's own order, in which the log is read at every
millisecond, is one of these (`BuildJob.interleaved_buildInside`).

`BuildJob.log_shown` says which lines of the log are shown: the ones in front, in order and once, up
to where the copying was ended or gave up.  It gives up at a line that is not text.  `lines_lost`
are two failed builds that do not show the last line of their logs.
-/
import DevMode.Platform.Memory
import DevMode.Proofs.LogCopy
import DevMode.Proofs.Polling
import Mathlib.Logic.Relation

namespace DevMode

set_option autoImplicit false

/-! ## Two tasks -/

/-- How far a wait for a build is: until the next look is due, until the answer to one arrives, or
over. -/
inductive WaitStage where
  | ticking
  | asking (answer : Except PlatformError Build) (arrival : Nat)
  | over (r : Except BuildError Unit)

/-- The wait for a build, and the copying of its log beside it. -/
structure Waiting (σ : Type) where
  world : World σ
  copy : LogCopy
  ticker : Ticker
  stage : WaitStage

namespace BuildJob

variable {σ : Type} (scene : Scene σ) (job : BuildJob)

section Wait

variable (id : String)

/-- What an answer means for the stage of a wait. -/
def stageBehind (answer : Except PlatformError Build) : WaitStage :=
  match outcome? answer with
  | some r => .over r
  | none => .ticking

/-- What can happen next in a wait.  Time passes; the copying takes a turn; the build is looked at
when that is due, and the answer arrives some time later; or the wait is interrupted, but not while
an answer is on its way.  The copying can still take turns when the wait has come to something. -/
inductive Next : Waiting σ → Waiting σ → Prop
  | pass (s : Waiting σ) : Next s { s with world := { s.world with now := s.world.now + 1 } }
  | copied (s : Waiting σ) :
    Next s
      { s with
        world := (Act.displayAll (s.copy.turn s.world.now).1 s.world).2
        copy := (s.copy.turn s.world.now).2 }
  | looked {s : Waiting σ} (waits : s.stage = .ticking) (due : s.ticker.deadline ≤ s.world.now)
      (early : s.world.now < scene.interruption.time) :
    Next s
      { s with
        world := s.world.answered scene.platform (.buildGet job.app id)
        ticker := s.ticker.tick s.world.now
        stage := .asking (scene.platform.answer (.buildGet job.app id) s.world.state).1
          (s.world.now + scene.platform.takes (.buildGet job.app id) s.world.state) }
  | answered {s : Waiting σ} {answer : Except PlatformError Build} {arrival : Nat}
      (waits : s.stage = .asking answer arrival) (come : arrival ≤ s.world.now) :
    Next s { s with stage := stageBehind answer }
  | interrupted {s : Waiting σ} (waits : s.stage = .ticking)
      (late : scene.interruption.time ≤ s.world.now) : Next s { s with stage := .over (.ok ()) }

/-- What a wait can come to, with the turns of the copying and the looks in any order. -/
def Reaches : Waiting σ → Waiting σ → Prop := Relation.ReflTransGen (job.Next scene id)

end Wait

/-- A wait begins. -/
def waiting (copy : LogCopy) (w : World σ) : Waiting σ :=
  ⟨w, copy, .startingAt (w.now + job.pollEvery) job.pollEvery, .ticking⟩

/-- What a build on the platform can come to, with the copying of its log beside the wait in any
order, and how far the copying is by then. -/
inductive Interleaved (w : World σ) : Except BuildError Build → World σ → LogCopy → Prop
  | unbegun {e : BuildError} {w' : World σ} (failed : job.begin scene w = (.error e, w')) :
    Interleaved w (.error e) w' ⟨none⟩
  | waited {build : Build} {copy : LogCopy} {w₁ w' : World σ} {s : Waiting σ}
      {r : Except BuildError Unit} {out : Except BuildError Build}
      (begun : job.begin scene w = (.ok (build, copy), w₁))
      (reached : job.Reaches scene build.id (job.waiting copy w₁) s) (settled : s.stage = .over r)
      (ended : (Attempt.ofExcept r >>= fun _ =>
        require scene "build get" (.buildGet job.app build.id)) s.world = (out, w')) :
    Interleaved w out w' s.copy

variable {scene job}

section Wait

variable {id : String}

/-- **What happens next shows at most the next line.** -/
theorem Next.shows {s s' : Waiting σ} (next : job.Next scene id s s') :
    ∃ ls, s'.world.lines = s.world.lines ++ ls ∧ s.copy.Shows ls s'.copy := by
  cases next with
  | pass => exact ⟨[], (List.append_nil _).symm, s.copy.shows_refl⟩
  | copied => exact ⟨_, Act.lines_displayAll _ _, s.copy.shows_turn _⟩
  | looked =>
      refine ⟨[], ?_, s.copy.shows_refl⟩
      rw [World.lines_answered, List.append_nil]
  | answered | interrupted => exact ⟨[], (List.append_nil _).symm, s.copy.shows_refl⟩

/-- **A wait shows the next lines of the log**, in order and once, whatever the order of things. -/
theorem Reaches.shows {s s' : Waiting σ} (reached : job.Reaches scene id s s') :
    ∃ ls, s'.world.lines = s.world.lines ++ ls ∧ s.copy.Shows ls s'.copy := by
  induction reached with
  | refl => exact ⟨[], (List.append_nil _).symm, s.copy.shows_refl⟩
  | tail _ next ih =>
      obtain ⟨ls, lines, shows⟩ := ih
      obtain ⟨ls', lines', shows'⟩ := next.shows
      exact ⟨ls ++ ls', by rw [lines', lines, List.append_assoc], shows.trans shows'⟩

section Order

variable (ticker : Ticker) (stage : WaitStage)

/-- Turns at one time are something that can happen. -/
theorem reaches_turns {now : Nat} {c c' : LogCopy} {ls : List Line} (turns : c.Turns now ls c') :
    ∀ w : World σ, w.now = now → job.Reaches scene id ⟨w, c, ticker, stage⟩
      ⟨(Act.displayAll ls w).2, c', ticker, stage⟩ := by
  induction turns with
  | last c =>
      rintro w rfl
      exact .single (.copied ⟨w, c, ticker, stage⟩)
  | more later ih =>
      rename_i c c' ls
      rintro w rfl
      have first : job.Next scene id _ _ := .copied ⟨w, c, ticker, stage⟩
      rw [Act.displayAll_append]
      exact .head first (ih _ (Act.quiet_displayAll _ w).1)

/-- The program's own step of the copying is something that can happen. -/
theorem reaches_step (c : LogCopy) (w : World σ) : job.Reaches scene id ⟨w, c, ticker, stage⟩
    ⟨(c.step w).2, (c.step w).1, ticker, stage⟩ := by
  rw [LogCopy.step_apply]
  exact reaches_turns ticker stage (c.turns_burst w.now) w rfl

theorem reaches_passFor (n : Nat) (c : LogCopy) (w : World σ) :
    job.Reaches scene id ⟨w, c, ticker, stage⟩
      ⟨(Act.passFor LogCopy.step n c w).2, (Act.passFor LogCopy.step n c w).1, ticker, stage⟩ := by
  induction n generalizing c w with
  | zero => exact .refl
  | succ n ih => exact (reaches_step ticker stage c w).trans (.head (.pass _) (ih _ _))

theorem reaches_passUntil (time : Nat) (c : LogCopy) (w : World σ) :
    job.Reaches scene id ⟨w, c, ticker, stage⟩
      ⟨(Act.passUntil LogCopy.step time c w).2, (Act.passUntil LogCopy.step time c w).1, ticker,
        stage⟩ :=
  reaches_passFor ticker stage _ c w

end Order

/-- A look, and what its answer means when it is there. -/
theorem reaches_awaitBeside {ticker : Ticker} (copy : LogCopy) {w : World σ}
    (due : ticker.deadline ≤ w.now) (early : w.now < scene.interruption.time) :
    let out := Act.awaitBeside scene.platform LogCopy.step (.buildGet job.app id) copy w
    job.Reaches scene id ⟨w, copy, ticker, .ticking⟩
      ⟨out.2, out.1.2, ticker.tick w.now, stageBehind out.1.1⟩ := by
  have looked : job.Next scene id ⟨w, copy, ticker, .ticking⟩ _ := .looked rfl due early
  have now := (Act.passFor_quiet LogCopy.quiet_step
    (scene.platform.takes (.buildGet job.app id) w.state) copy
    (w.answered scene.platform (.buildGet job.app id))).1
  refine (Relation.ReflTransGen.head looked (reaches_passFor _ _ _ _ _)).tail (.answered rfl ?_)
  exact Nat.le_of_eq now.symm

/-- **The looks at a build that a ticker asks for, with the copying at every millisecond, are one
order of things.** -/
theorem reaches_poll (copy : LogCopy) (ticker : Ticker) (w : World σ) :
    let out := Act.poll scene.interruption scene.platform LogCopy.step (.buildGet job.app id) outcome?
      ticker copy w
    ∃ ticker', job.Reaches scene id ⟨w, copy, ticker, .ticking⟩
      ⟨out.2, out.1.2, ticker', .over (out.1.1.getD (.ok ()))⟩ := by
  induction ticker, copy using Act.poll.induct (σ := σ) scene.interruption generalizing w with
  | case1 ticker copy ih =>
      rw [Act.poll_apply]
      dsimp only
      split
      · rename_i late
        have now := (Act.passUntil_quiet LogCopy.quiet_step scene.interruption.time copy w).1
        refine ⟨ticker, (reaches_passUntil ticker .ticking scene.interruption.time copy w).tail ?_⟩
        exact .interrupted rfl (by rw [now]; omega)
      · rename_i going
        have now := (Act.passUntil_quiet LogCopy.quiet_step (max w.now ticker.deadline) copy w).1
        have waited : job.Reaches scene id ⟨w, copy, ticker, .ticking⟩ _ :=
          reaches_passUntil ticker .ticking (max w.now ticker.deadline) copy w
        generalize Act.passUntil LogCopy.step (max w.now ticker.deadline) copy w = passed
          at now waited
        have due : max w.now ticker.deadline = passed.2.now := by omega
        rw [due] at going ⊢
        have looked := waited.trans
          (@reaches_awaitBeside σ scene job id ticker passed.1 passed.2 (by omega) (by omega))
        generalize Act.awaitBeside scene.platform LogCopy.step (.buildGet job.app id) passed.1 passed.2 =
          asked at looked ⊢
        rw [stageBehind] at looked
        cases came : outcome? asked.1.1 with
        | some r =>
            rw [came] at looked
            exact ⟨_, looked⟩
        | none =>
            rw [came] at looked
            obtain ⟨ticker', later⟩ := ih w (by rwa [due]) asked.1.2 asked.2
            rw [due] at later
            exact ⟨ticker', looked.trans later⟩

end Wait

/-! ## Beginnings -/

theorem entries_ne_failed (tree : FileTree) (dir : LocalPath) :
    BuildContext.entries tree dir ≠ .error BuildError.failed := by
  unfold BuildContext.entries
  cases Ignore.Ruleset.inDir? tree dir with
  | error e => exact fun same => nomatch same
  | ok rules? =>
      cases tree.resolve dir true with
      | error e => exact fun same => nomatch same
      | ok root =>
          show (do
            if tree.isLink dir then throw (BuildError.badName dir.toString .empty)
            pure ((BuildContext.walk tree (BuildContext.admits rules? dir) root).filterMap
              BuildContext.entry?)) ≠ Except.error BuildError.failed
          split <;> exact fun same => nomatch same

theorem require_ne_failed (operation : String) (c : Call) (w w' : World σ) :
    require scene operation c w ≠ (.error .failed, w') := by
  rw [require, Scene.require_apply]
  cases (scene.platform.answer c w.state).1 <;> exact fun same => nomatch congrArg Prod.fst same

/-- That a build has failed is told by a look at it only. -/
theorem begin_ne_failed (w w' : World σ) : job.begin scene w ≠ (.error .failed, w') := by
  intro failed
  unfold begin at failed
  rcases Attempt.bind_failed failed with here | ⟨_, _, -, failed⟩
  · cases congrArg Prod.fst here
  rcases Attempt.bind_failed failed with here | ⟨_, _, -, failed⟩
  · cases congrArg Prod.fst here
  rcases Attempt.bind_failed failed with here | ⟨_, _, -, failed⟩
  · exact entries_ne_failed _ _ (congrArg Prod.fst here)
  rcases Attempt.bind_failed failed with here | ⟨_, _, -, failed⟩
  · exact require_ne_failed _ _ _ _ here
  rcases Attempt.bind_failed failed with here | ⟨_, _, -, failed⟩
  · cases congrArg Prod.fst here
  rcases Attempt.bind_failed failed with here | ⟨_, _, -, failed⟩
  · exact require_ne_failed _ _ _ _ here
  rcases Attempt.bind_failed failed with here | ⟨_, _, -, failed⟩
  · exact require_ne_failed _ _ _ _ here
  rcases Attempt.bind_failed failed with here | ⟨_, _, -, failed⟩
  · cases congrArg Prod.fst here
  · exact absurd failed Attempt.pure_ne_failed

/-- What a build on the platform says before its log comes. -/
def announcements : List Line :=
  [Console.line Console.buildTag "uploading source", Console.line Console.buildTag "starting build"]

theorem lines_of_announce {message : String} {r : Except BuildError Unit} {w w' : World σ}
    (went : announce message w = (r, w')) :
    w'.lines = w.lines ++ [Console.line Console.buildTag message] := by
  obtain rfl : _ = w' := congrArg Prod.snd went
  exact World.lines_shown w _

theorem lines_of_require {operation : String} {c : Call} {r : Except BuildError c.Reply}
    {w w' : World σ} (went : require scene operation c w = (r, w')) : w'.lines = w.lines := by
  obtain rfl : _ = w' := congrArg Prod.snd went
  rw [require, Scene.require_apply]
  exact World.lines_awaited w _ _

/-- **What a build that is begun has said**; it copies its log from the beginning. -/
theorem begin_went {build : Build} {copy : LogCopy} {w w₁ : World σ}
    (went : job.begin scene w = (.ok (build, copy), w₁)) :
    w₁.lines = w.lines ++ announcements ∧ ∃ log, copy = ⟨some (.start w₁.now log)⟩ := by
  unfold begin at went
  obtain ⟨_, w₂, told, went⟩ := Attempt.bind_went went
  obtain ⟨tree, w₃, found, went⟩ := Attempt.bind_went went
  obtain ⟨context, w₄, held, went⟩ := Attempt.bind_went went
  obtain ⟨object, w₅, stored, went⟩ := Attempt.bind_went went
  obtain ⟨_, w₆, told', went⟩ := Attempt.bind_went went
  obtain ⟨build', w₇, created, went⟩ := Attempt.bind_went went
  obtain ⟨log, w₈, opened, last⟩ := Attempt.bind_went went
  obtain rfl : w₂ = w₃ := congrArg Prod.snd found
  obtain rfl : w₂ = w₄ := congrArg Prod.snd held
  obtain rfl : w₈ = w₁ := congrArg Prod.snd last
  obtain ⟨rfl, rfl⟩ := Prod.mk.inj (Except.ok.inj (congrArg Prod.fst last))
  refine ⟨?_, log, rfl⟩
  rw [lines_of_require opened, lines_of_require created, lines_of_announce told',
    lines_of_require stored, lines_of_announce told, List.append_assoc]
  rfl

/-! ## Builds -/

/-- Between two worlds, a build on the platform said what it says first, and then the front lines of
its log were shown, once and in order; the others were lost. -/
structure Copied (log : LogStream) (w w' : World σ) (taken lost : List (List UInt8)) : Prop where
  lines : log.lines = taken ++ lost
  texts : ∀ line ∈ taken, LogCopy.text? line ≠ none
  shown : w'.lines = w.lines ++ announcements ++ taken.filterMap LogCopy.text?

variable (scene job) in
/-- What a wait that is over goes on to shows nothing. -/
theorem after_wait (r : Except BuildError Unit) (build : Build) (w : World σ) :
    ((Attempt.ofExcept r >>= fun _ =>
      require scene "build get" (.buildGet job.app build.id)) w).2.lines = w.lines := by
  cases r with
  | error e => rfl
  | ok _ =>
      rw [Attempt.bind_ok (a := ()) rfl, require, Scene.require_apply]
      exact World.lines_awaited _ _ _

/-- The copying is abreast of the log as long as the wait goes on. -/
theorem abreast_poll {log : LogStream} {opened : Nat} {id : String} {copy : LogCopy} {w : World σ}
    (later : opened ≤ w.now) (abreast : copy.Abreast log opened w.now) (ticker : Ticker) :
    let out := Act.poll scene.interruption scene.platform LogCopy.step (.buildGet job.app id) outcome?
      ticker copy w
    out.1.2.Abreast log opened out.2.now := by
  let caught (c : LogCopy) (w : World σ) : Prop := opened ≤ w.now ∧ c.Abreast log opened w.now
  have passes (c : LogCopy) (w : World σ) (here : caught c w) :
      caught (c.step w).1 (Act.tick (c.step w).2).2 := by
    have now : (Act.tick (c.step w).2).2.now = w.now + 1 :=
      congrArg (· + 1) (c.quiet_step w).1
    refine ⟨?_, ?_⟩
    · rw [now]
      exact Nat.le_succ_of_le here.1
    · rw [now, LogCopy.step_apply]
      exact here.2.burst here.1
  exact (Act.poll_keeps passes (fun _ _ here => here) ticker copy w ⟨later, abreast⟩).2

/-- **The program's own wait is one order of things**, and one in which the copying is abreast of the log.
-/
theorem reaches_waitCopying (id : String) (copy : LogCopy) (w : World σ) :
    ∃ s r, job.Reaches scene id (job.waiting copy w) s ∧ s.stage = .over r ∧
      job.waitCopying scene id copy w = (r, s.world) ∧
      ∀ log opened, opened ≤ w.now → copy.Abreast log opened w.now →
        s.copy.Abreast log opened s.world.now := by
  let ticker := Ticker.startingAt (w.now + job.pollEvery) job.pollEvery
  obtain ⟨ticker', reached⟩ := @reaches_poll σ scene job id copy ticker w
  exact ⟨_, _, reached, rfl, rfl, fun log opened later abreast => abreast_poll later abreast ticker⟩

/-- **The program's own build is one order of things**, and if the log has ended before the wait is
over then none of it is unread. -/
theorem interleaved_buildInside (w : World σ) :
    ∃ copy, job.Interleaved scene w (job.buildInside scene w).1 (job.buildInside scene w).2 copy ∧
      ∀ build log w₁, job.begin scene w = (.ok (build, ⟨some (.start w₁.now log)⟩), w₁) →
        let waited := job.waitCopying scene build.id ⟨some (.start w₁.now log)⟩ w₁
        log.EndsBefore (waited.2.now - w₁.now) → copy.unread = [] := by
  rw [buildInside_eq]
  rcases Attempt.bind_cases (job.begin scene)
      (fun begun => job.seeThrough scene begun.1.id begun.2) w with
    ⟨e, w₁, failed, out⟩ | ⟨⟨build, copy⟩, w₁, begun, out⟩
  · rw [out]
    refine ⟨⟨none⟩, .unbegun failed, fun build log w₁' begun => ?_⟩
    cases congrArg Prod.fst (failed.symm.trans begun)
  · obtain ⟨s, r, reached, settled, waited, abreast⟩ :=
      @reaches_waitCopying σ scene job build.id copy w₁
    have ended := Attempt.bind_of_apply waited fun _ =>
      require scene "build get" (.buildGet job.app build.id)
    rw [out]
    refine ⟨s.copy, .waited begun reached settled ended.symm, ?_⟩
    intro build' log w₁' begun' waits ends
    obtain ⟨same, rfl⟩ := Prod.mk.inj (begun.symm.trans begun')
    obtain ⟨rfl, rfl⟩ := Prod.mk.inj (Except.ok.inj same)
    rw [show waits = (r, s.world) from waited] at ends
    exact (abreast log w₁.now (Nat.le_refl _) (LogCopy.abreast_start log w₁.now)).unread ends

/-- **How much of its log a build shows.**  The program's own build is one of the ways in which the
copying of the log and the wait can go on beside each other, and if the log has ended before the wait
is over then nothing of that is unread.  However they go on: a build that is had, or is seen to have
failed, has said what it says first and has then shown the front lines of its log.  What it did not
show was unread when the wait ended the copying, or begins with a line that is not text.  So every
line is shown just if all of them are text and none was unread. -/
theorem log_shown (w : World σ) :
    (∃ copy, job.Interleaved scene w (job.buildInside scene w).1 (job.buildInside scene w).2 copy ∧
      ∀ build log w₁, job.begin scene w = (.ok (build, ⟨some (.start w₁.now log)⟩), w₁) →
        let waited := job.waitCopying scene build.id ⟨some (.start w₁.now log)⟩ w₁
        log.EndsBefore (waited.2.now - w₁.now) → copy.unread = []) ∧
      ∀ out w' copy, job.Interleaved scene w out w' copy →
        (∃ build, out = .ok build) ∨ out = .error .failed →
        ∃ build log w₁ taken lost,
          job.begin scene w = (.ok (build, ⟨some (.start w₁.now log)⟩), w₁) ∧
          Copied log w w' taken lost ∧
          (lost = copy.unread ∨ copy.unread = [] ∧ ∃ line ∈ lost.head?, LogCopy.text? line = none) ∧
          (lost = [] ↔
            (∀ line ∈ log.lines, LogCopy.text? line ≠ none) ∧ copy.unread = []) := by
  refine ⟨interleaved_buildInside w, ?_⟩
  rintro out w' copy run came
  cases run with
  | unbegun failed =>
      rcases came with ⟨build, same⟩ | same
      · cases same
      · obtain rfl := Except.error.inj same
        exact absurd failed (begin_ne_failed w w')
  | @waited build copy w₁ _ s r _ begun reached settled ended =>
      obtain ⟨lines, log, rfl⟩ := begin_went begun
      obtain ⟨ls, told, shows⟩ := reached.shows
      obtain ⟨taken, lost, cut, texts, stands⟩ := shows _ (LogCopy.stands_start log w₁.now)
      have all_text : ∀ line ∈ taken, LogCopy.text? line ≠ none := by
        intro line member none_here
        have inside := List.mem_map_of_mem (f := LogCopy.text?) member
        rw [texts, none_here] at inside
        simp at inside
      have shown : taken.filterMap LogCopy.text? = ls := by
        have same := congrArg (List.filterMap id) texts
        simpa [List.filterMap_map] using same
      refine ⟨build, log, w₁, taken, lost, begun, ⟨cut, all_text, ?_⟩, stands.cases, ?_⟩
      · have behind := after_wait scene job r build s.world
        rw [ended] at behind
        rw [behind, told, shown]
        exact congrArg (· ++ ls) lines
      · rw [cut]
        constructor
        · rintro rfl
          rcases stands.cases with unread | ⟨unread, -⟩
          · exact ⟨by simpa using all_text, unread.symm⟩
          · exact ⟨by simpa using all_text, unread⟩
        · rintro ⟨all_lines, unread⟩
          rcases stands.cases with same | ⟨-, line, member, none_here⟩
          · exact same.trans unread
          · have inside := List.mem_append_right taken (List.mem_of_mem_head? member)
            exact absurd none_here (all_lines line inside)

/-! ## Logs of a plain build -/

/-- An app with nothing in it, on a platform in memory. -/
def plainScene : Scene Memory where
  platform := Memory.platform
  interruption := ⟨1000, true⟩
  files _ := ⟨[(["app".toList], .dir)], .ofString "/app"⟩
  events _ := []
  inspector := ⟨fun _ => .ok [], fun _ => .ok ""⟩
  builder? := none

/-- Its builds are looked at every ten milliseconds. -/
def plainJob : BuildJob := ⟨"dev", .ofString "/app", none, true, 10⟩

/-- The first look at a build finds a status, and its log comes in its own time. -/
def building (status : BuildStatus) (log : LogStream) : World Memory :=
  .start { Memory.empty with buildStatuses := [status], buildLog := log }

/-- Three lines, all there from the beginning, the second of them not text. -/
def brokenLog : LogStream := .ofBytes ⟨#[97, 10, 255, 10, 98, 10]⟩

/-- Two lines, the second of which comes when the build was looked at. -/
def lateLog : LogStream := ⟨[(0, "a\n".toUTF8), (10, "b\n".toUTF8)], some 10⟩

theorem eq_error_of_failure? {α : Type} {r : Except BuildError α} {e : BuildError}
    (failed : Act.failure? r = some e) : r = .error e := by
  cases r with
  | ok a => cases failed
  | error e' => exact congrArg Except.error (Option.some.inj failed)

/-- **Lines of the log of a failed build are lost** if one before them is not text, and if they come
too late.  Both logs end. -/
theorem lines_lost :
    let run (log : LogStream) := plainJob.buildInside plainScene (building .failed log)
    ((run brokenLog).1 = .error .failed ∧ brokenLog.length = some 0 ∧
      brokenLog.lines = [[97], [255], [98]] ∧
      (run brokenLog).2.lines = announcements ++ [⟨"build", "a"⟩]) ∧
    (run lateLog).1 = .error .failed ∧ lateLog.length = some 10 ∧
      lateLog.lines = [[97], [98]] ∧
      (run lateLog).2.lines = announcements ++ [⟨"build", "a"⟩] := by
  refine ⟨⟨eq_error_of_failure? ?_, ?_, ?_, ?_⟩, eq_error_of_failure? ?_, ?_, ?_, ?_⟩ <;>
    decide +kernel

/-- Two lines that come before the build is looked at. -/
def soonLog : LogStream := ⟨[(0, "a\n".toUTF8), (5, "b".toUTF8)], some 6⟩

/-- A log of text that has ended when its build is complete is shown to the end. -/
theorem log_shown_to_end :
    let run := plainJob.buildInside plainScene (building .complete soonLog)
    (∃ build, run.1 = .ok build) ∧
      run.2.lines = announcements ++ soonLog.lines.filterMap LogCopy.text? := by
  have finished : ∃ build,
      (plainJob.buildInside plainScene (building .complete soonLog)).1 = .ok build :=
    exists_of_isSome (by decide +kernel)
  refine ⟨finished, ?_⟩
  obtain ⟨⟨copy, run, in_time⟩, orders⟩ :=
    @log_shown Memory plainScene plainJob (building .complete soonLog)
  obtain ⟨build, log, w₁, taken, lost, begun, copied, -, whole⟩ :=
    orders _ _ copy run (.inl finished)
  have same : some soonLog = some log :=
    congrArg (fun p => p.1.toOption.bind fun b => b.2.tail?.map Tail.stream) begun
  obtain rfl := Option.some.inj same
  let begins := plainJob.begin plainScene (building .complete soonLog)
  have in_full : soonLog.EndsBefore (begins.1.toOption.elim 0 fun b =>
      (plainJob.waitCopying plainScene b.1.id b.2 begins.2).2.now - begins.2.now) := by
    decide +kernel
  rw [show begins = _ from begun] at in_full
  have unread : copy.unread = [] := in_time build _ w₁ begun in_full
  have nothing : lost = [] := whole.2 ⟨by decide +kernel, unread⟩
  have all : taken = soonLog.lines := by rw [copied.lines, nothing, List.append_nil]
  rw [copied.shown, all]
  rfl

end BuildJob

end DevMode
