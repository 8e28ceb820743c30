/-
# DevMode.Proofs.Following -- following a log until it is called off

A follower asks for the log, waits for the answer, reads what it is given to the end, waits, and asks
again.

* `Fetch.foundBefore` is what there is to find in one answer before a time, and `Fetch.EndsAt` says
  when the answer is over; `Fetch.Stands` is a reader who has found that much.
* `Follower.Course` is a list of fetches, each some time after the end of the one before it.
* `Follower.stepUntil_reading` says that line by line a follower reads all that has come.
* `Follower.fetchingRuns_succ`, `Follower.readingRuns_succ` and `Follower.idleRuns_succ` are a
  millisecond of a run, and `Follower.passFor_stepUntil` says that a follower keeps to a course until
  the interruption.
* `Follower.retries_until_released` is that for a follower on its own schedule, and what is true of one
  on any schedule.
-/
import DevMode.Platform.Memory
import DevMode.Proofs.Tails
import DevMode.Proofs.Turns
import Mathlib.Data.List.Chain

namespace DevMode

set_option autoImplicit false

/-! ## Fetches -/

/-- A log that was asked for: when, how long that took, and what the answer was. -/
structure Fetch where
  time : Nat
  takes : Nat
  answer : Except PlatformError LogStream

namespace Fetch

/-- When the answer is there. -/
def arrival (a : Fetch) : Nat := a.time + a.takes

/-- The lines that there are to find in an answer before a time, and how the reading stands then.
A failure is over as it arrives. -/
def foundBefore (a : Fetch) (time : Nat) : List ByteArray × Tail.Status :=
  if time ≤ a.arrival then ([], .reading)
  else
    match a.answer with
    | .error _ => ([], .ended)
    | .ok stream =>
      let (lines, status, _) :=
        (Tail.start a.arrival stream).pull (Scanner.upTo Scanner.defaultLimit) (time - 1)
      (lines, status)

/-- What is shown of an answer before a time. -/
def shownBefore (a : Fetch) (interest : List String) (time : Nat) : List Line :=
  LogEntry.showAll interest Scanner.defaultLimit (a.foundBefore time).1
    ((a.foundBefore time).2 = .overlong)

/-- An answer is over at a time, and was not before. -/
def EndsAt (a : Fetch) (time : Nat) : Prop :=
  (a.foundBefore time).2 = .reading ∧ (a.foundBefore (time + 1)).2 ≠ .reading

/-- All of an answer is there by a time: a failure, or every chunk of a stream and its end. -/
def ComesBy (a : Fetch) (time : Nat) : Prop :=
  match a.answer with
  | .error _ => a.arrival ≤ time
  | .ok stream => (∀ c ∈ stream.chunks, a.arrival + c.1 ≤ time) ∧
      ∃ length, stream.length = some length ∧ a.arrival + length ≤ time

theorem foundBefore_of_le {a : Fetch} {time : Nat} (early : time ≤ a.arrival) :
    a.foundBefore time = ([], .reading) := if_pos early

theorem foundBefore_of_error {a : Fetch} {e : PlatformError} (failed : a.answer = .error e)
    {time : Nat} (late : a.arrival < time) : a.foundBefore time = ([], .ended) := by
  rw [foundBefore, if_neg (Nat.not_le.2 late), failed]

theorem foundBefore_of_ok {a : Fetch} {stream : LogStream} (answered : a.answer = .ok stream)
    {time : Nat} (late : a.arrival ≤ time) :
    a.foundBefore (time + 1) =
      (((Tail.start a.arrival stream).pull (Scanner.upTo Scanner.defaultLimit) time).1,
        ((Tail.start a.arrival stream).pull (Scanner.upTo Scanner.defaultLimit) time).2.1) := by
  rw [foundBefore, if_neg (by omega), answered]
  rfl

/-- What was over stays as it was. -/
theorem foundBefore_of_over {a : Fetch} {time later : Nat} (after : time ≤ later)
    (stopped : (a.foundBefore time).2 ≠ .reading) : a.foundBefore later = a.foundBefore time := by
  by_cases early : time ≤ a.arrival
  · rw [foundBefore_of_le early] at stopped
    exact absurd rfl stopped
  cases answer : a.answer with
  | error e => rw [foundBefore_of_error answer (by omega), foundBefore_of_error answer (by omega)]
  | ok stream =>
      obtain ⟨t, rfl⟩ : ∃ t, time = t + 1 := ⟨time - 1, by omega⟩
      obtain ⟨l, rfl⟩ : ∃ l, later = l + 1 := ⟨later - 1, by omega⟩
      rw [foundBefore_of_ok answer (by omega)] at stopped ⊢
      rw [foundBefore_of_ok answer (by omega)]
      obtain ⟨lines, status⟩ := Tail.pull_of_over (Nat.le_of_succ_le_succ after) stopped
      rw [lines, status]

/-- What is read at a time is not over before. -/
theorem not_endsAt_of_reading {a : Fetch} {time : Nat} (reading : (a.foundBefore time).2 = .reading) :
    ∀ e < time, ¬ a.EndsAt e := by
  intro e early ends
  rw [foundBefore_of_over early ends.2] at reading
  exact ends.2 reading

theorem EndsAt.unique {a : Fetch} {e e' : Nat} (ends : a.EndsAt e) (ends' : a.EndsAt e') : e = e' := by
  rcases Nat.lt_trichotomy e e' with before | same | behind
  · exact absurd ends (not_endsAt_of_reading ends'.1 e before)
  · exact same
  · exact absurd ends' (not_endsAt_of_reading ends.1 e' behind)

theorem shownBefore_eq {a : Fetch} {interest : List String} {time : Nat} {lines : List ByteArray}
    (reading : a.foundBefore time = (lines, .reading)) :
    a.shownBefore interest time =
      LogEntry.showAll interest Scanner.defaultLimit lines false := by
  rw [shownBefore, reading]
  rfl

/-- A reader of an answer: some lines are behind it, and it will find what there is. -/
structure Stands (a : Fetch) (now : Nat) (lines : List ByteArray) (tail : Tail) : Prop where
  so_far : a.foundBefore now = (lines, .reading)
  ahead : ∀ later, now ≤ later → a.foundBefore (later + 1) =
    (lines ++ (tail.pull (Scanner.upTo Scanner.defaultLimit) later).1,
      (tail.pull (Scanner.upTo Scanner.defaultLimit) later).2.1)

theorem stands_start {a : Fetch} {stream : LogStream} (answered : a.answer = .ok stream) :
    a.Stands a.arrival [] (.start a.arrival stream) :=
  ⟨foundBefore_of_le (Nat.le_refl _), fun _ after => foundBefore_of_ok answered after⟩

/-- A reader goes on. -/
theorem Stands.next {a : Fetch} {now : Nat} {lines : List ByteArray} {tail : Tail}
    (stands : a.Stands now lines tail) {found : List ByteArray} {tail' : Tail}
    (reads : tail.pull (Scanner.upTo Scanner.defaultLimit) now = (found, .reading, tail')) :
    a.Stands (now + 1) (lines ++ found) tail' := by
  refine ⟨?_, fun later after => ?_⟩
  · rw [stands.ahead now (Nat.le_refl _), reads]
  · rw [stands.ahead later (by omega), Tail.pull_pull (Nat.le_of_succ_le after) reads,
      List.append_assoc]

/-- Or the answer is over. -/
theorem Stands.endsAt {a : Fetch} {now : Nat} {lines : List ByteArray} {tail : Tail}
    (stands : a.Stands now lines tail)
    (stopped : (tail.pull (Scanner.upTo Scanner.defaultLimit) now).2.1 ≠ .reading) : a.EndsAt now := by
  refine ⟨by rw [stands.so_far], ?_⟩
  rwa [stands.ahead now (Nat.le_refl _)]

/-- What is over at a time ended by then. -/
theorem exists_endsAt_of_over {a : Fetch} {time : Nat} (stopped : (a.foundBefore (time + 1)).2 ≠ .reading) :
    ∃ e, e ≤ time ∧ a.EndsAt e := by
  induction time with
  | zero => exact ⟨0, Nat.le_refl 0, by rw [foundBefore_of_le (Nat.zero_le _)], stopped⟩
  | succ time ih =>
      by_cases before : (a.foundBefore (time + 1)).2 = .reading
      · exact ⟨time + 1, Nat.le_refl _, before, stopped⟩
      · obtain ⟨e, early, ends⟩ := ih before
        exact ⟨e, Nat.le_succ_of_le early, ends⟩

/-- A failure is over as it arrives. -/
theorem endsAt_of_error {a : Fetch} {e : PlatformError} (failed : a.answer = .error e) :
    a.EndsAt a.arrival := by
  refine ⟨by rw [foundBefore_of_le (Nat.le_refl _)], ?_⟩
  rw [foundBefore_of_error failed (Nat.lt_succ_self _)]
  decide

/-- **What is all there by a time is over by then**, if not before. -/
theorem exists_endsAt {a : Fetch} {time : Nat} (comes : a.ComesBy time) :
    ∃ e, e ≤ time ∧ a.EndsAt e := by
  unfold ComesBy at comes
  split at comes
  · rename_i answer
    exact ⟨a.arrival, comes, endsAt_of_error answer⟩
  · rename_i stream answer
    obtain ⟨come, length, ends, short⟩ := comes
    refine exists_endsAt_of_over fun reading => ?_
    rw [foundBefore_of_ok answer (Nat.le_trans (Nat.le_add_right _ _) short)] at reading
    have all_come : ((Tail.start a.arrival stream).advance time).stream.chunks = [] :=
      List.dropWhile_eq_nil_iff.2 fun c member => decide_eq_true (come c member)
    have all_ended : ((Tail.start a.arrival stream).advance time).stream.length.any
        ((Tail.start a.arrival stream).isDue time) = true := by
      show stream.length.any _ = true
      rw [ends]
      exact decide_eq_true short
    have ended : ((Tail.start a.arrival stream).advance time).hasEnded time = true :=
      Bool.and_eq_true_iff.2 ⟨List.isEmpty_iff.2 all_come, all_ended⟩
    rw [Tail.pull_eq] at reading
    exact Tail.settle_ne_reading ended _ reading

end Fetch

theorem LogEntry.showAll_append (interest : List String) (limit : Nat) (lines lines' : List ByteArray)
    (failed : Bool) :
    showAll interest limit (lines ++ lines') failed =
      showAll interest limit lines false ++ showAll interest limit lines' failed := by
  simp [showAll]

theorem LogEntry.showAll_cons (interest : List String) (limit : Nat) (line : ByteArray)
    (lines : List ByteArray) (failed : Bool) :
    showAll interest limit (line :: lines) failed =
      (show? interest (lineText line)).toList ++ showAll interest limit lines failed := by
  cases found : show? interest (lineText line) <;> simp [showAll, found]

namespace Follower

variable {σ : Type}

/-- What a follower asks for. -/
def logOf (app : String) : Call := .appLogs app true (some since)

/-! ## Courses -/

section Courses

variable (platform : Platform σ) (app : String) (retry stop : Nat)

/-- The log is asked for at a time. -/
def fetchAt (time : Nat) (s : σ) : Fetch :=
  ⟨time, platform.takes (logOf app) s, (platform.answer (logOf app) s).1⟩

/-- The platform behind that. -/
def behindFetch (s : σ) : σ := (platform.answer (logOf app) s).2

/-- **A course of fetches**, from a time at which to ask on, until some time: while the answer is
not over there is no other fetch, and the next one comes when the retry time has passed after
its end, but not in the same millisecond. -/
inductive Course : σ → Nat → List Fetch → Prop
  | late {s : σ} {time : Nat} (late : stop ≤ time) : Course s time []
  | unended {s : σ} {time : Nat} (early : time < stop)
      (goes : ∀ e < stop, ¬ (fetchAt platform app time s).EndsAt e) :
      Course s time [fetchAt platform app time s]
  | again {s : σ} {time e : Nat} {fetches : List Fetch} (early : time < stop)
      (ends : (fetchAt platform app time s).EndsAt e)
      (rest : Course (behindFetch platform app s) (max (e + retry) (e + 1)) fetches) :
      Course s time (fetchAt platform app time s :: fetches)

/-- What comes behind a fetch: nothing while it is not over, or a course from when it is asked
again. -/
def Behind (s : σ) (a : Fetch) (fetches : List Fetch) : Prop :=
  (fetches = [] ∧ ∀ e < stop, ¬ a.EndsAt e) ∨
    ∃ e, a.EndsAt e ∧ Course platform app retry stop s (max (e + retry) (e + 1)) fetches

variable {platform app retry stop}

theorem Behind.course {s : σ} {time : Nat} {fetches : List Fetch} (early : time < stop)
    (behind : Behind platform app retry stop (behindFetch platform app s)
      (fetchAt platform app time s) fetches) :
    Course platform app retry stop s time (fetchAt platform app time s :: fetches) := by
  rcases behind with ⟨rfl, goes⟩ | ⟨e, ends, rest⟩
  · exact .unended early goes
  · exact .again early ends rest

section Laws

variable {s : σ} {time : Nat} {fetches : List Fetch}
  (course : Course platform app retry stop s time fetches)
include course

theorem Course.time_eq {a : Fetch} (first : a ∈ fetches.head?) : a.time = time := by
  cases course with
  | late => cases first
  | unended | again => exact Option.some.inj first ▸ rfl

/-- **From the end of an answer to the next fetch, the retry time passes.** -/
theorem Course.apart :
    fetches.IsChain fun a b => ∃ e, a.EndsAt e ∧ e + retry ≤ b.time := by
  induction course with
  | late => exact .nil
  | unended => exact .singleton _
  | again early ends rest ih =>
      refine List.isChain_cons.2 ⟨fun b first => ⟨_, ends, ?_⟩, ih⟩
      rw [rest.time_eq first]
      exact Nat.le_max_left _ _

/-- **No answer is the last**, as long as there is time. -/
theorem Course.exists_next {a : Fetch} (member : a ∈ fetches) {e : Nat} (ends : a.EndsAt e)
    (early : max (e + retry) (e + 1) < stop) : ∃ b ∈ fetches, b.time = max (e + retry) (e + 1) := by
  induction course with
  | late => cases member
  | unended first goes =>
      obtain rfl := List.mem_singleton.1 member
      exact absurd ends (goes e (by omega))
  | again first ends' rest ih =>
      rcases List.mem_cons.1 member with rfl | behind
      · obtain rfl := ends.unique ends'
        cases rest with
        | late late => exact absurd early (Nat.not_lt.2 late)
        | unended | again => exact ⟨_, List.mem_cons_of_mem _ List.mem_cons_self, rfl⟩
      · obtain ⟨b, inside, next⟩ := ih behind
        exact ⟨b, List.mem_cons_of_mem _ inside, next⟩

end Laws

end Courses

/-! ## One time -/

section Once

variable (platform : Platform σ) (i : Interruption)

/-- A turn that changes nothing is the last one at a time. -/
theorem stepUntil_of_turn_eq {f : Follower} {w : World σ}
    (same : f.turn platform (i.signal w.now) w = (f, w)) : f.stepUntil platform i w = (f, w) := by
  refine stepUntil_of_farther same fun closer => ?_
  unfold FollowerPhase.Closer at closer
  generalize f.phase.distance = d at closer
  cases closer with
  | left _ _ less | right _ less => exact absurd less (Nat.lt_irrefl _)

/-- From the interruption on, a follower is over. -/
theorem stepUntil_of_late {w : World σ} (late : i.time ≤ w.now) (f : Follower) :
    f.stepUntil platform i w = ({ f with phase := .over }, w) := by
  have turns (f : Follower) : f.turn platform (i.signal w.now) w = ({ f with phase := .over }, w) :=
    turn_of_released platform ((i.released_signal_iff w.now).2 late) f w
  have stays : (Follower.stepUntil platform i { f with phase := .over } w) =
      ({ f with phase := .over }, w) :=
    stepUntil_of_turn_eq platform i (turns _)
  by_cases closer : FollowerPhase.over.Closer f.phase
  · rw [stepUntil_of_closer (turns f) closer, stays]
  · exact stepUntil_of_farther (turns f) closer

variable {w : World σ} (early : w.now < i.time) {app : String} {interest : List String} {retry : Nat}
include early

theorem turn_early (f : Follower) :
    f.turn platform (i.signal w.now) w =
      match f.phase with
      | .idle due => if w.now < due then (f, w) else f.fetch platform w
      | .fetching answer arrival => if w.now < arrival then (f, w) else f.receive answer arrival w
      | .reading tail => f.take tail w
      | .over => (f, w) :=
  turn_of_going platform (Bool.eq_false_iff.2 fun released =>
    Nat.not_le.2 early ((i.released_signal_iff w.now).1 released)) f w

/-- A follower waits until it is to ask again. -/
theorem stepUntil_waiting {due : Nat} (waits : w.now < due) :
    stepUntil platform i ⟨app, interest, retry, .idle due⟩ w = (⟨app, interest, retry, .idle due⟩, w) :=
  stepUntil_of_turn_eq platform i ((turn_early platform i early _).trans (if_pos waits))

/-- It waits for an answer. -/
theorem stepUntil_awaiting {answer : Except PlatformError LogStream} {arrival : Nat}
    (waits : w.now < arrival) :
    stepUntil platform i ⟨app, interest, retry, .fetching answer arrival⟩ w =
      (⟨app, interest, retry, .fetching answer arrival⟩, w) :=
  stepUntil_of_turn_eq platform i ((turn_early platform i early _).trans (if_pos waits))

/-- It asks. -/
theorem stepUntil_asking {due : Nat} (late : due ≤ w.now) :
    stepUntil platform i ⟨app, interest, retry, .idle due⟩ w =
      stepUntil platform i ⟨app, interest, retry, .fetching (fetchAt platform app w.now w.state).answer
        (fetchAt platform app w.now w.state).arrival⟩ (w.answered platform (logOf app)) :=
  stepUntil_of_closer ((turn_early platform i early _).trans (if_neg (Nat.not_lt.2 late)))
    (.left _ _ (by decide))

/-- An answer that is a failure is over as it arrives. -/
theorem stepUntil_failed {e : PlatformError} {arrival : Nat} (late : arrival ≤ w.now) :
    stepUntil platform i ⟨app, interest, retry, .fetching (.error e) arrival⟩ w =
      (⟨app, interest, retry, .idle (w.now + retry)⟩, w) := by
  refine stepUntil_of_farther ((turn_early platform i early _).trans (if_neg (Nat.not_lt.2 late)))
    fun closer => ?_
  cases closer with
  | left _ _ less => exact absurd less (by decide)

/-- A stream is read as it arrives. -/
theorem stepUntil_opening {stream : LogStream} {arrival : Nat} (late : arrival ≤ w.now) :
    stepUntil platform i ⟨app, interest, retry, .fetching (.ok stream) arrival⟩ w =
      stepUntil platform i ⟨app, interest, retry, .reading (.start arrival stream)⟩ w :=
  stepUntil_of_closer ((turn_early platform i early _).trans (if_neg (Nat.not_lt.2 late)))
    (.left _ _ (by decide))

/-- **Line by line a follower reads all that has come.** -/
theorem stepUntil_reading (tail : Tail) :
    stepUntil platform i ⟨app, interest, retry, .reading tail⟩ w =
      let out := tail.pull (Scanner.upTo Scanner.defaultLimit) w.now
      (⟨app, interest, retry, if out.2.1 = .reading then .reading out.2.2 else .idle (w.now + retry)⟩,
        (Act.displayAll (LogEntry.showAll interest Scanner.defaultLimit out.1
          (out.2.1 = .overlong)) w).2) := by
  induction weight : tail.weight using Nat.strong_induction_on generalizing tail w with
  | _ weight' ih =>
      have turned := (turn_early platform i early ⟨app, interest, retry, .reading tail⟩).trans
        (take_apply _ tail w)
      have rests (t : Nat) : ¬ (FollowerPhase.idle t).Closer (.reading tail) := fun closer => by
        cases closer with
        | left _ _ less => exact absurd less (by decide)
      have all := Tail.pull_of_next (Scanner.upTo Scanner.defaultLimit) tail w.now
      rcases read : tail.next (Scanner.upTo Scanner.defaultLimit) w.now with ⟨bytes | _ | _ | _, tail'⟩ <;>
        rw [show tail.next (Scanner.upTo lineLimit) w.now = _ from read] at turned <;> rw [read] at all
      · have lighter : tail'.weight < weight' := weight ▸ Tail.weight_next_lt read
        have closer : (FollowerPhase.reading tail').Closer (.reading tail) :=
          .right _ (Nat.succ_lt_succ (weight ▸ lighter))
        have still : (Act.displayAll (LogEntry.show? interest (lineText bytes)).toList w).2.now = w.now :=
          (Act.quiet_displayAll _ w).1
        rw [stepUntil_of_closer turned closer, ih _ lighter (still ▸ early) tail' rfl, still, all]
        dsimp only
        rw [LogEntry.showAll_cons, Act.displayAll_append]
      · rw [stepUntil_of_farther turned (rests _), all]
        rfl
      · rw [stepUntil_of_farther turned (rests _), all]
        rfl
      · have again : tail'.pull (Scanner.upTo Scanner.defaultLimit) w.now = ([], .reading, tail') := by
          have twice := Tail.pull_pull (Nat.le_refl _) all
          exact twice.symm.trans all
        rw [all]
        by_cases closer : (FollowerPhase.reading tail').Closer (.reading tail)
        · have lighter : tail'.weight < weight' := by
            cases closer with
            | left _ _ less => exact absurd less (by decide)
            | right _ less => exact weight ▸ Nat.lt_of_succ_lt_succ less
          rw [stepUntil_of_closer turned closer, ih _ lighter early tail' rfl, again]
        · exact stepUntil_of_farther turned closer

end Once

/-! ## Runs -/

section Run

/-- From one world to another, a follower has asked for the log and has shown some lines. -/
structure Marks (app : String) (fetches : List Fetch) (shown : List Line) (w w' : World σ) : Prop where
  asked : w'.asked =
    w.asked ++ fetches.map fun a => (a.time, .called (logOf app) (Act.failure? a.answer))
  lines : w'.lines = w.lines ++ shown

section Marks

variable (app : String) {w w₁ w₂ : World σ}

theorem marks_of_past (same : w₁.past = w.past) : Marks app [] [] w w₁ :=
  ⟨(World.asked_of_past same).trans (List.append_nil _).symm, by
    rw [World.lines, World.lines, World.occurrences, World.occurrences, same, List.append_nil]⟩

variable {app} in
theorem Marks.trans {fetches fetches' : List Fetch} {shown shown' : List Line}
    (first : Marks app fetches shown w w₁) (later : Marks app fetches' shown' w₁ w₂) :
    Marks app (fetches ++ fetches') (shown ++ shown') w w₂ :=
  ⟨by rw [later.asked, first.asked, List.append_assoc, List.map_append],
    by rw [later.lines, first.lines, List.append_assoc]⟩

theorem marks_displayAll (ls : List Line) (w : World σ) :
    Marks app [] ls w (Act.displayAll ls w).2 :=
  ⟨(Act.leaves_displayAll ls w).asked_eq.trans (List.append_nil _).symm, Act.lines_displayAll ls w⟩

theorem marks_answered (platform : Platform σ) (w : World σ) :
    Marks app [fetchAt platform app w.now w.state] [] w (w.answered platform (logOf app)) := by
  refine ⟨World.asked_answered w platform (logOf app), ?_⟩
  rw [World.lines_answered, List.append_nil]

end Marks

variable (platform : Platform σ) (i : Interruption)

theorem passFor_succ (n : Nat) (f : Follower) (w : World σ) :
    Act.passFor (stepUntil platform i) (n + 1) f w =
      Act.passFor (stepUntil platform i) n (f.stepUntil platform i w).1
        { (f.stepUntil platform i w).2 with now := (f.stepUntil platform i w).2.now + 1 } := rfl

/-- Where no time is left, nothing happens. -/
theorem past_passFor {n : Nat} {w : World σ} (late : min (w.now + n) i.time ≤ w.now) (f : Follower) :
    (Act.passFor (stepUntil platform i) n f w).2.past = w.past := by
  induction n generalizing f w with
  | zero => rfl
  | succ n ih =>
      have late : i.time ≤ w.now := by omega
      rw [passFor_succ, stepUntil_of_late platform i late]
      exact ih (w := { w with now := w.now + 1 })
        (by show min (w.now + 1 + n) i.time ≤ w.now + 1; omega) _

section Course

variable (app : String) (interest : List String) (retry : Nat)

/-- What the rest of a run comes to for a follower that is idle: a course, and what it shows. -/
def IdleRuns (n : Nat) : Prop :=
  ∀ (due : Nat) (w : World σ),
    let stop := min (w.now + n) i.time
    ∃ fetches, Course platform app retry stop w.state (max due w.now) fetches ∧
      Marks app fetches (fetches.flatMap (·.shownBefore interest stop)) w
        (Act.passFor (stepUntil platform i) n ⟨app, interest, retry, .idle due⟩ w).2

/-- For one that waits for an answer: what it is given, and what comes behind it. -/
def FetchingRuns (n : Nat) : Prop :=
  ∀ (a : Fetch) (w : World σ), w.now ≤ a.arrival → w.now ≤ i.time →
    let stop := min (w.now + n) i.time
    ∃ fetches, Behind platform app retry stop w.state a fetches ∧
      Marks app fetches (a.shownBefore interest stop ++ fetches.flatMap (·.shownBefore interest stop)) w
        (Act.passFor (stepUntil platform i) n ⟨app, interest, retry, .fetching a.answer a.arrival⟩ w).2

/-- And for one that reads: the rest of what it reads, and what comes behind it. -/
def ReadingRuns (n : Nat) : Prop :=
  ∀ (a : Fetch) (lines : List ByteArray) (tail : Tail) (w : World σ), a.Stands w.now lines tail →
    w.now ≤ i.time →
    let stop := min (w.now + n) i.time
    ∃ fetches more, Behind platform app retry stop w.state a fetches ∧
      LogEntry.showAll interest Scanner.defaultLimit lines false ++ more = a.shownBefore interest stop ∧
      Marks app fetches (more ++ fetches.flatMap (·.shownBefore interest stop)) w
        (Act.passFor (stepUntil platform i) n ⟨app, interest, retry, .reading tail⟩ w).2

/-! ### Where no time is left -/

theorem idleRuns_of_late {n due : Nat} {w : World σ} (late : min (w.now + n) i.time ≤ w.now) :
    ∃ fetches, Course platform app retry (min (w.now + n) i.time) w.state (max due w.now) fetches ∧
      Marks app fetches (fetches.flatMap (·.shownBefore interest (min (w.now + n) i.time))) w
        (Act.passFor (stepUntil platform i) n ⟨app, interest, retry, .idle due⟩ w).2 :=
  ⟨[], .late (by omega), marks_of_past app (past_passFor platform i late _)⟩

theorem fetchingRuns_of_late {n : Nat} {a : Fetch} {w : World σ} (under_way : w.now ≤ a.arrival)
    (stop : min (w.now + n) i.time = w.now) :
    ∃ fetches, Behind platform app retry w.now w.state a fetches ∧
      Marks app fetches (a.shownBefore interest w.now ++ fetches.flatMap (·.shownBefore interest w.now))
        w (Act.passFor (stepUntil platform i) n ⟨app, interest, retry, .fetching a.answer a.arrival⟩
          w).2 := by
  have nothing := Fetch.foundBefore_of_le under_way
  refine ⟨[], .inl ⟨rfl, Fetch.not_endsAt_of_reading (by rw [nothing])⟩, ?_⟩
  rw [Fetch.shownBefore_eq nothing]
  exact marks_of_past app (past_passFor platform i (by omega) _)

theorem readingRuns_of_late {n : Nat} {a : Fetch} {lines : List ByteArray} {tail : Tail} {w : World σ}
    (stands : a.Stands w.now lines tail) (stop : min (w.now + n) i.time = w.now) :
    ∃ fetches more, Behind platform app retry w.now w.state a fetches ∧
      LogEntry.showAll interest Scanner.defaultLimit lines false ++ more = a.shownBefore interest w.now ∧
      Marks app fetches (more ++ fetches.flatMap (·.shownBefore interest w.now)) w
        (Act.passFor (stepUntil platform i) n ⟨app, interest, retry, .reading tail⟩ w).2 := by
  refine ⟨[], [], .inl ⟨rfl, ?_⟩, ?_, marks_of_past app (past_passFor platform i (by omega) _)⟩
  · exact Fetch.not_endsAt_of_reading (by rw [stands.so_far])
  · rw [List.append_nil, Fetch.shownBefore_eq stands.so_far]

/-! ### A millisecond -/

/-- A millisecond of reading. -/
theorem exists_passFor_reading {n : Nat} {tail tail' : Tail} {w : World σ} (early : w.now < i.time)
    {found : List ByteArray} {status : Tail.Status}
    (reads : tail.pull (Scanner.upTo Scanner.defaultLimit) w.now = (found, status, tail')) :
    ∃ w₁ : World σ, w₁.now = w.now + 1 ∧ w₁.state = w.state ∧
      Marks app [] (LogEntry.showAll interest Scanner.defaultLimit found (status = .overlong)) w w₁ ∧
      Act.passFor (stepUntil platform i) (n + 1) ⟨app, interest, retry, .reading tail⟩ w =
        Act.passFor (stepUntil platform i) n ⟨app, interest, retry,
          if status = .reading then .reading tail' else .idle (w.now + retry)⟩ w₁ := by
  rw [passFor_succ, stepUntil_reading platform i early, reads]
  dsimp only
  generalize LogEntry.showAll interest Scanner.defaultLimit found (status = .overlong) = ls
  have shows := marks_displayAll app ls w
  obtain ⟨still, kept⟩ := Act.quiet_displayAll ls w
  exact ⟨{ (Act.displayAll ls w).2 with now := (Act.displayAll ls w).2.now + 1 },
    congrArg (· + 1) still, kept, ⟨shows.asked, shows.lines⟩, rfl⟩

theorem readingRuns_succ {n : Nat} (idle : IdleRuns platform i app interest retry n)
    (reading : ReadingRuns platform i app interest retry n) :
    ReadingRuns platform i app interest retry (n + 1) := by
  intro a lines tail w stands early
  by_cases late : i.time ≤ w.now
  · have stop : min (w.now + (n + 1)) i.time = w.now := by omega
    have rest := readingRuns_of_late platform i app interest retry stands stop
    dsimp only
    rwa [stop]
  rcases reads : tail.pull (Scanner.upTo Scanner.defaultLimit) w.now with ⟨found, status, tail'⟩
  obtain ⟨w₁, now, state, shows, run⟩ := exists_passFor_reading platform i app interest retry
    (n := n) (Nat.lt_of_not_le late) reads
  have stop : min (w₁.now + n) i.time = min (w.now + (n + 1)) i.time := by omega
  dsimp only
  rw [run, ← stop, ← state]
  by_cases goes : status = .reading
  · subst goes
    obtain ⟨fetches, more, behind, shown, marks⟩ := reading a (lines ++ found) tail' w₁
      (now ▸ stands.next reads) (by omega)
    refine ⟨fetches, LogEntry.showAll interest Scanner.defaultLimit found false ++ more, behind, ?_, ?_⟩
    · rw [← shown, LogEntry.showAll_append, List.append_assoc]
    · rw [List.append_assoc]
      exact shows.trans marks
  · have ends : a.EndsAt w.now := stands.endsAt (by rwa [reads])
    obtain ⟨fetches, course, marks⟩ := idle (w.now + retry) w₁
    refine ⟨fetches, LogEntry.showAll interest Scanner.defaultLimit found (status = .overlong),
      .inr ⟨w.now, ends, now ▸ course⟩, ?_, ?_⟩
    · have all := stands.ahead w.now (Nat.le_refl _)
      rw [reads] at all
      have stays : a.foundBefore (min (w₁.now + n) i.time) = a.foundBefore (w.now + 1) :=
        Fetch.foundBefore_of_over (by omega) ends.2
      rw [Fetch.shownBefore, stays, all, LogEntry.showAll_append]
    · rw [if_neg goes]
      exact shows.trans marks

/-- A millisecond of waiting for an answer, or its arrival. -/
theorem fetchingRuns_succ {n : Nat} (idle : IdleRuns platform i app interest retry n)
    (fetching : FetchingRuns platform i app interest retry n)
    (reading : ReadingRuns platform i app interest retry (n + 1)) :
    FetchingRuns platform i app interest retry (n + 1) := by
  intro a w under_way early
  by_cases late : i.time ≤ w.now
  · have stop : min (w.now + (n + 1)) i.time = w.now := by omega
    have rest := fetchingRuns_of_late platform i app interest retry under_way stop
    dsimp only
    rwa [stop]
  have in_time := Nat.lt_of_not_le late
  have stop : min (w.now + 1 + n) i.time = min (w.now + (n + 1)) i.time := by omega
  dsimp only
  by_cases waits : w.now < a.arrival
  · obtain ⟨fetches, behind, marks⟩ := fetching a { w with now := w.now + 1 } waits in_time
    dsimp only at behind marks
    rw [stop] at behind marks
    rw [passFor_succ, stepUntil_awaiting platform i in_time waits]
    exact ⟨fetches, behind, marks.asked, marks.lines⟩
  have here : a.arrival ≤ w.now := Nat.le_of_not_lt waits
  have now : w.now = a.arrival := Nat.le_antisymm under_way here
  cases answer : a.answer with
  | error e =>
      obtain ⟨fetches, course, marks⟩ := idle (w.now + retry) { w with now := w.now + 1 }
      dsimp only at course marks
      rw [stop] at course marks
      have nothing : a.shownBefore interest (min (w.now + (n + 1)) i.time) = [] := by
        rw [Fetch.shownBefore, Fetch.foundBefore_of_error answer (by omega)]
        rfl
      refine ⟨fetches, .inr ⟨w.now, now ▸ Fetch.endsAt_of_error answer, course⟩, ?_⟩
      rw [passFor_succ, stepUntil_failed platform i in_time here, nothing]
      exact ⟨marks.asked, marks.lines⟩
  | ok stream =>
      have stands := now ▸ Fetch.stands_start answer
      obtain ⟨fetches, more, behind, shown, marks⟩ := reading a [] _ w stands early
      refine ⟨fetches, behind, ?_⟩
      rw [← shown, passFor_succ, stepUntil_opening platform i in_time here, ← now]
      exact marks

theorem idleRuns_succ {n : Nat} (idle : IdleRuns platform i app interest retry n)
    (fetching : FetchingRuns platform i app interest retry (n + 1)) :
    IdleRuns platform i app interest retry (n + 1) := by
  intro due w
  by_cases late : i.time ≤ w.now
  · exact idleRuns_of_late platform i app interest retry (by omega)
  have early := Nat.lt_of_not_le late
  dsimp only
  by_cases waits : w.now < due
  · have stop : min (w.now + 1 + n) i.time = min (w.now + (n + 1)) i.time := by omega
    obtain ⟨fetches, course, marks⟩ := idle due { w with now := w.now + 1 }
    dsimp only at course marks
    rw [stop, Nat.max_eq_left (Nat.succ_le_of_lt waits)] at course
    rw [stop] at marks
    rw [passFor_succ, stepUntil_waiting platform i early waits, Nat.max_eq_left (Nat.le_of_lt waits)]
    exact ⟨fetches, course, marks.asked, marks.lines⟩
  have asks := Nat.le_of_not_lt waits
  obtain ⟨fetches, behind, marks⟩ := fetching (fetchAt platform app w.now w.state)
    (w.answered platform (logOf app)) (Nat.le_add_right _ _) (Nat.le_of_lt early)
  have in_time : w.now < min (w.now + (n + 1)) i.time := by omega
  rw [Nat.max_eq_right asks]
  refine ⟨_, behind.course in_time, ?_⟩
  rw [passFor_succ, stepUntil_asking platform i early asks, List.flatMap_cons]
  exact (marks_answered app platform w).trans marks

theorem runs (n : Nat) :
    IdleRuns platform i app interest retry n ∧ FetchingRuns platform i app interest retry n ∧
      ReadingRuns platform i app interest retry n := by
  induction n with
  | zero =>
      refine ⟨fun due w => idleRuns_of_late platform i app interest retry (by omega),
        fun a w under_way early => ?_, fun a lines tail w stands early => ?_⟩
      all_goals
        have stop : min (w.now + 0) i.time = w.now := by omega
        dsimp only
        rw [stop]
      · exact fetchingRuns_of_late platform i app interest retry under_way stop
      · exact readingRuns_of_late platform i app interest retry stands stop
  | succ n ih =>
      obtain ⟨idle, fetching, reading⟩ := ih
      have reading' := readingRuns_succ platform i app interest retry idle reading
      have fetching' := fetchingRuns_succ platform i app interest retry idle fetching reading'
      exact ⟨idleRuns_succ platform i app interest retry idle fetching', fetching', reading'⟩

/-- What happens at one time. -/
theorem exists_leaves_stepUntil (f : Follower) (w : World σ) :
    ∃ os, World.Leaves os w (f.stepUntil platform i w).2 := by
  induction f, w using stepUntil.induct platform i with
  | case1 f w next w' came closer ih =>
      obtain ⟨os, first⟩ := exists_leaves_turn platform (i.signal w.now) f w
      obtain ⟨os', later⟩ := ih
      rw [came] at first
      rw [stepUntil_of_closer came closer]
      exact ⟨_, first.trans later⟩
  | case2 f w next w' came farther =>
      obtain ⟨os, leaves⟩ := exists_leaves_turn platform (i.signal w.now) f w
      rw [came] at leaves
      rw [stepUntil_of_farther came farther]
      exact ⟨os, leaves⟩

/-- What happens in a run happens before the interruption. -/
theorem exists_occurrences_passFor (n : Nat) (f : Follower) (w : World σ) :
    ∃ added, (Act.passFor (stepUntil platform i) n f w).2.occurrences = w.occurrences ++ added ∧
      ∀ o ∈ added, w.now ≤ o.1 ∧ o.1 < min (w.now + n) i.time := by
  induction n generalizing f w with
  | zero => exact ⟨[], (List.append_nil _).symm, List.forall_mem_nil _⟩
  | succ n ih =>
      by_cases late : i.time ≤ w.now
      · refine ⟨[], ?_, List.forall_mem_nil _⟩
        rw [World.occurrences, past_passFor platform i (by omega), List.append_nil]
        rfl
      have early := Nat.lt_of_not_le late
      obtain ⟨os, leaves⟩ := exists_leaves_stepUntil platform i f w
      obtain ⟨added, occurrences, times⟩ := ih (f.stepUntil platform i w).1
        { (f.stepUntil platform i w).2 with now := (f.stepUntil platform i w).2.now + 1 }
      refine ⟨os.map (w.now, ·) ++ added, ?_, List.forall_mem_append.2 ⟨?_, fun o member => ?_⟩⟩
      · rw [passFor_succ, occurrences, ← List.append_assoc, ← leaves.occurrences]
        rfl
      · rintro o member
        obtain ⟨occurrence, -, rfl⟩ := List.mem_map.1 member
        exact ⟨Nat.le_refl _, by dsimp only; omega⟩
      · have time := times o member
        have now := leaves.now
        dsimp only at time
        omega

/-- **What a follower does until it is called off.**  It fetches the log on a course: at once, and
again after every answer, be it a failure, a stream that ends or one with a line that is too long.
The retry time lies between the end of an answer and the next fetch.  It shows what is to be found
in the answers before the interruption, and from then on nothing happens. -/
theorem passFor_stepUntil (n : Nat) (w : World σ) :
    let stop := min (w.now + n) i.time
    let w' := (Act.passFor (stepUntil platform i) n (.new app interest retry) w).2
    ∃ fetches, Course platform app retry stop w.state w.now fetches ∧
      Marks app fetches (fetches.flatMap (·.shownBefore interest stop)) w w' ∧
      (fetches.IsChain fun a b => ∃ e, a.EndsAt e ∧ e + retry ≤ b.time) ∧
      (∀ a ∈ fetches, (∀ time, a.ComesBy time → ∃ e, e ≤ time ∧ a.EndsAt e) ∧
        ∀ e, a.EndsAt e → max (e + retry) (e + 1) < stop →
          ∃ b ∈ fetches, b.time = max (e + retry) (e + 1)) ∧
      ∃ added, w'.occurrences = w.occurrences ++ added ∧
        ∀ o ∈ added, w.now ≤ o.1 ∧ o.1 < stop := by
  obtain ⟨fetches, course, marks⟩ := (runs platform i app interest retry n).1 0 w
  rw [Nat.max_eq_right (Nat.zero_le _)] at course
  exact ⟨fetches, course, marks, course.apart, fun a member => ⟨fun _ => Fetch.exists_endsAt,
    fun e ends early => course.exists_next member ends early⟩, exists_occurrences_passFor platform i n _ w⟩

end Course

end Run

/-! ## Any schedule -/

/-- **A follower asks again and again until the signal is released, and not before the retry time is
over.**

Whatever moves there are between its turns, from any state: once the signal is released, by firing it
or by dropping the last trigger, nothing more is asked and no line is taken, also where an answer is on
its way or lines are there to be read.  Unless it is released the follower is not over, and asks at its
next turn when it has waited.  From one call to the next there is a turn at which the answer of the
first one comes to its end, be it a failure, the end of a stream or a line that is too long, and the
second one does not come before the retry time has passed since.

On its own schedule it takes such turns at every time, and keeps to a course.  An answer is over when
all of it is there, if not before, and the next call comes when the retry time has passed since; and
what is to be found in the answers by then is shown. -/
theorem retries_until_released (platform : Platform σ) :
    (∀ (s : Following σ) (moves : List (Move σ)),
      let s' := s.run platform moves
      (s.signal.released = true →
        s'.world.past = s.world.past ∧
          (s'.follower = s.follower ∨ s'.follower = { s.follower with phase := .over })) ∧
      (s'.signal.released = false → s.follower.phase ≠ .over →
        s'.follower.phase ≠ .over ∧
          ∀ due, s'.follower.phase = .idle due → due ≤ s'.world.now →
            (s'.step platform .turn).world = s'.world.answered platform s'.follower.call ∧
              (s'.step platform .turn).follower.phase.isBusy = true) ∧
      (s.follower.phase.isBusy = true →
        s'.world.asked = s.world.asked ∨
          ∃ before after, moves = before ++ .turn :: after ∧
            (s.run platform before).Ends platform ∧
            (s.run platform before).world.asked = s.world.asked ∧
            Following.AsksFrom ((s.run platform before).world.now + s.follower.retry) s s')) ∧
    ∀ (i : Interruption) (w : World σ),
      (∀ f : Follower, ∃ n,
        (⟨f, i.signal w.now, w⟩ : Following σ).run platform (.replicate n .turn) =
          ⟨(f.stepUntil platform i w).1, i.signal w.now, (f.stepUntil platform i w).2⟩) ∧
      ∀ (app : String) (interest : List String) (retry n : Nat),
        let stop := min (w.now + n) i.time
        let w' := (Act.passFor (stepUntil platform i) n (.new app interest retry) w).2
        ∃ fetches, Course platform app retry stop w.state w.now fetches ∧
          Marks app fetches (fetches.flatMap (·.shownBefore interest stop)) w w' ∧
          (fetches.IsChain fun a b => ∃ e, a.EndsAt e ∧ e + retry ≤ b.time) ∧
          (∀ a ∈ fetches, (∀ time, a.ComesBy time → ∃ e, e ≤ time ∧ a.EndsAt e) ∧
            ∀ e, a.EndsAt e → max (e + retry) (e + 1) < stop →
              ∃ b ∈ fetches, b.time = max (e + retry) (e + 1)) ∧
          ∃ added, w'.occurrences = w.occurrences ++ added ∧
            ∀ o ∈ added, w.now ≤ o.1 ∧ o.1 < stop := by
  refine ⟨fun s moves => ⟨fun released => ?_, fun going on => ?_, fun busy => ?_⟩, fun i w => ⟨?_, ?_⟩⟩
  · exact Following.run_of_released platform released moves
  · exact ⟨Following.run_ne_over platform moves going on, fun due idle late =>
      Following.turn_asks platform going idle late⟩
  · exact Following.exists_end platform busy moves
  · exact fun f => stepUntil_turns platform i f w
  · exact fun app interest retry n => passFor_stepUntil platform i app interest retry n w

/-- A platform in memory that takes its time to open a log. -/
def slowLogs : Platform Memory :=
  Memory.taking fun
    | .appLogs .. => 5
    | _ => 0

/-- A log of two lines, which are there at once. -/
def twoLines : LogStream :=
  .ofBytes "2024-01-01T00:00:00Z service/web/1 one\n2024-01-01T00:00:00Z service/web/1 two\n".toUTF8

/-- A follower of that log that has shown the first line, as the next thing happens. -/
def midway (next : Move Memory) : Following Memory :=
  (⟨.new "dev" ["web"] 1000, .new, .start { Memory.empty with appLogs := [.ok twoLines] }⟩ :
    Following Memory).run slowLogs [.turn, .pass 5, .turn, .turn, next]

/-- Between two lines that are there at once the signal is fired, or its only trigger is dropped: the
second line is not taken then, whatever moves there are.  Without that the next turn takes it. -/
theorem stops_between_lines :
    let one := Console.line "web" "one"
    let two := Console.line "web" "two"
    (midway .turn).world.lines = [one, two] ∧
      (∀ moves, ((midway .fire).run slowLogs moves).world.lines = [one]) ∧
      ∀ moves, ((midway .drop).run slowLogs moves).world.lines = [one] := by
  intro one two
  have stays {s : Following Memory} (released : s.signal.released = true) (moves : List (Move Memory)) :
      (s.run slowLogs moves).world.lines = s.world.lines := by
    have past := (((retries_until_released slowLogs).1 s moves).1 released).1
    rw [World.lines, World.lines, World.occurrences, World.occurrences, past]
  refine ⟨by decide +kernel, fun moves => ?_, fun moves => ?_⟩
  · rw [stays (by decide +kernel) moves]
    decide +kernel
  · rw [stays (by decide +kernel) moves]
    decide +kernel

end Follower

end DevMode
