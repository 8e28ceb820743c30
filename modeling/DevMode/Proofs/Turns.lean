/-
# DevMode.Proofs.Turns -- a follower among others

A follower of a log takes turns, and between two of them anything may happen: time passes, the
signal is fired or one of its triggers is dropped, the platform goes on.  `Following` is a follower
with all of that around it, a `Move` is what comes next, and any list of moves is a schedule.

* `Follower.turn_cases` is what a turn can come to while the signal is not released.
* `Following.run_of_released` says that from the release on nothing is asked and nothing is read,
  whatever moves there are: the next turn is the last one.
* `Following.run_ne_over` says that nothing else ends a follower.
* `Following.exists_end` says that between two calls there is a turn at which a fetch or a stream ends,
  and that the retry time lies behind that.
* `Follower.stepUntil_turns` says that a follower on its own schedule takes turns too.
-/
import DevMode.Log.Follower
import DevMode.Proofs.Trace

namespace DevMode

set_option autoImplicit false

variable {σ : Type}

/-! ## One turn -/

/-- Whether a follower waits for an answer or reads a stream. -/
def FollowerPhase.isBusy : FollowerPhase → Bool
  | .fetching .. | .reading _ => true
  | .idle _ | .over => false

namespace Follower

variable (platform : Platform σ)

/-- Once the signal is released, a turn ends the follower and does nothing else. -/
theorem turn_of_released {signal : Cancellation} (released : signal.released = true) (f : Follower)
    (w : World σ) : f.turn platform signal w = ({ f with phase := .over }, w) := by
  unfold turn
  rw [released]
  rfl

/-- What a turn can come to while the signal is not released: the follower waits or is over, it asks
for the log, it goes on with what it is at, or that has come to an end. -/
inductive Turned (f : Follower) (w : World σ) : FollowerPhase → World σ → Prop
  | waits (early : ∀ due, f.phase = .idle due → w.now < due) : Turned f w f.phase w
  | asks {due : Nat} (idle : f.phase = .idle due) (late : due ≤ w.now) :
      Turned f w (.fetching (platform.answer f.call w.state).1
        (w.now + platform.takes f.call w.state)) (w.answered platform f.call)
  | goesOn (ls : List Line) {phase : FollowerPhase} {w' : World σ} (busy : f.phase.isBusy = true)
      (still : phase.isBusy = true) (shows : World.Leaves (ls.map .shown) w w') : Turned f w phase w'
  | ends (ls : List Line) {w' : World σ} (busy : f.phase.isBusy = true)
      (shows : World.Leaves (ls.map .shown) w w') : Turned f w (.idle (w.now + f.retry)) w'

theorem take_apply (f : Follower) (tail : Tail) (w : World σ) :
    f.take tail w =
      match tail.next (Scanner.upTo lineLimit) w.now with
      | (.line bytes, tail') => ({ f with phase := .reading tail' },
          (Act.displayAll (LogEntry.show? f.interest (lineText bytes)).toList w).2)
      | (.starved, tail') => ({ f with phase := .reading tail' }, w)
      | (.overlong, _) => ({ f with phase := .idle (w.now + f.retry) },
          (Act.display (LogEntry.scanFailure lineLimit) w).2)
      | (.stop, _) => ({ f with phase := .idle (w.now + f.retry) }, w) := by
  rw [take, Act.bind_apply, Act.get_apply]
  dsimp only
  rcases tail.next (Scanner.upTo lineLimit) w.now with ⟨bytes | _ | _ | _, tail'⟩ <;> rfl

section Going

variable {signal : Cancellation} (going : signal.released = false)
include going

theorem turn_of_going (f : Follower) (w : World σ) :
    f.turn platform signal w =
      match f.phase with
      | .idle due => if w.now < due then (f, w) else f.fetch platform w
      | .fetching answer arrival => if w.now < arrival then (f, w) else f.receive answer arrival w
      | .reading tail => f.take tail w
      | .over => (f, w) := by
  unfold turn
  rw [going]
  obtain ⟨app, interest, retry, due | ⟨answer, arrival⟩ | tail | _⟩ := f
  · change (ite (w.now < due) _ _ : Act σ Follower) w = _
    dsimp only
    split <;> rfl
  · change (ite (w.now < arrival) _ _ : Act σ Follower) w = _
    dsimp only
    split <;> rfl
  · rfl
  · rfl

/-- **What a turn can come to.** -/
theorem turn_cases (f : Follower) (w : World σ) :
    ∃ phase w', f.turn platform signal w = ({ f with phase := phase }, w') ∧
      f.Turned platform w phase w' := by
  rw [turn_of_going platform going]
  obtain ⟨app, interest, retry, due | ⟨answer, arrival⟩ | tail | _⟩ := f <;> dsimp only
  · by_cases early : w.now < due
    · rw [if_pos early]
      exact ⟨_, _, rfl, .waits fun due' idle => FollowerPhase.idle.inj idle ▸ early⟩
    · rw [if_neg early]
      exact ⟨_, _, rfl, .asks rfl (Nat.le_of_not_lt early)⟩
  · by_cases early : w.now < arrival
    · rw [if_pos early]
      exact ⟨_, _, rfl, .waits fun due' idle => nomatch idle⟩
    · rw [if_neg early]
      cases answer with
      | ok stream => exact ⟨_, _, rfl, .goesOn [] rfl rfl (.refl w)⟩
      | error e => exact ⟨_, _, rfl, .ends [] rfl (.refl w)⟩
  · rw [take_apply]
    rcases tail.next (Scanner.upTo lineLimit) w.now with ⟨bytes | _ | _ | _, tail'⟩
    · exact ⟨_, _, rfl, .goesOn _ rfl rfl (Act.leaves_displayAll _ w)⟩
    · exact ⟨_, _, rfl, .ends [_] rfl (Act.leaves_displayAll [_] w)⟩
    · exact ⟨_, _, rfl, .ends [] rfl (.refl w)⟩
    · exact ⟨_, _, rfl, .goesOn [] rfl rfl (.refl w)⟩
  · exact ⟨_, _, rfl, .waits fun due idle => nomatch idle⟩

end Going

/-- What happens in a turn happens at once. -/
theorem exists_leaves_turn (signal : Cancellation) (f : Follower) (w : World σ) :
    ∃ os, World.Leaves os w (f.turn platform signal w).2 := by
  cases released : signal.released with
  | true =>
      rw [turn_of_released platform released]
      exact ⟨[], .refl w⟩
  | false =>
      obtain ⟨phase, w', came, turned⟩ := turn_cases platform released f w
      rw [came]
      cases turned with
      | waits => exact ⟨[], .refl w⟩
      | asks => exact ⟨_, World.leaves_answered w platform _⟩
      | goesOn _ _ _ shows | ends _ _ shows => exact ⟨_, shows⟩

end Follower

/-! ## Schedules -/

/-- A follower, the signal it looks at, and the world. -/
structure Following (σ : Type) where
  follower : Follower
  signal : Cancellation
  world : World σ

/-- What comes next: some time passes, the follower takes a turn, the signal is fired or a trigger of
it is dropped, or the platform gets into another state. -/
inductive Move (σ : Type) where
  | pass (time : Nat)
  | turn
  | fire
  | drop
  | serve (state : σ)

namespace Following

variable (platform : Platform σ)

def step (s : Following σ) : Move σ → Following σ
  | .pass time => { s with world := { s.world with now := s.world.now + time } }
  | .turn =>
    let out := s.follower.turn platform s.signal s.world
    ⟨out.1, s.signal, out.2⟩
  | .fire => { s with signal := s.signal.fire?.getD s.signal }
  | .drop => { s with signal := s.signal.dropTrigger }
  | .serve state => { s with world := { s.world with state := state } }

/-- A schedule. -/
def run (s : Following σ) (moves : List (Move σ)) : Following σ := moves.foldl (step platform) s

@[simp] theorem run_nil (s : Following σ) : s.run platform [] = s := rfl

@[simp] theorem run_cons (s : Following σ) (m : Move σ) (moves : List (Move σ)) :
    s.run platform (m :: moves) = (s.step platform m).run platform moves := rfl

/-- What is over stays over. -/
theorem released_step {s : Following σ} (released : s.signal.released = true) (m : Move σ) :
    (s.step platform m).signal.released = true := by
  cases m with
  | pass | turn | serve => exact released
  | fire =>
      show (s.signal.fire?.getD s.signal).released = true
      unfold Cancellation.fire?
      split
      · exact released
      · rfl
  | drop =>
      have gone : s.signal.triggers = 0 → s.signal.triggers - 1 = 0 := by omega
      simp only [Cancellation.released, Bool.or_eq_true, decide_eq_true_eq] at released
      show (s.signal.fired || decide (s.signal.triggers - 1 = 0)) = true
      rw [Bool.or_eq_true, decide_eq_true_eq]
      exact released.imp_right gone

/-- **From the release on nothing is asked and nothing is read.**  The next turn is the last one, and
up to that the follower is as it was. -/
theorem run_of_released {s : Following σ} (released : s.signal.released = true)
    (moves : List (Move σ)) :
    (s.run platform moves).world.past = s.world.past ∧
      ((s.run platform moves).follower = s.follower ∨
        (s.run platform moves).follower = { s.follower with phase := .over }) := by
  induction moves generalizing s with
  | nil => exact ⟨rfl, .inl rfl⟩
  | cons m moves ih =>
      obtain ⟨past, same⟩ := ih (released_step platform released m)
      have here : (s.step platform m).world.past = s.world.past ∧
          ((s.step platform m).follower = s.follower ∨
            (s.step platform m).follower = { s.follower with phase := .over }) := by
        cases m with
        | pass | fire | drop | serve => exact ⟨rfl, .inl rfl⟩
        | turn =>
            rw [step, Follower.turn_of_released platform released]
            exact ⟨rfl, .inr rfl⟩
      refine ⟨past.trans here.1, ?_⟩
      rcases same with same | same <;> rcases here.2 with before | before <;>
        simp [same, before]

/-- What is released at the end of a schedule may not have been before, but not the other way round. -/
theorem released_run {s : Following σ} (released : s.signal.released = true) (moves : List (Move σ)) :
    (s.run platform moves).signal.released = true := by
  induction moves generalizing s with
  | nil => exact released
  | cons m moves ih => exact ih (released_step platform released m)

/-- **Nothing but the release of the signal ends a follower.** -/
theorem run_ne_over {s : Following σ} (moves : List (Move σ))
    (going : (s.run platform moves).signal.released = false) (on : s.follower.phase ≠ .over) :
    (s.run platform moves).follower.phase ≠ .over := by
  induction moves generalizing s with
  | nil => exact on
  | cons m moves ih =>
      refine ih going ?_
      cases m with
      | pass | fire | drop | serve => exact on
      | turn =>
          have unreleased : s.signal.released = false :=
            Bool.eq_false_iff.2 fun released => by
              rw [released_run platform released] at going
              cases going
          obtain ⟨phase, w', came, turned⟩ :=
            Follower.turn_cases platform unreleased s.follower s.world
          rw [step, came]
          cases turned with
          | waits => exact on
          | asks | ends => exact nofun
          | goesOn _ _ still =>
              rintro rfl
              cases still

/-! ### Calls -/

/-- All that is asked in addition is asked at a time or later. -/
def AsksFrom (time : Nat) (s s' : Following σ) : Prop :=
  ∃ added, s'.world.asked = s.world.asked ++ added ∧ ∀ o ∈ added, time ≤ o.1

section AsksFrom

variable {time : Nat} {s s' s'' : Following σ}

theorem asksFrom_of_asked (same : s'.world.asked = s.world.asked) : AsksFrom time s s' :=
  ⟨[], by rw [same, List.append_nil], List.forall_mem_nil _⟩

theorem AsksFrom.trans (first : AsksFrom time s s') (later : AsksFrom time s' s'') :
    AsksFrom time s s'' := by
  obtain ⟨added, asked, late⟩ := first
  obtain ⟨more, asked', late'⟩ := later
  exact ⟨added ++ more, by rw [asked', asked, List.append_assoc],
    List.forall_mem_append.2 ⟨late, late'⟩⟩

end AsksFrom

/-- A follower does not ask before a time: it has come, or the follower waits until then or longer. -/
def Rested (time : Nat) (s : Following σ) : Prop :=
  time ≤ s.world.now ∨ (∃ due, s.follower.phase = .idle due ∧ time ≤ due) ∨ s.follower.phase = .over

theorem rested_step {time : Nat} {s : Following σ} (rested : s.Rested time) (m : Move σ) :
    (s.step platform m).Rested time ∧ AsksFrom time s (s.step platform m) := by
  cases m with
  | pass | fire | drop | serve =>
      refine ⟨rested.imp_left fun come => ?_, asksFrom_of_asked rfl⟩
      simp only [step]
      omega
  | turn =>
      cases released : s.signal.released with
      | true =>
          rw [step, Follower.turn_of_released platform released]
          exact ⟨.inr (.inr rfl), asksFrom_of_asked rfl⟩
      | false =>
          obtain ⟨phase, w', came, turned⟩ := Follower.turn_cases platform released s.follower s.world
          have come (busy : s.follower.phase.isBusy = true) : time ≤ s.world.now := by
            rcases rested with come | ⟨due, idle, -⟩ | finished
            · exact come
            · rw [idle] at busy
              cases busy
            · rw [finished] at busy
              cases busy
          rw [step, came]
          cases turned with
          | waits => exact ⟨rested, asksFrom_of_asked rfl⟩
          | @asks due idle late =>
              have come : time ≤ s.world.now := by
                rcases rested with come | ⟨due', idle', later⟩ | finished
                · exact come
                · obtain rfl := FollowerPhase.idle.inj (idle'.symm.trans idle)
                  exact Nat.le_trans later late
                · cases finished.symm.trans idle
              refine ⟨.inl come, [_], World.asked_answered s.world platform _, fun o member => ?_⟩
              obtain rfl := List.mem_singleton.1 member
              exact come
          | goesOn _ busy _ shows | ends _ busy shows =>
              exact ⟨.inl (shows.now ▸ come busy), asksFrom_of_asked shows.asked_eq⟩

theorem rested_run {time : Nat} {s : Following σ} (rested : s.Rested time) (moves : List (Move σ)) :
    AsksFrom time s (s.run platform moves) := by
  induction moves generalizing s with
  | nil => exact asksFrom_of_asked rfl
  | cons m moves ih =>
      obtain ⟨still, here⟩ := rested_step platform rested m
      exact here.trans (ih still)

/-- At its next turn a fetch or a stream is over. -/
structure Ends (s : Following σ) : Prop where
  busy : s.follower.phase.isBusy = true
  rests : (s.step platform .turn).follower = { s.follower with phase := .idle (s.world.now + s.follower.retry) }

/-- **Between two calls an answer comes to its end**, and the retry time passes.  A follower that is
busy with an answer asks no more, whatever moves there are, up to a turn at which that is over, and
then not before the retry time has passed since. -/
theorem exists_end {s : Following σ} (busy : s.follower.phase.isBusy = true) (moves : List (Move σ)) :
    (s.run platform moves).world.asked = s.world.asked ∨
      ∃ before after, moves = before ++ .turn :: after ∧ (s.run platform before).Ends platform ∧
        (s.run platform before).world.asked = s.world.asked ∧
        AsksFrom ((s.run platform before).world.now + s.follower.retry) s (s.run platform moves) := by
  induction moves generalizing s with
  | nil => exact .inl rfl
  | cons m moves ih =>
      -- Where a move leaves the follower busy and asks nothing, it goes in front.
      have behind (still : (s.step platform m).follower.phase.isBusy = true)
          (retry : (s.step platform m).follower.retry = s.follower.retry)
          (asked : (s.step platform m).world.asked = s.world.asked) :
          (s.run platform (m :: moves)).world.asked = s.world.asked ∨
            ∃ before after, m :: moves = before ++ .turn :: after ∧
              (s.run platform before).Ends platform ∧
              (s.run platform before).world.asked = s.world.asked ∧
              AsksFrom ((s.run platform before).world.now + s.follower.retry) s
                (s.run platform (m :: moves)) := by
        rcases ih still with same | ⟨before, after, rfl, ends, none_asked, late⟩
        · exact .inl (same.trans asked)
        · refine .inr ⟨m :: before, after, rfl, ends, none_asked.trans asked, ?_⟩
          rw [retry] at late
          exact (asksFrom_of_asked asked).trans late
      cases m with
      | pass | fire | drop | serve => exact behind busy rfl rfl
      | turn =>
          cases released : s.signal.released with
          | true => exact .inl (World.asked_of_past (run_of_released platform released _).1)
          | false =>
              obtain ⟨phase, w', came, turned⟩ :=
                Follower.turn_cases platform released s.follower s.world
              have stepped : s.step platform .turn =
                  ⟨{ s.follower with phase := phase }, s.signal, w'⟩ := by
                rw [step, came]
              rw [stepped] at behind
              cases turned with
              | waits => exact behind busy rfl rfl
              | asks idle =>
                  rw [idle] at busy
                  cases busy
              | goesOn _ _ still shows => exact behind still rfl shows.asked_eq
              | ends _ _ shows =>
                  refine .inr ⟨[], moves, rfl, ⟨busy, by rw [run_nil, stepped]⟩, rfl, ?_⟩
                  have rested : (s.step platform .turn).Rested (s.world.now + s.follower.retry) := by
                    rw [stepped]
                    exact .inr (.inl ⟨_, rfl, Nat.le_refl _⟩)
                  have quiet : (s.step platform .turn).world.asked = s.world.asked := by
                    rw [stepped]
                    exact shows.asked_eq
                  exact (asksFrom_of_asked quiet).trans (rested_run platform rested moves)

/-- A follower that has waited asks at its next turn. -/
theorem turn_asks {s : Following σ} (going : s.signal.released = false) {due : Nat}
    (idle : s.follower.phase = .idle due) (late : due ≤ s.world.now) :
    (s.step platform .turn).world = s.world.answered platform s.follower.call ∧
      (s.step platform .turn).follower.phase.isBusy = true := by
  rw [step, Follower.turn_of_going platform going, idle]
  dsimp only
  rw [if_neg (Nat.not_lt.2 late)]
  exact ⟨rfl, rfl⟩

end Following

namespace Follower

/-! ## The schedule of a follower by itself -/

variable (platform : Platform σ) (i : Interruption)

section Equations

variable {platform i} {f next : Follower} {w w' : World σ}
  (came : f.turn platform (i.signal w.now) w = (next, w'))
include came

/-- After a turn that brings it closer to its next wait, a follower goes on. -/
theorem stepUntil_of_closer (closer : next.phase.Closer f.phase) :
    f.stepUntil platform i w = next.stepUntil platform i w' := by
  rw [stepUntil, came]
  dsimp only
  rw [dif_pos closer]

/-- After any other it waits. -/
theorem stepUntil_of_farther (farther : ¬ next.phase.Closer f.phase) :
    f.stepUntil platform i w = (next, w') := by
  rw [stepUntil, came]
  dsimp only
  rw [dif_neg farther]

end Equations

/-- **What a follower does at one time is some turns.** -/
theorem stepUntil_turns (f : Follower) (w : World σ) :
    ∃ n, (⟨f, i.signal w.now, w⟩ : Following σ).run platform (.replicate n .turn) =
      ⟨(f.stepUntil platform i w).1, i.signal w.now, (f.stepUntil platform i w).2⟩ := by
  induction f, w using stepUntil.induct platform i with
  | case1 f w next w' came closer ih =>
      obtain ⟨n, turns⟩ := ih
      obtain ⟨os, leaves⟩ := exists_leaves_turn platform (i.signal w.now) f w
      rw [came] at leaves
      rw [leaves.now] at turns
      refine ⟨n + 1, ?_⟩
      rw [List.replicate_succ, Following.run_cons, Following.step, came, turns,
        stepUntil_of_closer came closer]
  | case2 f w next w' came farther =>
      refine ⟨1, ?_⟩
      rw [List.replicate_one, Following.run_cons, Following.step, came, Following.run_nil,
        stepUntil_of_farther came farther]

end Follower

end DevMode
