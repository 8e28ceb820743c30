/-
# DevMode.Proofs.Flushes -- every change is flushed once or thrown away at the end

What the loop does is a list of turns: it receives a change, or it handles a tick.  The turns alone
tell what is flushed: ticks cut the changes into segments, and each flush has the partition of its
own (`hands_segments`, `received_eq`).  This is so for any list of turns.

A run of the loop goes through turns until the stop or the end of the changes (`exists_passes`).
Whatever has arrived is received before a tick is handled, and no tick is handled before the first
is due (`Passes.tick`).

* `runLoop_cuts` puts both together.
-/
import DevMode.BatchLoop
import Mathlib.Data.List.Forall2

namespace DevMode.BatchLoop

set_option autoImplicit false

/-! ## Turns -/

/-- What the loop does when it does not end. -/
inductive Turn where
  | received (change : Change)
  | ticked (time : Nat)

/-- The changes that are received in some turns. -/
def received : List Turn → List Change
  | [] => []
  | .received c :: rest => c :: received rest
  | .ticked _ :: rest => received rest

/-- What is gathered behind some turns. -/
def gathered (batch : List Change) : List Turn → List Change
  | [] => batch
  | .received c :: rest => gathered (batch ++ [c]) rest
  | .ticked _ :: rest => gathered [] rest

/-- What ticks cut off, as far as it is not empty. -/
def segments (batch : List Change) : List Turn → List (List Change)
  | [] => []
  | .received c :: rest => segments (batch ++ [c]) rest
  | .ticked _ :: rest => (if batch = [] then [] else [batch]) ++ segments [] rest

/-- What is handed on at ticks. -/
def flushes (batch : List Change) : List Turn → List Flush
  | [] => []
  | .received c :: rest => flushes (batch ++ [c]) rest
  | .ticked time :: rest => (flush? time ⟨batch⟩).toList ++ flushes [] rest

/-- A flush hands on a segment. -/
def Hands (flush : Flush) (segment : List Change) : Prop :=
  segment ≠ [] ∧ (flush.adds, flush.removes) = Change.partition segment

@[simp] theorem received_append (turns more : List Turn) :
    received (turns ++ more) = received turns ++ received more := by
  induction turns with
  | nil => rfl
  | cons turn turns ih => cases turn <;> simp [received, ih]

theorem gathered_append (batch : List Change) (turns more : List Turn) :
    gathered batch (turns ++ more) = gathered (gathered batch turns) more := by
  induction turns generalizing batch with
  | nil => rfl
  | cons turn turns ih =>
      cases turn with
      | received c => exact ih (batch ++ [c])
      | ticked time => exact ih []

theorem segments_append (batch : List Change) (turns more : List Turn) :
    segments batch (turns ++ more) =
      segments batch turns ++ segments (gathered batch turns) more := by
  induction turns generalizing batch with
  | nil => rfl
  | cons turn turns ih =>
      cases turn with
      | received c => exact ih (batch ++ [c])
      | ticked time =>
          simp only [List.cons_append, segments, gathered, ih, List.append_assoc]

theorem flushes_append (batch : List Change) (turns more : List Turn) :
    flushes batch (turns ++ more) = flushes batch turns ++ flushes (gathered batch turns) more := by
  induction turns generalizing batch with
  | nil => rfl
  | cons turn turns ih =>
      cases turn with
      | received c => exact ih (batch ++ [c])
      | ticked time =>
          simp only [List.cons_append, flushes, gathered, ih, List.append_assoc]

/-- **The segments and what is gathered last are all changes in order.** -/
theorem received_eq (batch : List Change) (turns : List Turn) :
    batch ++ received turns = (segments batch turns).flatten ++ gathered batch turns := by
  induction turns generalizing batch with
  | nil => simp [received, segments, gathered]
  | cons turn turns ih =>
      cases turn with
      | received c =>
          simp only [received, segments, gathered, ← ih (batch ++ [c]), List.append_assoc,
            List.singleton_append]
      | ticked time =>
          have rest := ih []
          rw [List.nil_append] at rest
          simp only [received, segments, gathered, List.flatten_append, List.append_assoc, ← rest]
          split <;> simp_all

theorem hands_flush? (time : Nat) (batch : List Change) :
    List.Forall₂ Hands (flush? time ⟨batch⟩).toList (if batch = [] then [] else [batch]) := by
  cases batch with
  | nil => exact List.Forall₂.nil
  | cons c batch => exact .cons ⟨List.cons_ne_nil c batch, rfl⟩ .nil

/-- **Each flush has the partition of its own segment.** -/
theorem hands_segments (batch : List Change) (turns : List Turn) :
    List.Forall₂ Hands (flushes batch turns) (segments batch turns) := by
  induction turns generalizing batch with
  | nil => exact List.Forall₂.nil
  | cons turn turns ih =>
      cases turn with
      | received c => exact ih (batch ++ [c])
      | ticked time => exact List.rel_append (hands_flush? time batch) (ih [])

theorem time_of_flush? {time : Nat} {batch : Batch} {flush : Flush}
    (made : flush? time batch = some flush) : flush.time = time := by
  unfold flush? at made
  split at made
  · cases made
  · rw [← Option.some.inj made]

/-- A flush is made at a tick. -/
theorem exists_tick {batch : List Change} {turns : List Turn} {flush : Flush}
    (made : flush ∈ flushes batch turns) : .ticked flush.time ∈ turns := by
  induction turns generalizing batch with
  | nil => cases made
  | cons turn turns ih =>
      cases turn with
      | received c => exact List.mem_cons_of_mem _ (ih made)
      | ticked time =>
          rcases List.mem_append.1 made with now | later
          · rw [time_of_flush? (Option.mem_toList.1 now)]
            exact List.mem_cons_self
          · exact List.mem_cons_of_mem _ (ih later)

theorem take_flushes {before after : List Turn} {time : Nat} :
    (flushes [] (before ++ .ticked time :: after)).take
      (flushes [] (before ++ [.ticked time])).length = flushes [] (before ++ [.ticked time]) := by
  have cut : before ++ .ticked time :: after = (before ++ [.ticked time]) ++ after := by simp
  have front := flushes_append [] (before ++ [Turn.ticked time]) after
  rw [cut, front, List.take_left]

/-- **What is received before a tick is flushed at it or before.** -/
theorem received_before_tick {before after : List Turn} {time : Nat} :
    received before = ((segments [] (before ++ .ticked time :: after)).take
      (flushes [] (before ++ [.ticked time])).length).flatten := by
  have none_left : gathered [] (before ++ [.ticked time]) = [] := by
    rw [gathered_append]
    rfl
  have all := received_eq [] (before ++ [.ticked time])
  rw [none_left, List.append_nil, List.nil_append, received_append] at all
  have cut : before ++ .ticked time :: after = (before ++ [.ticked time]) ++ after := by simp
  rw [cut, segments_append, (hands_segments [] _).length_eq, List.take_left, ← all]
  exact (List.append_nil _).symm

/-! ## The loop -/

/-- What the loop knows: the time, the next tick, what is gathered, and what is still to arrive. -/
structure State where
  now : Nat
  ticker : Ticker
  batch : Batch
  arrivals : List Arrival

/-- The time of the next thing to do. -/
def State.next (stop : Nat) (s : State) : Nat := max s.now (due stop s.ticker s.arrivals)

def start (interval : Nat) (arrivals : List Arrival) : State :=
  ⟨0, Ticker.startingAt interval interval, .empty, arrivals⟩

/-- One turn of the loop.  What has arrived is received first. -/
inductive Step (stop : Nat) (busy : Flush → Nat) : State → Turn → State → Prop where
  | receive {s : State} {a : Arrival} {c : Change} {rest : List Arrival}
      (goes : s.next stop < stop) (front : s.arrivals = a :: rest) (here : a.time ≤ s.next stop)
      (news : a.change = some c) :
      Step stop busy s (.received c) ⟨s.next stop, s.ticker, s.batch.push c, rest⟩
  | tick {s : State} (goes : s.next stop < stop)
      (quiet : ∀ a ∈ s.arrivals.head?, s.next stop < a.time) :
      Step stop busy s (.ticked (s.next stop))
        ⟨s.next stop + ((flush? (s.next stop) s.batch).map busy).getD 0,
          s.ticker.tick (s.next stop), .empty, s.arrivals⟩

/-- The loop ends: it is stopped, or there will be no more changes. -/
inductive Ends (stop : Nat) : State → Prop where
  | stopped {s : State} (stops : stop ≤ s.next stop) : Ends stop s
  | closed {s : State} {a : Arrival} {rest : List Arrival} (front : s.arrivals = a :: rest)
      (here : a.time ≤ s.next stop) (news : a.change = none) : Ends stop s

/-- The loop goes through turns. -/
inductive Passes (stop : Nat) (busy : Flush → Nat) : State → List Turn → State → Prop where
  | here (s : State) : Passes stop busy s [] s
  | turn {s next last : State} {turn : Turn} {turns : List Turn} (went : Step stop busy s turn next)
      (later : Passes stop busy next turns last) : Passes stop busy s (turn :: turns) last

variable {stop : Nat} {busy : Flush → Nat} {s t : State}

theorem arrived?_eq_some {now : Nat} {arrivals rest : List Arrival} {a : Arrival}
    (found : arrived? now arrivals = some (a, rest)) : arrivals = a :: rest ∧ a.time ≤ now := by
  cases arrivals with
  | nil => cases found
  | cons b bs =>
      simp only [arrived?] at found
      split at found
      · rename_i here
        obtain ⟨rfl, rfl⟩ := Prod.mk.inj (Option.some.inj found)
        exact ⟨rfl, here⟩
      · cases found

theorem arrived?_eq_none {now : Nat} {arrivals : List Arrival}
    (none_here : arrived? now arrivals = none) :
    ∀ a ∈ arrivals.head?, now < a.time := by
  cases arrivals with
  | nil => simp
  | cons b bs =>
      simp only [arrived?] at none_here
      split at none_here
      · cases none_here
      · rename_i later
        simpa using later

section Run

variable {now : Nat} {ticker : Ticker} {batch : Batch} {arrivals : List Arrival}

theorem run_stopped (stops : stop ≤ max now (due stop ticker arrivals)) :
    run stop busy now ticker batch arrivals =
      ⟨[], max now (due stop ticker arrivals), batch.changes⟩ := by
  rw [run, dif_pos stops]

theorem run_received (goes : ¬ stop ≤ max now (due stop ticker arrivals)) {a : Arrival} {c : Change}
    {rest : List Arrival} (news : a.change = some c)
    (found : arrived? (max now (due stop ticker arrivals)) arrivals = some (a, rest)) :
    run stop busy now ticker batch arrivals =
      run stop busy (max now (due stop ticker arrivals)) ticker (batch.push c) rest := by
  obtain ⟨time, _⟩ := a
  subst news
  rw [run, dif_neg goes]
  split
  · rename_i again
    simp only [found, Option.some.injEq, Prod.mk.injEq, Arrival.mk.injEq] at again
    obtain ⟨⟨-, rfl⟩, rfl⟩ := again
    rfl
  · simp_all
  · simp_all

theorem run_closed (goes : ¬ stop ≤ max now (due stop ticker arrivals)) {a : Arrival}
    {rest : List Arrival} (news : a.change = none)
    (found : arrived? (max now (due stop ticker arrivals)) arrivals = some (a, rest)) :
    run stop busy now ticker batch arrivals =
      ⟨[], max now (due stop ticker arrivals), batch.changes⟩ := by
  obtain ⟨time, _⟩ := a
  subst news
  rw [run, dif_neg goes]
  split
  · simp_all
  · rfl
  · simp_all

theorem run_ticked (goes : ¬ stop ≤ max now (due stop ticker arrivals))
    (none_here : arrived? (max now (due stop ticker arrivals)) arrivals = none) :
    run stop busy now ticker batch arrivals =
      let flush := flush? (max now (due stop ticker arrivals)) batch
      let later := run stop busy (max now (due stop ticker arrivals) + (flush.map busy).getD 0)
        (ticker.tick (max now (due stop ticker arrivals))) .empty arrivals
      { later with flushes := flush.toList ++ later.flushes } := by
  rw [run, dif_neg goes]
  split
  · simp_all
  · simp_all
  · rfl

end Run

/-- **A run goes through turns until the loop ends**, and what it comes to is told by them. -/
theorem exists_passes (stop : Nat) (busy : Flush → Nat) (s : State) :
    ∃ turns last, Passes stop busy s turns last ∧ Ends stop last ∧
      run stop busy s.now s.ticker s.batch s.arrivals =
        ⟨flushes s.batch.changes turns, last.next stop, gathered s.batch.changes turns⟩ := by
  obtain ⟨now, ticker, batch, arrivals⟩ := s
  induction now, ticker, batch, arrivals using run.induct stop busy with
  | case1 now ticker batch arrivals next stops =>
      exact ⟨[], _, .here _, .stopped stops, run_stopped stops⟩
  | case2 now ticker batch arrivals next goes time c rest found ih =>
      obtain ⟨turns, last, passes, ends, same⟩ := ih
      obtain ⟨front, here⟩ := arrived?_eq_some found
      exact ⟨.received c :: turns, last, .turn (.receive (Nat.not_le.1 goes) front here rfl) passes,
        ends, (run_received goes rfl found).trans same⟩
  | case3 now ticker batch arrivals next goes time rest found =>
      obtain ⟨front, here⟩ := arrived?_eq_some found
      exact ⟨[], _, .here _, .closed front here rfl, run_closed goes rfl found⟩
  | case4 now ticker batch arrivals next goes none_here flush ih =>
      obtain ⟨turns, last, passes, ends, same⟩ := ih
      refine ⟨.ticked next :: turns, last,
        .turn (.tick (Nat.not_le.1 goes) (arrived?_eq_none none_here)) passes, ends, ?_⟩
      rw [run_ticked goes none_here]
      exact congrArg
        (fun later : BatchRun => { later with flushes := flush.toList ++ later.flushes }) same

/-! ## What has arrived by a tick -/

theorem Passes.split {before after : List Turn} (passes : Passes stop busy s (before ++ after) t) :
    ∃ mid, Passes stop busy s before mid ∧ Passes stop busy mid after t := by
  induction before generalizing s with
  | nil => exact ⟨s, .here s, passes⟩
  | cons turn before ih =>
      cases passes with
      | turn went later =>
          obtain ⟨mid, first, second⟩ := ih later
          exact ⟨mid, .turn went first, second⟩

/-- What the loop has received are the first arrivals, the ticks that it handled are past, and the
next is not due before the first interval is. -/
structure Along (interval : Nat) (arrivals : List Arrival) (turns : List Turn) (s : State) :
    Prop where
  taken : ∃ first, arrivals = first ++ s.arrivals ∧
    first.map Arrival.change = (received turns).map some ∧ ∀ a ∈ first, a.time ≤ s.now
  past : ∀ time, .ticked time ∈ turns → time ≤ s.now
  due : interval ≤ s.ticker.deadline

variable {interval : Nat} {arrivals : List Arrival} {turns : List Turn}

theorem along_start (interval : Nat) (arrivals : List Arrival) :
    Along interval arrivals [] (start interval arrivals) where
  taken := ⟨[], rfl, rfl, by simp⟩
  past := by simp
  due := Nat.le_refl interval

theorem State.now_le_next (stop : Nat) (s : State) : s.now ≤ s.next stop := Nat.le_max_left _ _

/-- **Every turn of the loop keeps to the order of arrivals.** -/
theorem Along.step (along : Along interval arrivals turns s) {turn : Turn}
    (went : Step stop busy s turn t) : Along interval arrivals (turns ++ [turn]) t := by
  obtain ⟨first, text, changes, early⟩ := along.taken
  have later := s.now_le_next stop
  cases went with
  | @receive a c rest goes front here news =>
      refine ⟨⟨first ++ [a], ?_, ?_, ?_⟩, ?_, along.due⟩
      · rw [text, front, List.append_assoc, List.singleton_append]
      · simp [changes, news, received]
      · intro b member
        rcases List.mem_append.1 member with before | now
        · exact Nat.le_trans (early b before) later
        · rw [List.mem_singleton.1 now]
          exact here
      · intro time member
        rcases List.mem_append.1 member with before | now
        · exact Nat.le_trans (along.past time before) later
        · cases List.mem_singleton.1 now
  | tick goes quiet =>
      refine ⟨⟨first, text, ?_, ?_⟩, ?_, ?_⟩
      · simp [changes, received]
      · intro b member
        have := early b member
        dsimp only
        omega
      · intro time member
        have handled : time ≤ s.next stop := by
          rcases List.mem_append.1 member with before | now
          · exact Nat.le_trans (along.past time before) later
          · exact Nat.le_of_eq (Turn.ticked.inj (List.mem_singleton.1 now))
        dsimp only
        omega
      · have further := s.ticker.deadline_lt_tick (s.next stop)
        have := along.due
        dsimp only
        omega

theorem Along.passes {more : List Turn} (along : Along interval arrivals turns s)
    (passes : Passes stop busy s more t) : Along interval arrivals (turns ++ more) t := by
  induction passes generalizing turns with
  | here s => rwa [List.append_nil]
  | @turn s next last turn rest went later ih =>
      have onward := ih (along.step went)
      rwa [List.append_assoc, List.singleton_append] at onward

/-- When neither the stop nor an arrival is next, it is the tick. -/
theorem deadline_le_next (goes : s.next stop < stop)
    (quiet : ∀ a ∈ s.arrivals.head?, s.next stop < a.time) : s.ticker.deadline ≤ s.next stop := by
  have reached : due stop s.ticker s.arrivals ≤ s.next stop := Nat.le_max_right _ _
  rcases arriving : s.arrivals with _ | ⟨a, rest⟩
  · rw [arriving] at reached
    simp only [BatchLoop.due] at reached
    omega
  · have after := quiet a (by simp [arriving])
    rw [arriving] at reached
    simp only [BatchLoop.due] at reached
    omega

/-- **Before a tick is handled all that has arrived is received.**  The tick comes after those
before it, after the first interval, and before the stop. -/
theorem Passes.tick {before after : List Turn} {time : Nat}
    (passes : Passes stop busy (start interval arrivals) (before ++ .ticked time :: after) t) :
    (arrivals.takeWhile (·.time ≤ time)).map Arrival.change = (received before).map some ∧
      (∀ earlier, .ticked earlier ∈ before → earlier ≤ time) ∧ interval ≤ time ∧ time < stop := by
  obtain ⟨mid, first, second⟩ := passes.split
  have along := (along_start interval arrivals).passes first
  rw [List.nil_append] at along
  obtain ⟨arrived, text, changes, early⟩ := along.taken
  cases second with
  | turn went later =>
      cases went with
      | tick goes quiet =>
          have here := mid.now_le_next stop
          have due := along.due
          have reached := deadline_le_next goes quiet
          have all_early : ∀ a ∈ arrived, decide (a.time ≤ mid.next stop) = true := by
            intro a member
            have := early a member
            exact decide_eq_true (by omega)
          have none_else : mid.arrivals.takeWhile (·.time ≤ mid.next stop) = [] := by
            rcases arriving : mid.arrivals with _ | ⟨a, rest⟩
            · rfl
            · have late := quiet a (by simp [arriving])
              exact List.takeWhile_cons_of_neg (by simpa using late)
          refine ⟨?_, ?_, by omega, goes⟩
          · rw [text, List.takeWhile_append_of_pos all_early, none_else, List.append_nil, changes]
          · intro earlier member
            have := along.past earlier member
            omega

/-- **Every change is flushed exactly once or thrown away at the end.**  The loop goes through
turns until it ends.  What it receives are the first of the arrivals; they are cut into segments,
none of them empty, each flush has the partition of its own, and what is thrown away stands behind
the last.  When a tick is handled, all that has arrived by then is received and lies in the
segments of flushes made by then.  No flush is made before the first interval has passed, nor
once the loop is stopped or the end of the changes has arrived. -/
theorem runLoop_cuts (interval stop : Nat) (busy : Flush → Nat) (arrivals : List Arrival) :
    ∃ (turns : List Turn) (last : State) (segments : List (List Change)),
      Passes stop busy (start interval arrivals) turns last ∧ Ends stop last ∧
      (Batch.runLoop interval stop busy arrivals).endedAt = last.next stop ∧
      arrivals.map Arrival.change = (received turns).map some ++ last.arrivals.map Arrival.change ∧
      received turns = segments.flatten ++ (Batch.runLoop interval stop busy arrivals).discarded ∧
      List.Forall₂ Hands (Batch.runLoop interval stop busy arrivals).flushes segments ∧
      (∀ before time after, turns = before ++ .ticked time :: after →
        (arrivals.takeWhile (·.time ≤ time)).map Arrival.change = (received before).map some ∧
        ∃ n, received before = (segments.take n).flatten ∧
          ∀ f ∈ (Batch.runLoop interval stop busy arrivals).flushes.take n, f.time ≤ time) ∧
      ∀ f ∈ (Batch.runLoop interval stop busy arrivals).flushes, interval ≤ f.time ∧ f.time < stop ∧
        ∀ a ∈ arrivals.takeWhile (·.time ≤ f.time), a.change ≠ none := by
  obtain ⟨turns, last, passes, ends, run⟩ := exists_passes stop busy (start interval arrivals)
  have whole : Batch.runLoop interval stop busy arrivals =
      ⟨flushes [] turns, last.next stop, gathered [] turns⟩ := run
  rw [whole]
  refine ⟨turns, last, segments [] turns, passes, ends, rfl, ?_, ?_, hands_segments [] turns,
    ?_, ?_⟩
  · have along := (along_start interval arrivals).passes passes
    rw [List.nil_append] at along
    obtain ⟨first, text, changes, -⟩ := along.taken
    rw [text, List.map_append, changes]
  · exact received_eq [] turns
  · rintro before time after rfl
    obtain ⟨arrived, earlier, -, -⟩ := passes.tick
    refine ⟨arrived, _, received_before_tick, fun f made => ?_⟩
    have made : f ∈ (flushes [] (before ++ .ticked time :: after)).take
        (flushes [] (before ++ [.ticked time])).length := made
    rw [take_flushes] at made
    rcases List.mem_append.1 (exists_tick made) with before_it | it
    · exact earlier f.time before_it
    · exact Nat.le_of_eq (Turn.ticked.inj (List.mem_singleton.1 it))
  · intro f made
    obtain ⟨before, after, rfl⟩ := List.append_of_mem (exists_tick made)
    obtain ⟨arrived, -, first_interval, no_stop⟩ := passes.tick
    refine ⟨first_interval, no_stop, fun a here closed => ?_⟩
    have told : a.change ∈ (received before).map some := by
      rw [← arrived]
      exact List.mem_map_of_mem here
    rw [closed] at told
    obtain ⟨c, -, same⟩ := List.mem_map.1 told
    cases same

end DevMode.BatchLoop
