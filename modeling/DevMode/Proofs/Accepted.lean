/-
# DevMode.Proofs.Accepted -- what becomes of the bytes that a pipe accepts

A write says how many bytes it has accepted before they are sent, and a send that fails takes the
unfinished chunk with it.  A `Ledger` keeps account of a writer that goes on after failures: what was
accepted, what came onto the queue, and what was waiting in the unfinished chunk whenever a call
failed.

* `balanced_step`: what was accepted is what came onto the queue, what failing calls took with them, and
  what is still waiting, in this order; and as long as there is a reader, no call fails.
* `finish_covers_iff`: a finish sees to the bytes that are waiting, and to no others.  So everything
  that was accepted is on the queue just if it succeeds and no earlier call failed while bytes were
  waiting.
* `finish_after_loss` is a finish that succeeds although an accepted byte is lost.
-/
import DevMode.Proofs.Stream

namespace DevMode.Pipe

set_option autoImplicit false

/-- A call of the writer, or something that the reader does: the last three. -/
inductive Move where
  | write (data : ByteArray)
  | flush
  | receive
  | receiveAll
  | leave

/-- A pipe with an account of its writer: the bytes that writes said they accepted, the bytes that
came onto the queue, and what was waiting to be sent whenever a call failed. -/
structure Ledger where
  pipe : Pipe
  accepted : ByteArray
  enqueued : ByteArray
  failures : List ByteArray

/-- The data among the things on a queue. -/
def dataOf (queue : List (Except StreamFault ByteArray)) : ByteArray :=
  joined (queue.filterMap Except.toOption)

/-- The data that has come onto the queue from one state of a pipe to another. -/
def arrived (p q : Pipe) : ByteArray := dataOf (q.queue.drop p.queue.length)

variable {p q : Pipe}

@[simp] theorem dataOf_data (chunks : List ByteArray) : dataOf (chunks.map .ok) = joined chunks := by
  simp [dataOf, List.filterMap_map, Function.comp_def, Except.toOption]

theorem arrived_of_same (same : q.queue = p.queue) : arrived p q = ByteArray.empty := by
  simp [arrived, same, dataOf]

theorem arrived_append {chunks : List ByteArray} (longer : q.queue = p.queue ++ chunks.map .ok) :
    arrived p q = joined chunks := by
  rw [arrived, longer, List.drop_left, dataOf_data]

theorem joined_eq_empty_iff {chunks : List ByteArray} :
    joined chunks = ByteArray.empty ↔ ∀ c ∈ chunks, c = ByteArray.empty := by
  induction chunks with
  | nil => simp
  | cons c cs ih =>
      rw [joined_cons, List.forall_mem_cons, ← ih]
      simp only [← ByteArray.size_eq_zero_iff, ByteArray.size_append]
      omega

theorem eq_append_iff {xs ys : ByteArray} : xs ++ ys = xs ↔ ys = ByteArray.empty := by
  constructor
  · intro same
    have sizes := congrArg ByteArray.size same
    rw [ByteArray.size_append] at sizes
    exact ByteArray.size_eq_zero_iff.1 (by omega)
  · rintro rfl
    simp

/-! ## Calls without a reader -/

theorem isEmpty_iff {bytes : ByteArray} : bytes.isEmpty = true ↔ bytes = ByteArray.empty := by
  simp [ByteArray.isEmpty, ByteArray.size_eq_zero_iff]

/-- A write that nobody reads keeps what it accepts, or fails and takes all that was waiting. -/
theorem write_unread (closed : p.hasReader = false) {data : ByteArray} {r : Except WriteFault Nat}
    (wrote : p.write data = some (r, q)) :
    (r = .ok (p.accepted data.size) ∧
        q = { p with buffer := p.buffer ++ data.extract 0 (p.accepted data.size) }) ∨
      (r = .error .readerClosed ∧ q = { p with buffer := ByteArray.empty }) := by
  simp only [write] at wrote
  split at wrote
  case isTrue small =>
    simp only [Option.some.injEq, Prod.mk.injEq] at wrote
    exact .inl ⟨wrote.1.symm, wrote.2.symm⟩
  case isFalse full =>
    obtain ⟨⟨r', q'⟩, sent, told⟩ := Option.map_eq_some_iff.1 wrote
    obtain ⟨rfl, rfl⟩ := Prod.mk.inj told
    obtain ⟨rfl, rfl⟩ := send_closed (by exact closed) sent
    exact .inr ⟨rfl, rfl⟩

/-- A flush that nobody reads fails just if something was waiting. -/
theorem flush_unread (closed : p.hasReader = false) {r : Except WriteFault Unit}
    (flushed : p.flush = some (r, q)) :
    q = { p with buffer := ByteArray.empty } ∧
      (r = .ok () ∧ p.buffer = ByteArray.empty ∨
        r = .error .readerClosed ∧ p.buffer ≠ ByteArray.empty) := by
  refine ⟨flush_closed closed flushed, ?_⟩
  simp only [flush] at flushed
  split at flushed
  case isTrue empty =>
    exact .inl ⟨(Prod.mk.inj (Option.some.inj flushed)).1.symm, isEmpty_iff.1 empty⟩
  case isFalse waiting =>
    obtain ⟨rfl, -⟩ := send_closed (by exact closed) flushed
    exact .inr ⟨rfl, fun empty => waiting (isEmpty_iff.2 empty)⟩

theorem finish_unread (closed : p.hasReader = false) {r : Except WriteFault Unit}
    (finished : p.finish = some (r, q)) :
    q.queue = p.queue ∧
      (r = .ok () ∧ p.buffer = ByteArray.empty ∨ r ≠ .ok () ∧ p.buffer ≠ ByteArray.empty) := by
  refine ⟨by rw [finish_closed closed finished], ?_⟩
  obtain ⟨⟨r', q'⟩, flushed, told⟩ := Option.map_eq_some_iff.1 finished
  obtain ⟨-, ⟨rfl, empty⟩ | ⟨rfl, waiting⟩⟩ := flush_unread closed flushed
  · obtain ⟨rfl, -⟩ := Prod.mk.inj told
    exact .inl ⟨rfl, empty⟩
  · obtain ⟨rfl, -⟩ := Prod.mk.inj told
    exact .inr ⟨nofun, waiting⟩

namespace Ledger

/-! ## Keeping account -/

def start (capacity : Nat) : Ledger := ⟨ofCapacity capacity, ByteArray.empty, ByteArray.empty, []⟩

/-- The account of a call that has granted some bytes, or failed. -/
def book (l : Ledger) (granted : Except WriteFault ByteArray) (p : Pipe) : Ledger where
  pipe := p
  enqueued := l.enqueued ++ arrived l.pipe p
  accepted := match granted with
    | .ok bytes => l.accepted ++ bytes
    | .error _ => l.accepted
  failures := match granted with
    | .ok _ => l.failures
    | .error _ => l.failures ++ [l.pipe.buffer]

/-- A step of either end, if it does not have to wait. -/
def step (l : Ledger) : Move → Option Ledger
  | .write data => (l.pipe.write data).map fun (r, p) => l.book (r.map (data.extract 0 ·)) p
  | .flush => l.pipe.flush.map fun (r, p) => l.book (r.map fun _ => ByteArray.empty) p
  | .receive => some { l with pipe := l.pipe.receive.2 }
  | .receiveAll => some { l with pipe := l.pipe.receiveAll.2 }
  | .leave => some { l with pipe := l.pipe.closeReader }

def play (l : Ledger) (moves : List Move) : Option Ledger := moves.foldlM step l

/-! ## The account is balanced -/

/-- **No byte is missing from the account**, and calls fail only when nobody reads. -/
structure Balanced (l : Ledger) : Prop where
  balance : l.accepted = l.enqueued ++ (joined l.failures ++ l.pipe.buffer)
  read : l.pipe.hasReader = true → l.failures = []

theorem balanced_start (capacity : Nat) : (start capacity).Balanced :=
  ⟨by simp [start, ofCapacity], fun _ => rfl⟩

variable {l l' : Ledger}

/-- A call that a reader is there for puts its bytes behind all others. -/
theorem Balanced.fed (balanced : l.Balanced) (reader : l.pipe.hasReader = true) {bytes : ByteArray}
    {chunks : List ByteArray} (fed : Fed l.pipe bytes chunks q) : (l.book (.ok bytes) q).Balanced := by
  have no_failure := balanced.read reader
  have arrived : arrived l.pipe q = joined chunks := arrived_append (by rw [fed.same])
  refine ⟨?_, fun _ => no_failure⟩
  have balance := balanced.balance
  simp only [book, no_failure, joined_nil, ByteArray.empty_append, arrived] at balance ⊢
  rw [balance, ByteArray.append_assoc, ByteArray.append_assoc, fed.bytes]

/-- A call that nobody reads grants bytes that wait then. -/
theorem Balanced.kept (balanced : l.Balanced) (closed : l.pipe.hasReader = false) (bytes : ByteArray) :
    (l.book (.ok bytes) { l.pipe with buffer := l.pipe.buffer ++ bytes }).Balanced := by
  refine ⟨?_, fun reader => by simp [book, closed] at reader⟩
  have nothing := arrived_of_same (p := l.pipe) (q := { l.pipe with buffer := l.pipe.buffer ++ bytes }) rfl
  simp only [book, nothing, ByteArray.append_empty, balanced.balance, ByteArray.append_assoc]

/-- A call that fails takes along what was waiting. -/
theorem Balanced.failed (balanced : l.Balanced) (closed : l.pipe.hasReader = false) (e : WriteFault) :
    (l.book (.error e) { l.pipe with buffer := ByteArray.empty }).Balanced := by
  refine ⟨?_, fun reader => by simp [book, closed] at reader⟩
  have nothing := arrived_of_same (p := l.pipe) (q := { l.pipe with buffer := ByteArray.empty }) rfl
  simp [book, nothing, balanced.balance]

/-- **Every step keeps the balance.** -/
theorem balanced_step (balanced : l.Balanced) {m : Move} (stepped : l.step m = some l') : l'.Balanced := by
  cases m with
  | write data =>
      obtain ⟨⟨r, p⟩, wrote, rfl⟩ := Option.map_eq_some_iff.1 stepped
      cases reader : l.pipe.hasReader with
      | true =>
          obtain ⟨rfl, -, chunks, -, fed⟩ := write_open reader wrote
          exact balanced.fed reader fed
      | false =>
          obtain ⟨rfl, rfl⟩ | ⟨rfl, rfl⟩ := write_unread reader wrote
          · exact balanced.kept reader _
          · exact balanced.failed reader _
  | flush =>
      obtain ⟨⟨r, p⟩, flushed, rfl⟩ := Option.map_eq_some_iff.1 stepped
      cases reader : l.pipe.hasReader with
      | true =>
          obtain ⟨rfl, -, chunks, -, fed⟩ := flush_open reader flushed
          exact balanced.fed reader fed
      | false =>
          obtain ⟨rfl, ⟨rfl, empty⟩ | ⟨rfl, -⟩⟩ := flush_unread reader flushed
          · have kept := balanced.kept reader ByteArray.empty
            rw [ByteArray.append_empty, empty] at kept
            exact kept
          · exact balanced.failed reader _
  | receive =>
      obtain rfl := Option.some.inj stepped
      rw [History.receive_rest l.pipe]
      exact ⟨balanced.balance, balanced.read⟩
  | receiveAll =>
      obtain rfl := Option.some.inj stepped
      exact ⟨balanced.balance, balanced.read⟩
  | leave =>
      obtain rfl := Option.some.inj stepped
      exact ⟨balanced.balance, nofun⟩

theorem balanced_play (balanced : l.Balanced) {moves : List Move} (played : l.play moves = some l') :
    l'.Balanced := by
  induction moves generalizing l with
  | nil =>
      obtain rfl := Option.some.inj played
      exact balanced
  | cons m moves ih =>
      obtain ⟨next, stepped, later⟩ := Option.bind_eq_some_iff.1 played
      exact ih (balanced_step balanced stepped) later

/-! ## Finishing -/

/-- **When a finish covers all that was accepted.**  If it succeeds, all that is missing from the
queue is what failing calls took along; so nothing is missing just if it succeeds and nothing was waiting
whenever a call failed. -/
theorem finish_covers_iff {capacity : Nat} {moves : List Move} {l : Ledger}
    (played : (start capacity).play moves = some l) {r : Except WriteFault Unit} {q : Pipe}
    (finished : l.pipe.finish = some (r, q)) :
    (r = .ok () → l.accepted = l.enqueued ++ arrived l.pipe q ++ joined l.failures) ∧
    (l.enqueued ++ arrived l.pipe q = l.accepted ↔
      r = .ok () ∧ ∀ waiting ∈ l.failures, waiting = ByteArray.empty) := by
  have balanced := balanced_play (balanced_start capacity) played
  have balance := balanced.balance
  cases reader : l.pipe.hasReader with
  | true =>
      obtain ⟨rfl, chunks, -, sent, closed⟩ := finish_open reader finished
      have no_failure := balanced.read reader
      have arrives : arrived l.pipe q = joined chunks := arrived_append (by rw [closed])
      rw [arrives, sent, no_failure]
      rw [no_failure, joined_nil, ByteArray.empty_append] at balance
      exact ⟨fun _ => by simpa using balance, by simp [balance]⟩
  | false =>
      obtain ⟨same, ⟨rfl, empty⟩ | ⟨failed, waiting⟩⟩ := finish_unread reader finished
      · rw [arrived_of_same same, ByteArray.append_empty]
        rw [empty, ByteArray.append_empty] at balance
        refine ⟨fun _ => balance, ?_⟩
        rw [balance, eq_comm, eq_append_iff, joined_eq_empty_iff]
        simp
      · refine ⟨fun fine => absurd fine failed, iff_of_false ?_ fun fine => failed fine.1⟩
        rw [arrived_of_same same, ByteArray.append_empty, balance, eq_comm, eq_append_iff]
        intro nothing
        have sizes := congrArg ByteArray.size nothing
        rw [ByteArray.size_append, ByteArray.size_empty] at sizes
        exact waiting (ByteArray.size_eq_zero_iff.1 (by omega))

/-- A writer whose reader leaves between two bytes is told so by its finish. -/
theorem finish_covers_iff_of_leave :
    let l : Ledger := ⟨⟨1, [], ⟨#[2]⟩, true, false⟩, ⟨#[1, 2]⟩, ⟨#[1]⟩, []⟩
    let q : Pipe := ⟨1, [], ByteArray.empty, false, false⟩
    (start 1).play [.write ⟨#[1]⟩, .flush, .leave, .flush, .write ⟨#[2]⟩] = some l ∧
      l.pipe.finish = some (.error .readerClosed, q) ∧
      l.enqueued ++ arrived l.pipe q ≠ l.accepted := by
  intro l q
  have played : (start 1).play [.write ⟨#[1]⟩, .flush, .leave, .flush, .write ⟨#[2]⟩] = some l := rfl
  have finished : l.pipe.finish = some (.error .readerClosed, q) := rfl
  refine ⟨played, finished, fun covered => ?_⟩
  have fine := ((finish_covers_iff played finished).2.1 covered).1
  cases fine

/-- **A finish can succeed over a lost byte**: the flush before it failed and took the byte along, so
it finds nothing to send. -/
theorem finish_after_loss :
    let l : Ledger := ⟨⟨1, [], ByteArray.empty, true, false⟩, ⟨#[1]⟩, ByteArray.empty, [⟨#[1]⟩]⟩
    let q : Pipe := ⟨1, [], ByteArray.empty, false, false⟩
    (start 1).play [.write ⟨#[1]⟩, .leave, .flush] = some l ∧ l.pipe.finish = some (.ok (), q) ∧
      l.enqueued ++ arrived l.pipe q = ByteArray.empty ∧ l.accepted = ⟨#[1]⟩ := by
  intro l q
  exact ⟨rfl, rfl, rfl, rfl⟩

end Ledger

end DevMode.Pipe
