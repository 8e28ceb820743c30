/-
# DevMode.Proofs.Pipe -- what the operations of a pipe do

While the reader is there, the writer's operations put chunks of data behind the queue and
keep the bytes in order (`Fed`); only an abort and a drop put a fault there.  One law for each
operation says so, and `Free` is when none of them has to wait.
-/
import DevMode.Pipe
import Mathlib.Data.List.Basic

namespace DevMode.Pipe

set_option autoImplicit false

/-! ## Chunks -/

def joined (chunks : List ByteArray) : ByteArray := chunks.foldr (· ++ ·) ByteArray.empty

@[simp] theorem joined_nil : joined [] = ByteArray.empty := rfl

@[simp] theorem joined_cons (c : ByteArray) (cs : List ByteArray) :
    joined (c :: cs) = c ++ joined cs := rfl

@[simp] theorem joined_append (cs ds : List ByteArray) :
    joined (cs ++ ds) = joined cs ++ joined ds := by
  induction cs with
  | nil => simp
  | cons c cs ih => simp [ih, ByteArray.append_assoc]

/-- Bytes cut in two are the same bytes. -/
theorem extract_append_rest (data : ByteArray) {n : Nat} (inside : n ≤ data.size) :
    data.extract 0 n ++ data.extract n data.size = data := by
  rw [ByteArray.extract_append_extract, Nat.zero_min, Nat.max_eq_right inside,
    ByteArray.extract_zero_size]

variable {p q : Pipe}

/-! ## Sending -/

/-- Nothing that is sent has to wait: there is room, or nobody reads. -/
def Free (p : Pipe) : Prop := p.hasReader = true → p.queue.length < p.capacity

theorem send_of_room (reader : p.hasReader = true) (room : p.queue.length < p.capacity)
    (chunk : Except StreamFault ByteArray) :
    p.send chunk = some (.ok (), { p with queue := p.queue ++ [chunk] }) := by
  simp [send, reader, Nat.not_le.2 room]

theorem send_of_full (reader : p.hasReader = true) (full : p.capacity ≤ p.queue.length)
    (chunk : Except StreamFault ByteArray) : p.send chunk = none := by
  simp [send, reader, full]

theorem send_of_closed (closed : p.hasReader = false) (chunk : Except StreamFault ByteArray) :
    p.send chunk = some (.error .readerClosed, p) := by
  simp [send, closed]

theorem send_open (reader : p.hasReader = true) {chunk : Except StreamFault ByteArray}
    {r : Except WriteFault Unit} (sent : p.send chunk = some (r, q)) :
    p.queue.length < p.capacity ∧ r = .ok () ∧ q = { p with queue := p.queue ++ [chunk] } := by
  rcases Nat.lt_or_ge p.queue.length p.capacity with room | full
  · rw [send_of_room reader room] at sent
    simp only [Option.some.injEq, Prod.mk.injEq] at sent
    exact ⟨room, sent.1.symm, sent.2.symm⟩
  · rw [send_of_full reader full] at sent
    simp at sent

/-- What is sent to nobody changes nothing. -/
theorem send_closed (closed : p.hasReader = false) {chunk : Except StreamFault ByteArray}
    {r : Except WriteFault Unit} (sent : p.send chunk = some (r, q)) :
    r = .error .readerClosed ∧ q = p := by
  rw [send_of_closed closed] at sent
  simp only [Option.some.injEq, Prod.mk.injEq] at sent
  exact ⟨sent.1.symm, sent.2.symm⟩

theorem exists_send (free : p.Free) (chunk : Except StreamFault ByteArray) :
    ∃ r q, p.send chunk = some (r, q) := by
  cases reader : p.hasReader with
  | false => exact ⟨_, _, send_of_closed reader chunk⟩
  | true => exact ⟨_, _, send_of_room reader (free reader) chunk⟩

/-! ## Writing to a reader -/

/-- **Data goes in at the back.**  `chunks` came onto the queue, and with the unfinished chunk
they hold what was in it and `data`. -/
structure Fed (p : Pipe) (data : ByteArray) (chunks : List ByteArray) (q : Pipe) : Prop where
  same : q = { p with queue := p.queue ++ chunks.map .ok, buffer := q.buffer }
  bytes : joined chunks ++ q.buffer = p.buffer ++ data

theorem accepted_le (p : Pipe) (n : Nat) : p.accepted n ≤ n := Nat.min_le_right _ _

/-- A write takes something, if there is something and the unfinished chunk is not full. -/
theorem accepted_pos (small : p.buffer.size < chunkSize) {n : Nat} (some_bytes : 0 < n) :
    0 < p.accepted n := by
  unfold accepted
  omega

theorem sendBuffer_open (reader : p.hasReader = true) {r : Except WriteFault Unit}
    (sent : p.sendBuffer = some (r, q)) :
    r = .ok () ∧ q = { p with queue := p.queue ++ [.ok p.buffer], buffer := ByteArray.empty } :=
  (send_open (p := { p with buffer := ByteArray.empty }) reader sent).2

theorem write_open (reader : p.hasReader = true) {data : ByteArray} {r : Except WriteFault Nat}
    (wrote : p.write data = some (r, q)) :
    r = .ok (p.accepted data.size) ∧ q.buffer.size < chunkSize ∧
      ∃ chunks, chunks.length ≤ 1 ∧ Fed p (data.extract 0 (p.accepted data.size)) chunks q := by
  simp only [write] at wrote
  split at wrote
  case isTrue small =>
    simp only [Option.some.injEq, Prod.mk.injEq] at wrote
    obtain ⟨rfl, rfl⟩ := wrote
    exact ⟨rfl, small, [], by simp, by simp, by simp⟩
  case isFalse full =>
    obtain ⟨⟨r', q'⟩, sent, told⟩ := Option.map_eq_some_iff.1 wrote
    simp only [Prod.mk.injEq] at told
    obtain ⟨rfl, rfl⟩ := told
    obtain ⟨rfl, rfl⟩ := sendBuffer_open (by exact reader) sent
    refine ⟨rfl, by simp [chunkSize], [p.buffer ++ data.extract 0 (p.accepted data.size)], ?_, ?_⟩
    · simp
    · exact ⟨by simp, by simp⟩

theorem flush_open (reader : p.hasReader = true) {r : Except WriteFault Unit}
    (flushed : p.flush = some (r, q)) :
    r = .ok () ∧ q.buffer = ByteArray.empty ∧
      ∃ chunks, chunks.length ≤ 1 ∧ Fed p ByteArray.empty chunks q := by
  simp only [flush] at flushed
  split at flushed
  case isTrue empty =>
    simp only [Option.some.injEq, Prod.mk.injEq] at flushed
    obtain ⟨rfl, rfl⟩ := flushed
    have none_left : p.buffer = ByteArray.empty := by
      simpa [ByteArray.isEmpty, ByteArray.size_eq_zero_iff] using empty
    exact ⟨rfl, none_left, [], by simp, by simp, by simp⟩
  case isFalse =>
    obtain ⟨rfl, rfl⟩ := sendBuffer_open reader flushed
    exact ⟨rfl, rfl, [p.buffer], by simp, by simp, by simp⟩

/-- With a reader there, a finish succeeds and sends all that was left. -/
theorem finish_open (reader : p.hasReader = true) {r : Except WriteFault Unit}
    (finished : p.finish = some (r, q)) :
    r = .ok () ∧ ∃ chunks, chunks.length ≤ 1 ∧ joined chunks = p.buffer ∧
      q = { p with queue := p.queue ++ chunks.map .ok, buffer := ByteArray.empty,
                   hasWriter := false } := by
  obtain ⟨⟨r', q'⟩, flushed, told⟩ := Option.map_eq_some_iff.1 finished
  obtain ⟨rfl, emptied, chunks, few, fed⟩ := flush_open reader flushed
  simp only [Prod.mk.injEq] at told
  obtain ⟨rfl, rfl⟩ := told
  have bytes := fed.bytes
  have same := fed.same
  rw [emptied] at bytes same
  refine ⟨rfl, chunks, few, by simpa using bytes, ?_⟩
  rw [same]

theorem abort_open (reader : p.hasReader = true) {reason : String}
    (aborted : p.abort reason = some q) :
    q = { p with queue := p.queue ++ [.error (.aborted reason)], hasWriter := false } := by
  obtain ⟨⟨r, q'⟩, sent, rfl⟩ := Option.map_eq_some_iff.1 aborted
  obtain ⟨-, -, rfl⟩ := send_open reader sent
  rfl

theorem drop_of_room (reader : p.hasReader = true) (room : p.queue.length < p.capacity) :
    p.drop = { p with queue := p.queue ++ [.error .dropped], hasWriter := false } := by
  simp only [drop]
  rw [send_of_room (p := { p with hasWriter := false }) reader room]

/-- A drop has no word for the reader when the queue is full. -/
theorem drop_of_full (reader : p.hasReader = true) (full : p.capacity ≤ p.queue.length) :
    p.drop = { p with hasWriter := false } := by
  simp only [drop]
  rw [send_of_full (p := { p with hasWriter := false }) reader full]

/-! ## Writing to nobody -/

theorem write_closed (closed : p.hasReader = false) {data : ByteArray} {r : Except WriteFault Nat}
    (wrote : p.write data = some (r, q)) :
    (r = .ok (p.accepted data.size) ∨ r = .error .readerClosed) ∧ q.buffer.size < chunkSize ∧
      q = { p with buffer := q.buffer } := by
  simp only [write] at wrote
  split at wrote
  case isTrue small =>
    simp only [Option.some.injEq, Prod.mk.injEq] at wrote
    obtain ⟨rfl, rfl⟩ := wrote
    exact ⟨.inl rfl, small, rfl⟩
  case isFalse full =>
    obtain ⟨⟨r', q'⟩, sent, told⟩ := Option.map_eq_some_iff.1 wrote
    simp only [Prod.mk.injEq] at told
    obtain ⟨rfl, rfl⟩ := told
    obtain ⟨rfl, rfl⟩ := send_closed (by exact closed) sent
    exact ⟨.inr rfl, by simp [chunkSize], rfl⟩

theorem flush_closed (closed : p.hasReader = false) {r : Except WriteFault Unit}
    (flushed : p.flush = some (r, q)) :
    q = { p with buffer := ByteArray.empty } := by
  simp only [flush] at flushed
  split at flushed
  case isTrue empty =>
    simp only [Option.some.injEq, Prod.mk.injEq] at flushed
    have none_left : p.buffer = ByteArray.empty := by
      simpa [ByteArray.isEmpty, ByteArray.size_eq_zero_iff] using empty
    rw [← flushed.2, ← none_left]
  case isFalse => exact (send_closed (by exact closed) flushed).2

theorem drop_of_closed (closed : p.hasReader = false) : p.drop = { p with hasWriter := false } := by
  simp only [drop]
  rw [send_of_closed (p := { p with hasWriter := false }) closed]

theorem finish_closed (closed : p.hasReader = false) {r : Except WriteFault Unit}
    (finished : p.finish = some (r, q)) :
    q = { p with buffer := ByteArray.empty, hasWriter := false } := by
  obtain ⟨⟨r', q'⟩, flushed, told⟩ := Option.map_eq_some_iff.1 finished
  obtain rfl := flush_closed closed flushed
  cases r' with
  | ok =>
      simp only [Prod.mk.injEq] at told
      exact told.2.symm
  | error e =>
      simp only [Prod.mk.injEq] at told
      rw [← told.2, drop_of_closed (by exact closed)]

theorem abort_closed (closed : p.hasReader = false) {reason : String}
    (aborted : p.abort reason = some q) : q = { p with hasWriter := false } := by
  obtain ⟨⟨r, q'⟩, sent, rfl⟩ := Option.map_eq_some_iff.1 aborted
  rw [(send_closed closed sent).2]

/-! ## With a reader or without -/

/-- What a writer's step leaves as it is: at most one thing comes onto the queue. -/
structure Kept (p q : Pipe) : Prop where
  capacity : q.capacity = p.capacity
  reader : q.hasReader = p.hasReader
  small : q.buffer.size < chunkSize
  queue : q.queue.length ≤ p.queue.length + 1

theorem write_kept {data : ByteArray} {r : Except WriteFault Nat}
    (wrote : p.write data = some (r, q)) :
    Kept p q ∧ q.hasWriter = p.hasWriter ∧ ∀ n, r = .ok n → n = p.accepted data.size := by
  cases reader : p.hasReader with
  | true =>
      obtain ⟨rfl, small, chunks, few, fed⟩ := write_open reader wrote
      refine ⟨⟨by rw [fed.same], by rw [fed.same], small, ?_⟩, by rw [fed.same], ?_⟩
      · rw [fed.same]
        simpa using few
      · exact fun n same => (Except.ok.inj same).symm
  | false =>
      obtain ⟨told, small, same⟩ := write_closed reader wrote
      refine ⟨⟨by rw [same], by rw [same], small, ?_⟩, by rw [same], ?_⟩
      · rw [same]
        exact Nat.le_succ _
      · rintro n rfl
        rcases told with told | told
        · exact Except.ok.inj told
        · simp at told

theorem finish_kept {r : Except WriteFault Unit} (finished : p.finish = some (r, q)) :
    Kept p q ∧ q.hasWriter = false := by
  cases reader : p.hasReader with
  | true =>
      obtain ⟨-, chunks, few, -, rfl⟩ := finish_open reader finished
      exact ⟨⟨rfl, rfl, by simp [chunkSize], by simpa using few⟩, rfl⟩
  | false =>
      obtain rfl := finish_closed reader finished
      exact ⟨⟨rfl, rfl, by simp [chunkSize], Nat.le_succ _⟩, rfl⟩

theorem abort_kept (small : p.buffer.size < chunkSize) {reason : String}
    (aborted : p.abort reason = some q) : Kept p q ∧ q.hasWriter = false := by
  cases reader : p.hasReader with
  | true =>
      obtain rfl := abort_open reader aborted
      exact ⟨⟨rfl, rfl, small, by simp⟩, rfl⟩
  | false =>
      obtain rfl := abort_closed reader aborted
      exact ⟨⟨rfl, rfl, small, Nat.le_succ _⟩, rfl⟩

/-! ## Not having to wait -/

theorem exists_write (free : p.Free) (data : ByteArray) : ∃ r q, p.write data = some (r, q) := by
  simp only [write]
  split
  · exact ⟨_, _, rfl⟩
  · obtain ⟨r, q, sent⟩ := exists_send
      (p := { p with buffer := ByteArray.empty }) (by exact free)
      (.ok (p.buffer ++ data.extract 0 (p.accepted data.size)))
    exact ⟨_, q, by rw [sendBuffer, sent]; rfl⟩

theorem exists_finish (free : p.Free) : ∃ r q, p.finish = some (r, q) := by
  simp only [finish, flush]
  split
  · exact ⟨_, _, rfl⟩
  · obtain ⟨r, q, sent⟩ := exists_send (p := { p with buffer := ByteArray.empty }) (by exact free)
      (.ok p.buffer)
    rw [sendBuffer, sent]
    cases r <;> exact ⟨_, _, rfl⟩

theorem exists_abort (free : p.Free) (reason : String) : ∃ q, p.abort reason = some q := by
  obtain ⟨r, q, sent⟩ := exists_send free (.error (.aborted reason))
  exact ⟨_, by rw [abort, sent]; rfl⟩

end DevMode.Pipe
