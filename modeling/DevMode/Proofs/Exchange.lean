/-
# DevMode.Proofs.Exchange -- a writer with a payload and a reader that takes it

An `Exchange` is a pipe between a writer, which makes calls and then finishes, and a reader, which
takes one chunk after the other.  Either makes its steps when it can (`Exchange.turn`), so a run
is any list of turns.

* `whole_turn`: what the reader has, what is on the queue, the unfinished chunk and what is still
  to be written are together the payload; no chunk is empty or too large, and no more of them wait
  than the pipe holds.
* `exists_turn` and `left_lt_of_turn`: as long as the reader has not come to the end somebody can
  go on, and no run goes on forever.
* `delivers`: so every run can only come to the end with the whole payload.

What makes it work is that the unfinished chunk is smaller than a chunk between two calls: then
every write takes something (`write_takes`), and writing all bytes comes to an end
(`writeAll_open`).
-/
import DevMode.Proofs.Pipe

namespace DevMode.Pipe

set_option autoImplicit false

variable {p q : Pipe}

/-! ## What a call puts on the queue -/

/-- A chunk as it may be: not empty, and not too large. -/
def Sized (chunk : ByteArray) : Prop := 0 < chunk.size ∧ chunk.size ≤ chunkSize

/-- The chunks that a call puts on the queue are sized and find room there, and what it leaves
unfinished is smaller than a chunk. -/
structure Puts (p : Pipe) (data : ByteArray) (chunks : List ByteArray) (q : Pipe) : Prop where
  fed : Fed p data chunks q
  small : q.buffer.size < chunkSize
  sized : ∀ c ∈ chunks, Sized c
  few : chunks.length ≤ 1
  room : p.queue.length ≤ p.capacity → q.queue.length ≤ p.capacity

theorem Puts.queue_le {data : ByteArray} {chunks : List ByteArray} (puts : Puts p data chunks q) :
    q.queue.length ≤ p.queue.length + 1 := by
  have few := puts.few
  rw [puts.fed.same]
  simp only [List.length_append, List.length_map]
  omega

theorem Fed.nothing (p : Pipe) : Fed p ByteArray.empty [] p := ⟨by simp, by simp⟩

theorem Fed.trans {data more : ByteArray} {chunks chunks' : List ByteArray} {r : Pipe}
    (first : Fed p data chunks q) (second : Fed q more chunks' r) :
    Fed p (data ++ more) (chunks ++ chunks') r where
  same := by
    rw [second.same, first.same]
    simp
  bytes := by
    rw [joined_append, ByteArray.append_assoc, second.bytes, ← ByteArray.append_assoc, first.bytes,
      ByteArray.append_assoc]

theorem sendBuffer_puts (reader : p.hasReader = true) (sized : Sized p.buffer)
    {r : Except WriteFault Unit} (sent : p.sendBuffer = some (r, q)) :
    r = .ok () ∧ q.buffer = ByteArray.empty ∧ Puts p ByteArray.empty [p.buffer] q := by
  obtain ⟨space, rfl, rfl⟩ :=
    send_open (p := { p with buffer := ByteArray.empty }) reader sent
  refine ⟨rfl, rfl, ⟨by simp, by simp⟩, by simp [chunkSize], by simpa using sized, by simp, ?_⟩
  intro _
  simp only [List.length_append, List.length_singleton] at space ⊢
  omega

/-- **A write puts a chunk on the queue when it has filled it.** -/
theorem write_puts (reader : p.hasReader = true) (small : p.buffer.size < chunkSize)
    {data : ByteArray} {r : Except WriteFault Nat} (wrote : p.write data = some (r, q)) :
    r = .ok (p.accepted data.size) ∧
      ∃ chunks, Puts p (data.extract 0 (p.accepted data.size)) chunks q := by
  have taken : (data.extract 0 (p.accepted data.size)).size = p.accepted data.size := by
    have := accepted_le p data.size
    rw [ByteArray.size_extract]
    omega
  simp only [write] at wrote
  split at wrote
  case isTrue unfilled =>
    simp only [Option.some.injEq, Prod.mk.injEq] at wrote
    obtain ⟨rfl, rfl⟩ := wrote
    exact ⟨rfl, [], ⟨by simp, by simp⟩, unfilled, by simp, by simp, id⟩
  case isFalse filled =>
    obtain ⟨⟨r', q'⟩, sent, told⟩ := Option.map_eq_some_iff.1 wrote
    simp only [Prod.mk.injEq] at told
    obtain ⟨rfl, rfl⟩ := told
    have fits : Sized (p.buffer ++ data.extract 0 (p.accepted data.size)) := by
      have whole : chunkSize ≤ (p.buffer ++ data.extract 0 (p.accepted data.size)).size :=
        Nat.not_lt.1 filled
      have limit : p.accepted data.size ≤ chunkSize - p.buffer.size := Nat.min_le_left _ _
      have some_size : 0 < chunkSize := by simp [chunkSize]
      rw [ByteArray.size_append, taken] at whole
      refine ⟨?_, ?_⟩ <;> rw [ByteArray.size_append, taken] <;> omega
    obtain ⟨rfl, emptied, puts⟩ :=
      sendBuffer_puts (p := { p with buffer := p.buffer ++ data.extract 0 (p.accepted data.size) })
        reader fits sent
    refine ⟨rfl, _, ⟨⟨puts.fed.same, ?_⟩, puts.small, puts.sized, puts.few, puts.room⟩⟩
    rw [puts.fed.bytes, ByteArray.append_empty]

theorem flush_puts (reader : p.hasReader = true) (small : p.buffer.size < chunkSize)
    {r : Except WriteFault Unit} (flushed : p.flush = some (r, q)) :
    r = .ok () ∧ q.buffer = ByteArray.empty ∧ ∃ chunks, Puts p ByteArray.empty chunks q := by
  simp only [flush] at flushed
  split at flushed
  case isTrue empty =>
    simp only [Option.some.injEq, Prod.mk.injEq] at flushed
    obtain ⟨rfl, rfl⟩ := flushed
    have none_left : p.buffer = ByteArray.empty := by
      simpa [ByteArray.isEmpty, ByteArray.size_eq_zero_iff] using empty
    exact ⟨rfl, none_left, [], ⟨by simp, by simp⟩, small, by simp, by simp, id⟩
  case isFalse some_left =>
    have fits : Sized p.buffer := by
      refine ⟨?_, Nat.le_of_lt small⟩
      simpa [ByteArray.isEmpty, Nat.pos_iff_ne_zero] using some_left
    obtain ⟨rfl, emptied, puts⟩ := sendBuffer_puts reader fits flushed
    exact ⟨rfl, emptied, _, puts⟩

theorem finish_puts (reader : p.hasReader = true) (small : p.buffer.size < chunkSize)
    {r : Except WriteFault Unit} (finished : p.finish = some (r, q)) :
    r = .ok () ∧ ∃ chunks mid, Puts p ByteArray.empty chunks mid ∧
      mid.buffer = ByteArray.empty ∧ q = { mid with hasWriter := false } := by
  obtain ⟨⟨r', mid⟩, flushed, told⟩ := Option.map_eq_some_iff.1 finished
  obtain ⟨rfl, emptied, chunks, puts⟩ := flush_puts reader small flushed
  simp only [Prod.mk.injEq] at told
  obtain ⟨rfl, rfl⟩ := told
  exact ⟨rfl, chunks, mid, puts, emptied, rfl⟩

/-- **A write of some bytes takes one at least**, and no more than there are. -/
theorem write_takes (reader : p.hasReader = true) (small : p.buffer.size < chunkSize)
    {data : ByteArray} (some_bytes : 0 < data.size) {r : Except WriteFault Nat}
    (wrote : p.write data = some (r, q)) : ∃ n, r = .ok n ∧ 0 < n ∧ n ≤ data.size :=
  ⟨_, (write_puts reader small wrote).1, accepted_pos small some_bytes, accepted_le p data.size⟩

/-- **Writing all bytes leaves none behind**, if it never has to wait. -/
theorem writeFrom_open {fuel : Nat} {data : ByteArray} (reader : p.hasReader = true)
    (small : p.buffer.size < chunkSize) (enough : data.size ≤ fuel) {r : Except WriteFault Unit}
    (wrote : writeFrom fuel p data = some (r, q)) : r = .ok () ∧ ∃ chunks, Fed p data chunks q := by
  induction fuel generalizing p data with
  | zero =>
      obtain rfl := ByteArray.size_eq_zero_iff.1 (Nat.le_zero.1 enough)
      simp only [writeFrom, Option.some.injEq, Prod.mk.injEq] at wrote
      obtain ⟨rfl, rfl⟩ := wrote
      exact ⟨rfl, [], Fed.nothing p⟩
  | succ fuel ih =>
      simp only [writeFrom] at wrote
      split at wrote
      case isTrue empty =>
        obtain rfl : data = ByteArray.empty := by
          simpa [ByteArray.isEmpty, ByteArray.size_eq_zero_iff] using empty
        simp only [Option.some.injEq, Prod.mk.injEq] at wrote
        obtain ⟨rfl, rfl⟩ := wrote
        exact ⟨rfl, [], Fed.nothing p⟩
      case isFalse more =>
        have some_bytes : 0 < data.size := by
          simpa [ByteArray.isEmpty, Nat.pos_iff_ne_zero] using more
        split at wrote
        · simp at wrote
        · rename_i e mid first
          have told := (write_puts reader small first).1
          simp at told
        · rename_i n mid first
          obtain ⟨told, chunks, puts⟩ := write_puts reader small first
          obtain rfl := Except.ok.inj told
          have positive := accepted_pos small some_bytes
          have shorter : (data.extract (p.accepted data.size) data.size).size ≤ fuel := by
            rw [ByteArray.size_extract]
            omega
          have reader' : mid.hasReader = true := by
            rw [puts.fed.same]
            exact reader
          obtain ⟨rfl, chunks', fed⟩ := ih reader' puts.small shorter wrote
          have whole := puts.fed.trans fed
          rw [extract_append_rest data (accepted_le p data.size)] at whole
          exact ⟨rfl, _, whole⟩

theorem writeAll_open {data : ByteArray} (reader : p.hasReader = true)
    (small : p.buffer.size < chunkSize) {r : Except WriteFault Unit}
    (wrote : p.writeAll data = some (r, q)) : r = .ok () ∧ ∃ chunks, Fed p data chunks q :=
  writeFrom_open reader small (Nat.le_refl _) wrote

theorem exists_flush (free : p.Free) : ∃ r q, p.flush = some (r, q) := by
  simp only [flush]
  split
  · exact ⟨_, _, rfl⟩
  · exact exists_send (p := { p with buffer := ByteArray.empty }) free (.ok p.buffer)

/-! ## Both parties -/

/-- What a writer does with a pipe before it finishes. -/
inductive Call where
  | writeAll (data : ByteArray)
  | flush

namespace Call

/-- The bytes that calls write. -/
def payload : List Call → ByteArray
  | [] => ByteArray.empty
  | writeAll data :: rest => data ++ payload rest
  | flush :: rest => payload rest

/-- More steps than the calls take: every step of a write takes a byte, and one more finds
nothing left. -/
def weight : List Call → Nat
  | [] => 0
  | writeAll data :: rest => data.size + 1 + weight rest
  | flush :: rest => 1 + weight rest

end Call

inductive Party where
  | writer
  | reader

/-- A pipe, what its writer has still to do and how it ended, and what its reader has and how that
ended. -/
structure Exchange where
  pipe : Pipe
  calls : List Call
  outcome : Option (Except WriteFault Unit)
  received : List ByteArray
  heard : Option (Except StreamFault Unit)

namespace Exchange

def start (capacity : Nat) (calls : List Call) : Exchange :=
  ⟨ofCapacity capacity, calls, none, [], none⟩

/-- The writer leaves the pipe at a failure. -/
def giveUp (x : Exchange) (pipe : Pipe) (e : WriteFault) : Exchange :=
  { x with pipe := pipe.drop, calls := [], outcome := some (.error e) }

/-- The writer makes its next call, a write of all bytes in as many steps as it takes, and
finishes behind the last. -/
def stepWriter (x : Exchange) : Option Exchange :=
  match x.outcome, x.calls with
  | some _, _ => none
  | none, [] => x.pipe.finish.map fun (r, p) => { x with pipe := p, outcome := some r }
  | none, .flush :: rest =>
    x.pipe.flush.map fun (r, p) =>
      match r with
      | .ok () => { x with pipe := p, calls := rest }
      | .error e => x.giveUp p e
  | none, .writeAll data :: rest =>
    if data.isEmpty then some { x with calls := rest }
    else
      (x.pipe.write data).map fun (r, p) =>
        match r with
        | .ok n => { x with pipe := p, calls := .writeAll (data.extract n data.size) :: rest }
        | .error e => x.giveUp p e

/-- The reader takes the next chunk, or hears of a fault or of the end. -/
def stepReader (x : Exchange) : Option Exchange :=
  match x.heard, x.pipe.receive with
  | some _, _ => none
  | none, (.chunk bytes, p) => some { x with pipe := p, received := x.received ++ [bytes] }
  | none, (.fault f, p) => some { x with pipe := p, heard := some (.error f) }
  | none, (.stop, p) => some { x with pipe := p, heard := some (.ok ()) }
  | none, (.pending, _) => none

/-- The step of one of them, if it does not have to wait. -/
def turn (x : Exchange) : Party → Option Exchange
  | .writer => x.stepWriter
  | .reader => x.stepReader

def play (x : Exchange) (turns : List Party) : Option Exchange := turns.foldlM turn x

/-! ## What holds throughout -/

/-- **Nothing is lost on the way.**  All chunks that are out are sized, and with what is unfinished
and what is still to be written they are the payload. -/
structure Whole (capacity : Nat) (bytes : ByteArray) (x : Exchange) : Prop where
  reader : x.pipe.hasReader = true
  capacity : x.pipe.capacity = max capacity 1
  room : x.pipe.queue.length ≤ x.pipe.capacity
  small : x.pipe.buffer.size < chunkSize
  writer : x.pipe.hasWriter = x.outcome.isNone
  content : ∃ queued : List ByteArray, x.pipe.queue = queued.map .ok ∧
    (∀ c ∈ x.received ++ queued, Sized c) ∧
    joined (x.received ++ queued) ++ x.pipe.buffer ++ Call.payload x.calls = bytes
  ended : ∀ r, x.outcome = some r → r = .ok () ∧ x.calls = [] ∧ x.pipe.buffer = ByteArray.empty
  heard : ∀ r, x.heard = some r → r = .ok () ∧ x.outcome.isSome ∧ x.pipe.queue = []

theorem whole_start (capacity : Nat) (calls : List Call) :
    Whole capacity (Call.payload calls) (start capacity calls) where
  reader := rfl
  capacity := rfl
  room := Nat.zero_le _
  small := by simp [start, ofCapacity, chunkSize]
  writer := rfl
  content := ⟨[], rfl, by simp [start], by simp [start, ofCapacity]⟩
  ended := fun _ none_yet => by cases none_yet
  heard := fun _ none_yet => by cases none_yet

variable {capacity : Nat} {bytes : ByteArray} {x x' : Exchange}

/-- A call of a writer that goes on puts its bytes behind those that are out. -/
theorem Whole.put (whole : x.Whole capacity bytes) (going : x.outcome = none) {data : ByteArray}
    {chunks : List ByteArray} {p : Pipe} {rest : List Call} (puts : Puts x.pipe data chunks p)
    (told : data ++ Call.payload rest = Call.payload x.calls) :
    Whole capacity bytes { x with pipe := p, calls := rest } := by
  obtain ⟨queued, queue, sized, content⟩ := whole.content
  have same := puts.fed.same
  refine ⟨?_, ?_, ?_, puts.small, ?_, ⟨queued ++ chunks, ?_, ?_, ?_⟩, ?_, ?_⟩
  · rw [same]; exact whole.reader
  · rw [same]; exact whole.capacity
  · have room := puts.room whole.room
    rw [same] at room ⊢
    exact room
  · rw [same]; exact whole.writer
  · rw [same, queue, List.map_append]
  · rw [← List.append_assoc]
    exact List.forall_mem_append.2 ⟨sized, puts.sized⟩
  · calc joined (x.received ++ (queued ++ chunks)) ++ p.buffer ++ Call.payload rest
        = joined (x.received ++ queued) ++ (joined chunks ++ p.buffer) ++ Call.payload rest := by
          simp only [joined_append, ByteArray.append_assoc]
      _ = joined (x.received ++ queued) ++ x.pipe.buffer ++ (data ++ Call.payload rest) := by
          rw [puts.fed.bytes]
          simp only [ByteArray.append_assoc]
      _ = bytes := by rw [told, content]
  · intro r ended
    rw [going] at ended
    cases ended
  · intro r heard
    have gone := (whole.heard r heard).2.1
    rw [going] at gone
    cases gone

/-- A finish puts out what is left. -/
theorem Whole.finish (whole : x.Whole capacity bytes) (going : x.outcome = none)
    (done : x.calls = []) {r : Except WriteFault Unit} {p : Pipe}
    (finished : x.pipe.finish = some (r, p)) :
    Whole capacity bytes { x with pipe := p, outcome := some r } := by
  obtain ⟨rfl, chunks, mid, puts, emptied, rfl⟩ := finish_puts whole.reader whole.small finished
  have nothing_more : ByteArray.empty ++ Call.payload [] = Call.payload x.calls := by
    rw [done]
    rfl
  have flushed := whole.put going puts nothing_more
  exact {
    reader := flushed.reader
    capacity := flushed.capacity
    room := flushed.room
    small := flushed.small
    writer := rfl
    content := by
      obtain ⟨queued, queue, sized, content⟩ := flushed.content
      exact ⟨queued, queue, sized, by rw [done]; exact content⟩
    ended := fun r ended => ⟨(Option.some.inj ended).symm, done, emptied⟩
    heard := fun r heard => by
      have gone := (whole.heard r heard).2.1
      rw [going] at gone
      cases gone }

theorem Whole.stepWriter (whole : x.Whole capacity bytes) (stepped : x.stepWriter = some x') :
    x'.Whole capacity bytes := by
  unfold Exchange.stepWriter at stepped
  split at stepped
  case h_1 => cases stepped
  case h_2 going done =>
    obtain ⟨⟨r, p⟩, finished, rfl⟩ := Option.map_eq_some_iff.1 stepped
    exact whole.finish going done finished
  case h_3 rest going front =>
    obtain ⟨⟨r, p⟩, flushed, rfl⟩ := Option.map_eq_some_iff.1 stepped
    obtain ⟨rfl, -, chunks, puts⟩ := flush_puts whole.reader whole.small flushed
    exact whole.put going puts (by rw [front, ByteArray.empty_append]; rfl)
  case h_4 data rest going front =>
    split at stepped
    case isTrue empty =>
      obtain rfl := Option.some.inj stepped
      have none_left : data = ByteArray.empty := by
        simpa [ByteArray.isEmpty, ByteArray.size_eq_zero_iff] using empty
      have idle : Puts x.pipe ByteArray.empty [] x.pipe :=
        ⟨Fed.nothing x.pipe, whole.small, by simp, by simp, id⟩
      exact whole.put going idle (by rw [front, none_left]; rfl)
    case isFalse =>
      obtain ⟨⟨r, p⟩, wrote, rfl⟩ := Option.map_eq_some_iff.1 stepped
      obtain ⟨rfl, chunks, puts⟩ := write_puts whole.reader whole.small wrote
      refine whole.put going puts ?_
      rw [front, Call.payload, Call.payload, ← ByteArray.append_assoc,
        extract_append_rest data (accepted_le x.pipe data.size)]

theorem Whole.stepReader (whole : x.Whole capacity bytes) (stepped : x.stepReader = some x') :
    x'.Whole capacity bytes := by
  obtain ⟨queued, queue, sized, content⟩ := whole.content
  unfold Exchange.stepReader at stepped
  rcases reading : x.heard with _ | r
  · cases queued with
    | cons c queued =>
        have taken : x.pipe.receive = (.chunk c, { x.pipe with queue := queued.map .ok }) := by
          simp [receive, queue]
        rw [reading, taken] at stepped
        obtain rfl := Option.some.inj stepped
        have onward : x.received ++ [c] ++ queued = x.received ++ c :: queued := by simp
        refine ⟨whole.reader, whole.capacity, ?_, whole.small, whole.writer,
          ⟨queued, rfl, onward ▸ sized, onward ▸ content⟩, whole.ended, ?_⟩
        · have room := whole.room
          rw [queue] at room
          exact Nat.le_of_succ_le room
        · intro r heard
          cases heard
    | nil =>
        have taken : x.pipe.receive = (if x.pipe.hasWriter then .pending else .stop, x.pipe) := by
          simp [receive, queue]
        rw [reading, taken] at stepped
        cases there : x.pipe.hasWriter with
        | true =>
            rw [there] at stepped
            cases stepped
        | false =>
            rw [there] at stepped
            obtain rfl := Option.some.inj stepped
            have gone : x.outcome.isSome = true := by
              have writer := whole.writer
              rw [there] at writer
              simpa using writer.symm
            refine ⟨whole.reader, whole.capacity, whole.room, whole.small, whole.writer,
              whole.content, whole.ended, fun r heard => ?_⟩
            exact ⟨(Option.some.inj heard).symm, gone, queue⟩
  · rw [reading] at stepped
    cases stepped

/-- **Every turn keeps what is on the way.** -/
theorem whole_turn (whole : x.Whole capacity bytes) {party : Party}
    (stepped : x.turn party = some x') : x'.Whole capacity bytes := by
  cases party with
  | writer => exact whole.stepWriter stepped
  | reader => exact whole.stepReader stepped

theorem whole_play (whole : x.Whole capacity bytes) {turns : List Party}
    (played : x.play turns = some x') : x'.Whole capacity bytes := by
  induction turns generalizing x with
  | nil =>
      obtain rfl := Option.some.inj played
      exact whole
  | cons party turns ih =>
      obtain ⟨next, stepped, later⟩ := Option.bind_eq_some_iff.1 played
      exact ih (whole_turn whole stepped) later

/-! ## Coming to the end -/

/-- What is still to be done: every step of the writer puts one chunk on the queue at most. -/
def left (x : Exchange) : Nat :=
  2 * (Call.weight x.calls + if x.outcome.isNone then 1 else 0) + x.pipe.queue.length +
    if x.heard.isNone then 1 else 0

theorem left_lt_of_stepWriter (whole : x.Whole capacity bytes) (stepped : x.stepWriter = some x') :
    x'.left < x.left := by
  unfold Exchange.stepWriter at stepped
  split at stepped
  case h_1 => cases stepped
  case h_2 going done =>
    obtain ⟨⟨r, p⟩, finished, rfl⟩ := Option.map_eq_some_iff.1 stepped
    obtain ⟨-, chunks, mid, puts, -, rfl⟩ := finish_puts whole.reader whole.small finished
    have few := puts.queue_le
    simp only [left, going, Option.isNone_none, Option.isNone_some, Bool.false_eq_true, if_false,
      if_true]
    omega
  case h_3 rest going front =>
    obtain ⟨⟨r, p⟩, flushed, rfl⟩ := Option.map_eq_some_iff.1 stepped
    obtain ⟨rfl, -, chunks, puts⟩ := flush_puts whole.reader whole.small flushed
    have few := puts.queue_le
    simp only [left, front, Call.weight]
    omega
  case h_4 data rest going front =>
    split at stepped
    case isTrue empty =>
      obtain rfl := Option.some.inj stepped
      simp only [left, front, Call.weight]
      omega
    case isFalse more =>
      obtain ⟨⟨r, p⟩, wrote, rfl⟩ := Option.map_eq_some_iff.1 stepped
      obtain ⟨rfl, chunks, puts⟩ := write_puts whole.reader whole.small wrote
      have some_bytes : 0 < data.size := by
        simpa [ByteArray.isEmpty, Nat.pos_iff_ne_zero] using more
      have positive := accepted_pos whole.small some_bytes
      have few := puts.queue_le
      simp only [left, front, Call.weight, ByteArray.size_extract]
      omega

theorem left_lt_of_stepReader (stepped : x.stepReader = some x') : x'.left < x.left := by
  unfold Exchange.stepReader at stepped
  rcases reading : x.heard with _ | r
  · rw [reading] at stepped
    rcases held : x.pipe.queue with _ | ⟨f | bytes, rest⟩
    · cases there : x.pipe.hasWriter with
      | true => simp [receive, held, there] at stepped
      | false =>
          simp only [receive, held, there] at stepped
          obtain rfl := Option.some.inj stepped
          simp [left, reading, held]
    · simp only [receive, held] at stepped
      obtain rfl := Option.some.inj stepped
      simp only [left, reading, held, List.length_cons, Option.isNone_none, Option.isNone_some,
        Bool.false_eq_true, if_false, if_true]
      omega
    · simp only [receive, held] at stepped
      obtain rfl := Option.some.inj stepped
      simp only [left, reading, held, List.length_cons]
      omega
  · rw [reading] at stepped
    cases stepped

/-- **No run goes on forever.** -/
theorem left_lt_of_turn (whole : x.Whole capacity bytes) {party : Party}
    (stepped : x.turn party = some x') : x'.left < x.left := by
  cases party with
  | writer => exact left_lt_of_stepWriter whole stepped
  | reader => exact left_lt_of_stepReader stepped

theorem length_add_left_le (whole : x.Whole capacity bytes) {turns : List Party}
    (played : x.play turns = some x') : turns.length + x'.left ≤ x.left := by
  induction turns generalizing x with
  | nil =>
      obtain rfl := Option.some.inj played
      simp
  | cons party turns ih =>
      obtain ⟨next, stepped, later⟩ := Option.bind_eq_some_iff.1 played
      have shorter := left_lt_of_turn whole stepped
      have rest := ih (whole_turn whole stepped) later
      rw [List.length_cons]
      omega

/-- With room on the queue a writer that has not ended can make its step. -/
theorem exists_stepWriter (going : x.outcome = none) (free : x.pipe.Free) :
    ∃ x', x.stepWriter = some x' := by
  unfold Exchange.stepWriter
  rw [going]
  rcases x.calls with _ | ⟨data | _, rest⟩
  · obtain ⟨r, p, finished⟩ := exists_finish free
    exact ⟨_, by simp only [finished, Option.map_some]; rfl⟩
  · by_cases empty : data.isEmpty = true
    · exact ⟨_, if_pos empty⟩
    · obtain ⟨r, p, wrote⟩ := exists_write free data
      exact ⟨_, by simp only [if_neg empty, wrote, Option.map_some]; rfl⟩
  · obtain ⟨r, p, flushed⟩ := exists_flush free
    exact ⟨_, by simp only [flushed, Option.map_some]; rfl⟩

/-- **Somebody can go on** as long as the reader has not come to the end: it takes what is on the
queue, and when nothing is there the writer has room. -/
theorem exists_turn (whole : x.Whole capacity bytes) (reading : x.heard = none) :
    ∃ party x', x.turn party = some x' := by
  obtain ⟨queued, queue, -, -⟩ := whole.content
  cases queued with
  | cons c queued =>
      refine ⟨.reader, { x with pipe := { x.pipe with queue := queued.map .ok }
                                received := x.received ++ [c] }, ?_⟩
      simp [turn, Exchange.stepReader, reading, receive, queue]
  | nil =>
      cases going : x.outcome with
      | none =>
          have space : 0 < x.pipe.capacity := by
            rw [whole.capacity]
            exact Nat.lt_of_lt_of_le Nat.one_pos (Nat.le_max_right capacity 1)
          have free : x.pipe.Free := fun _ => by
            rw [queue]
            exact space
          obtain ⟨x', stepped⟩ := exists_stepWriter going free
          exact ⟨.writer, x', stepped⟩
      | some r =>
          have gone : x.pipe.hasWriter = false := by simp [whole.writer, going]
          refine ⟨.reader, { x with heard := some (.ok ()) }, ?_⟩
          simp [turn, Exchange.stepReader, reading, receive, queue, gone]

/-- So every run can be brought to the end. -/
theorem exists_end (whole : x.Whole capacity bytes) :
    ∃ turns x', x.play turns = some x' ∧ x'.heard = some (.ok ()) := by
  induction bound : x.left using Nat.strongRecOn generalizing x with
  | ind n ih =>
      cases reading : x.heard with
      | some r =>
          obtain ⟨rfl, -⟩ := whole.heard r reading
          exact ⟨[], x, rfl, reading⟩
      | none =>
          obtain ⟨party, next, stepped⟩ := exists_turn whole reading
          have shorter := left_lt_of_turn whole stepped
          obtain ⟨turns, x', played, ended⟩ :=
            ih next.left (bound ▸ shorter) (whole_turn whole stepped) rfl
          refine ⟨party :: turns, x', ?_, ended⟩
          rw [play, List.foldlM_cons, stepped]
          exact played

/-- What is out when the writer has finished is all of the payload. -/
theorem Whole.delivered (whole : x.Whole capacity bytes) {queued : List ByteArray}
    {r : Except WriteFault Unit} (ended : x.outcome = some r)
    (content : joined (x.received ++ queued) ++ x.pipe.buffer ++ Call.payload x.calls = bytes) :
    joined (x.received ++ queued) = bytes := by
  obtain ⟨-, done, emptied⟩ := whole.ended r ended
  rwa [done, emptied, Call.payload, ByteArray.append_empty, ByteArray.append_empty] at content

/-- **A pipe delivers exactly what is written.**  Whatever calls the writer makes and in whatever
order both parties make their steps:

* no more chunks wait than the pipe holds, each chunk is sized, and what is out, what is unfinished
  and what is still to be written are the payload; once the writer has finished, which succeeds, the
  chunks that are out are all of it;
* a reader that has come to the end came there cleanly, after the finish, and has the payload;
* there is always room in the unfinished chunk, so that a write of some bytes takes one at least,
  and writing all bytes leaves none;
* the run is bounded, and it can be brought to the end. -/
theorem delivers {capacity : Nat} {calls : List Call} {turns : List Party} {x : Exchange}
    (played : (start capacity calls).play turns = some x) :
    (∃ queued : List ByteArray, x.pipe.queue = queued.map .ok ∧ queued.length ≤ max capacity 1 ∧
      (∀ c ∈ x.received ++ queued, 0 < c.size ∧ c.size ≤ chunkSize) ∧
      joined (x.received ++ queued) ++ x.pipe.buffer ++ Call.payload x.calls = Call.payload calls ∧
      ∀ r, x.outcome = some r → r = .ok () ∧ joined (x.received ++ queued) = Call.payload calls) ∧
    (∀ r, x.heard = some r →
      r = .ok () ∧ x.outcome = some (.ok ()) ∧ joined x.received = Call.payload calls) ∧
    (x.pipe.buffer.size < chunkSize ∧ ∀ data : ByteArray,
      (∀ r q, 0 < data.size → x.pipe.write data = some (r, q) →
        ∃ n, r = .ok n ∧ 0 < n ∧ n ≤ data.size) ∧
      ∀ r q, x.pipe.writeAll data = some (r, q) → r = .ok () ∧ ∃ chunks, Fed x.pipe data chunks q) ∧
    turns.length ≤ 2 * Call.weight calls + 3 ∧
    ∃ more x', x.play more = some x' ∧ x'.heard = some (.ok ()) := by
  have whole := whole_play (whole_start capacity calls) played
  have bounded := length_add_left_le (whole_start capacity calls) played
  obtain ⟨queued, queue, sized, content⟩ := whole.content
  refine ⟨⟨queued, queue, ?_, sized, content, ?_⟩, ?_, ⟨whole.small, fun data => ⟨?_, ?_⟩⟩, ?_,
    exists_end whole⟩
  · have room := whole.room
    rwa [queue, List.length_map, whole.capacity] at room
  · intro r ended
    exact ⟨(whole.ended r ended).1, whole.delivered ended content⟩
  · intro r heard
    obtain ⟨rfl, gone, empty⟩ := whole.heard r heard
    obtain ⟨r, ended⟩ := Option.isSome_iff_exists.1 gone
    obtain rfl := (whole.ended r ended).1
    have none_waits : queued = [] := by simpa [queue] using empty
    have delivered := whole.delivered ended content
    rw [none_waits, List.append_nil] at delivered
    exact ⟨rfl, ended, delivered⟩
  · intro r q some_bytes wrote
    exact write_takes whole.reader whole.small some_bytes wrote
  · intro r q wrote
    exact writeAll_open whole.reader whole.small wrote
  · have start_left : (start capacity calls).left = 2 * Call.weight calls + 3 := by
      simp [left, start, ofCapacity]
      omega
    omega

/-- Two writes with a flush between them, through a pipe that holds one chunk: the writer waits
for the reader before it can finish. -/
theorem delivers_in_turns :
    let x : Exchange := ⟨⟨1, [], ⟨#[]⟩, false, true⟩, [], some (.ok ()),
      [⟨#[1, 2]⟩, ⟨#[3]⟩], some (.ok ())⟩
    (start 1 [.writeAll ⟨#[1, 2]⟩, .flush, .writeAll ⟨#[3]⟩]).play
        [.writer, .writer, .writer, .writer, .writer, .reader, .writer, .reader, .reader] = some x ∧
      joined x.received = Call.payload [.writeAll ⟨#[1, 2]⟩, .flush, .writeAll ⟨#[3]⟩] := by
  intro x
  have played : (start 1 [.writeAll ⟨#[1, 2]⟩, .flush, .writeAll ⟨#[3]⟩]).play
      [.writer, .writer, .writer, .writer, .writer, .reader, .writer, .reader, .reader] = some x :=
    rfl
  exact ⟨played, ((delivers played).2.1 (.ok ()) rfl).2.2⟩

end Exchange

end DevMode.Pipe
