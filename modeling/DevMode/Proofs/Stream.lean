/-
# DevMode.Proofs.Stream -- which ends of a stream can be trusted

A `History` is a pipe with what its reader heard and how its writer ended, and `play` takes it
through the steps of both ends in any order, for as long as the reader is there.

* `sound_step`: an ending leaves a fault for the reader exactly if it `tells`, and the fault
  is never lost: it is on the queue, or it was heard.
* `exists_drained`: a reader that goes on gets to the end once the writer has ended.
* `clean_end_iff`: the reader gets to a clean end after a finish, and after a drop on a full
  queue.  The latter is the one ending of a broken stream that is taken for a whole one
  (`clean_end_of_cut_stream`).
-/
import DevMode.Proofs.Pipe

namespace DevMode.Pipe

set_option autoImplicit false

/-! ## Steps of both ends -/

/-- A step at one of the ends: the last two are the reader's. -/
inductive Event where
  | write (data : ByteArray)
  | flush
  | finish
  | abort (reason : String)
  | drop
  | receive
  | receiveAll

def Event.isWriting : Event → Bool
  | receive | receiveAll => false
  | _ => true

/-- How a writer ended.  A drop finds the queue full or not. -/
inductive Ending where
  | finished (result : Except WriteFault Unit)
  | aborted (reason : String)
  | dropped (full : Bool)

/-- Whether an ending leaves a fault for the reader. -/
def Ending.tells : Ending → Bool
  | finished _ => false
  | aborted _ => true
  | dropped full => !full

/-- What the reader got from one of its steps. -/
inductive Reading where
  | next (received : Received)
  | all (result : Option (Except StreamFault ByteArray))

namespace Reading

def isEnd : Reading → Bool
  | next .stop => true
  | all (some (.ok _)) => true
  | _ => false

def isFault : Reading → Bool
  | next (.fault _) => true
  | all (some (.error _)) => true
  | _ => false

end Reading

/-- A pipe, what its reader heard so far, and how its writer ended if it did. -/
structure History where
  pipe : Pipe
  heard : List Reading
  ending : Option Ending

namespace History

def start (capacity : Nat) : History := ⟨ofCapacity capacity, [], none⟩

def act (h : History) : Event → Option History
  | .write data => (h.pipe.write data).map fun (_, p) => { h with pipe := p }
  | .flush => h.pipe.flush.map fun (_, p) => { h with pipe := p }
  | .finish => h.pipe.finish.map fun (r, p) => { h with pipe := p, ending := some (.finished r) }
  | .abort reason =>
    (h.pipe.abort reason).map fun p => { h with pipe := p, ending := some (.aborted reason) }
  | .drop =>
    some { h with pipe := h.pipe.drop
                  ending := some (.dropped (h.pipe.capacity ≤ h.pipe.queue.length)) }
  | .receive =>
    some { h with pipe := h.pipe.receive.2, heard := h.heard ++ [.next h.pipe.receive.1] }
  | .receiveAll =>
    some { h with pipe := h.pipe.receiveAll.2, heard := h.heard ++ [.all h.pipe.receiveAll.1] }

/-- A step, if it is possible: the writer makes none once it has ended, and none while it has
to wait. -/
def step (h : History) (e : Event) : Option History :=
  if e.isWriting && !h.pipe.hasWriter then none else h.act e

def play (h : History) (events : List Event) : Option History := events.foldlM step h

/-- The reader has come to the end of the stream. -/
def AtEnd (h : History) : Prop := h.heard.any Reading.isEnd = true

def Faulty (h : History) : Prop := h.heard.any Reading.isFault = true

/-- The reader has come to the end and heard of no fault. -/
def CleanEnd (h : History) : Prop := h.AtEnd ∧ ¬ h.Faulty

/-! ## Faults on the queue -/

def isFault : Except StreamFault ByteArray → Bool
  | .ok _ => false
  | .error _ => true

@[simp] theorem any_isFault_data (chunks : List ByteArray) :
    (chunks.map Except.ok).any isFault = false := by
  simp [isFault]

/-- Reading all of a queue hears its first fault, or takes everything. -/
theorem gather_isFault {hasWriter : Bool} (out : ByteArray) (queue : List (Except StreamFault ByteArray)) :
    ((Reading.all (gather hasWriter out queue).1).isFault || (gather hasWriter out queue).2.any isFault) =
      queue.any isFault := by
  induction queue generalizing out with
  | nil => cases hasWriter <;> rfl
  | cons chunk queue ih =>
      cases chunk with
      | ok bytes => simpa [gather, isFault] using ih (out ++ bytes)
      | error e => simp [gather, isFault, Reading.isFault]

theorem gather_isEnd {hasWriter : Bool} {out : ByteArray} {queue : List (Except StreamFault ByteArray)}
    (ended : (Reading.all (gather hasWriter out queue).1).isEnd = true) :
    hasWriter = false ∧ (gather hasWriter out queue).2 = [] := by
  induction queue generalizing out with
  | nil => cases hasWriter <;> simp_all [gather, Reading.isEnd]
  | cons chunk queue ih =>
      cases chunk with
      | ok bytes => exact ih ended
      | error e => simp [gather, Reading.isEnd] at ended

/-- One thing is taken off the queue, and heard. -/
theorem receive_isFault (p : Pipe) :
    ((Reading.next p.receive.1).isFault || p.receive.2.queue.any isFault) = p.queue.any isFault := by
  unfold receive
  rcases held : p.queue with _ | ⟨_ | _, rest⟩
  · cases p.hasWriter <;> simp [held, Reading.isFault]
  · simp [isFault, Reading.isFault]
  · simp [isFault, Reading.isFault]

theorem receive_isEnd {p : Pipe} (ended : (Reading.next p.receive.1).isEnd = true) :
    p.hasWriter = false ∧ p.receive.2.queue = [] := by
  unfold receive at ended ⊢
  rcases held : p.queue with _ | ⟨_ | _, rest⟩ <;> simp only [held] at ended ⊢
  · cases there : p.hasWriter <;> simp_all [Reading.isEnd]
  · simp [Reading.isEnd] at ended
  · simp [Reading.isEnd] at ended

/-- A reader's step leaves all but the queue. -/
theorem receive_rest (p : Pipe) : p.receive.2 = { p with queue := p.receive.2.queue } := by
  unfold receive
  rcases p.queue with _ | ⟨_ | _, _⟩ <;> rfl

theorem receiveAll_rest (p : Pipe) : p.receiveAll.2 = { p with queue := p.receiveAll.2.queue } := rfl

/-! ## What holds throughout -/

/-- **Faults are not lost.**  A fault is on the queue or was heard exactly if the writer's
ending tells; who is at the end has emptied the queue of a writer that is gone. -/
structure Sound (h : History) : Prop where
  reader : h.pipe.hasReader = true
  room : 0 < h.pipe.capacity
  writer : h.pipe.hasWriter = h.ending.isNone
  spent : h.AtEnd → h.pipe.hasWriter = false ∧ h.pipe.queue = []
  faults : (h.heard.any Reading.isFault || h.pipe.queue.any isFault) = h.ending.any Ending.tells
  finish : ∀ r, h.ending = some (.finished r) → r = .ok ()

theorem sound_start (capacity : Nat) : (start capacity).Sound where
  reader := rfl
  room := Nat.lt_of_lt_of_le Nat.one_pos (Nat.le_max_right capacity 1)
  writer := rfl
  spent ended := by simp [start, AtEnd] at ended
  faults := rfl
  finish r none_yet := by simp [start] at none_yet

/-- Data on the queue of a writer that is there changes nothing of this. -/
theorem Sound.fed {h : History} {data : ByteArray} {chunks : List ByteArray} {p : Pipe}
    (sound : h.Sound) (there : h.pipe.hasWriter = true) (fed : Fed h.pipe data chunks p) :
    Sound { h with pipe := p } := by
  rw [fed.same]
  exact {
    reader := sound.reader
    room := sound.room
    writer := sound.writer
    spent := fun ended => by simp [(sound.spent ended).1] at there
    faults := by
      rw [List.any_append, any_isFault_data, Bool.or_false]
      exact sound.faults
    finish := sound.finish }

/-- An ending puts onto the queue what it tells. -/
theorem Sound.closed {h : History} {last : List (Except StreamFault ByteArray)} {buffer : ByteArray}
    {e : Ending} (sound : h.Sound) (there : h.pipe.hasWriter = true)
    (told : last.any isFault = e.tells) (fine : ∀ r, e = .finished r → r = .ok ()) :
    Sound ⟨{ h.pipe with queue := h.pipe.queue ++ last, buffer := buffer, hasWriter := false },
      h.heard, some e⟩ := by
  have quiet : (h.heard.any Reading.isFault || h.pipe.queue.any isFault) = false := by
    have writing : h.ending = none := by
      simpa [there] using sound.writer
    simpa [writing] using sound.faults
  exact {
    reader := sound.reader
    room := sound.room
    writer := rfl
    spent := fun ended => by simp [(sound.spent ended).1] at there
    faults := by
      rw [List.any_append, ← Bool.or_assoc, quiet, told]
      rfl
    finish := fun r same => fine r (Option.some.inj same) }

/-- A reading takes off the queue what it hears. -/
theorem Sound.heard {h : History} {r : Reading} {rest : List (Except StreamFault ByteArray)}
    (sound : h.Sound) (taken : (r.isFault || rest.any isFault) = h.pipe.queue.any isFault)
    (ended : r.isEnd = true → h.pipe.hasWriter = false ∧ rest = [])
    (empty : h.pipe.queue = [] → rest = []) :
    Sound ⟨{ h.pipe with queue := rest }, h.heard ++ [r], h.ending⟩ where
  reader := sound.reader
  room := sound.room
  writer := sound.writer
  spent atEnd := by
    simp only [AtEnd, List.any_append, List.any_cons, List.any_nil, Bool.or_false,
      Bool.or_eq_true] at atEnd
    rcases atEnd with before | now
    · exact ⟨(sound.spent before).1, empty (sound.spent before).2⟩
    · exact ended now
  faults := by
    rw [List.any_append, List.any_cons, List.any_nil, Bool.or_false, Bool.or_assoc, taken]
    exact sound.faults
  finish := sound.finish

/-- **Every step keeps faults.** -/
theorem sound_step {h h' : History} {e : Event} (sound : h.Sound) (stepped : h.step e = some h') :
    h'.Sound := by
  unfold step at stepped
  split at stepped
  · simp at stepped
  rename_i possible
  have there : e.isWriting = true → h.pipe.hasWriter = true := by
    intro writing
    simpa [writing] using possible
  cases e with
  | write data =>
      obtain ⟨⟨r, p⟩, wrote, rfl⟩ := Option.map_eq_some_iff.1 stepped
      obtain ⟨-, -, chunks, -, fed⟩ := write_open sound.reader wrote
      exact sound.fed (there rfl) fed
  | flush =>
      obtain ⟨⟨r, p⟩, flushed, rfl⟩ := Option.map_eq_some_iff.1 stepped
      obtain ⟨-, -, chunks, -, fed⟩ := flush_open sound.reader flushed
      exact sound.fed (there rfl) fed
  | finish =>
      obtain ⟨⟨r, p⟩, finished, rfl⟩ := Option.map_eq_some_iff.1 stepped
      obtain ⟨rfl, chunks, -, -, rfl⟩ := finish_open sound.reader finished
      exact sound.closed (there rfl) (any_isFault_data chunks) (by simp)
  | abort reason =>
      obtain ⟨p, aborted, rfl⟩ := Option.map_eq_some_iff.1 stepped
      rw [abort_open sound.reader aborted]
      exact sound.closed (there rfl) rfl (by simp)
  | drop =>
      obtain rfl := Option.some.inj stepped
      rcases Nat.lt_or_ge h.pipe.queue.length h.pipe.capacity with room | full
      · rw [drop_of_room sound.reader room]
        exact sound.closed (there rfl) (by simp [isFault, Ending.tells, room]) (by simp)
      · have nothing_sent : { h.pipe with hasWriter := false } =
            { h.pipe with queue := h.pipe.queue ++ [], hasWriter := false } := by
          rw [List.append_nil]
        rw [drop_of_full sound.reader full, nothing_sent]
        exact sound.closed (there rfl) (by simp [Ending.tells, full]) (by simp)
  | receive =>
      obtain rfl : History.mk h.pipe.receive.2 (h.heard ++ [Reading.next h.pipe.receive.1]) h.ending = h' :=
        Option.some.inj stepped
      rw [receive_rest h.pipe]
      refine sound.heard (receive_isFault h.pipe) receive_isEnd fun empty => ?_
      simp [receive, empty]
  | receiveAll =>
      obtain rfl : History.mk h.pipe.receiveAll.2 (h.heard ++ [Reading.all h.pipe.receiveAll.1]) h.ending = h' :=
        Option.some.inj stepped
      rw [receiveAll_rest h.pipe]
      refine sound.heard (gather_isFault _ _) gather_isEnd fun empty => ?_
      simp [receiveAll, empty, gather]

theorem sound_play {h h' : History} {events : List Event} (sound : h.Sound)
    (played : h.play events = some h') : h'.Sound := by
  induction events generalizing h with
  | nil =>
      obtain rfl := Option.some.inj played
      exact sound
  | cons e events ih =>
      obtain ⟨next, stepped, later⟩ := Option.bind_eq_some_iff.1 played
      exact ih (sound_step sound stepped) later

/-! ## The end -/

/-- **A reader that goes on gets to the end** once the writer has ended. -/
theorem exists_drained {h : History} {e : Ending} (sound : h.Sound) (ended : h.ending = some e) :
    ∃ h', h.play (List.replicate (h.pipe.queue.length + 1) .receive) = some h' ∧
      h'.AtEnd ∧ h'.ending = some e := by
  have gone : h.pipe.hasWriter = false := by simp [sound.writer, ended]
  induction length : h.pipe.queue.length generalizing h with
  | zero =>
      have empty : h.pipe.queue = [] := List.eq_nil_of_length_eq_zero length
      refine ⟨{ h with heard := h.heard ++ [.next .stop] }, ?_, ?_, ended⟩
      · simp [play, step, act, Event.isWriting, receive, empty, gone]
      · simp [AtEnd, Reading.isEnd]
  | succ n ih =>
      obtain ⟨next, stepped, shorter, kept⟩ : ∃ next, h.step .receive = some next ∧
          next.pipe.queue.length = n ∧ next.ending = h.ending := by
        refine ⟨_, rfl, ?_, rfl⟩
        rcases held : h.pipe.queue with _ | ⟨_ | _, rest⟩ <;> simp_all [receive]
      have sound' := sound_step sound stepped
      have ended' : next.ending = some e := kept.trans ended
      obtain ⟨h', played, atEnd, still⟩ := ih sound' ended' (by simp [sound'.writer, ended']) shorter
      refine ⟨h', ?_, atEnd, still⟩
      rw [List.replicate_succ, play, List.foldlM_cons, stepped]
      exact played

theorem Sound.faulty_iff {h : History} (sound : h.Sound) (atEnd : h.AtEnd) :
    h.Faulty ↔ ∃ e, h.ending = some e ∧ e.tells = true := by
  have heard := sound.faults
  rw [(sound.spent atEnd).2, List.any_nil, Bool.or_false] at heard
  rw [Faulty, heard, Option.any_eq_true]

theorem Sound.cleanEnd_iff {h : History} (sound : h.Sound) :
    h.CleanEnd ↔
      h.AtEnd ∧ (h.ending = some (.finished (.ok ())) ∨ h.ending = some (.dropped true)) := by
  rw [CleanEnd, and_congr_right_iff]
  intro atEnd
  rw [sound.faulty_iff atEnd]
  have ended := sound.writer.symm.trans (sound.spent atEnd).1
  rcases ending : h.ending with _ | (r | reason | full)
  · simp [ending] at ended
  · simp [Ending.tells, sound.finish r ending]
  · simp [Ending.tells]
  · simp [Ending.tells]

/-- **A stream ends cleanly exactly after a finish, which succeeds, and after a drop on a full
queue.**  Whatever the writer's ending was, the reader can go on to the end, and it hears a
fault after an abort and after a drop that found room. -/
theorem clean_end_iff {capacity : Nat} {events : List Event} {h : History}
    (played : (start capacity).play events = some h) :
    (h.CleanEnd ↔
      h.AtEnd ∧ (h.ending = some (.finished (.ok ())) ∨ h.ending = some (.dropped true))) ∧
    ∀ e, h.ending = some e →
      ∃ h', h.play (List.replicate (h.pipe.queue.length + 1) .receive) = some h' ∧ h'.AtEnd ∧
        (h'.Faulty ↔ (∃ reason, e = .aborted reason) ∨ e = .dropped false) := by
  have sound := sound_play (sound_start capacity) played
  refine ⟨sound.cleanEnd_iff, fun e ended => ?_⟩
  obtain ⟨h', drained, atEnd, still⟩ := exists_drained sound ended
  refine ⟨h', drained, atEnd, ?_⟩
  rw [(sound_play sound drained).faulty_iff atEnd, still]
  cases e <;> simp [Ending.tells]

/-- An aborted stream comes to its end too, and not cleanly. -/
theorem clean_end_iff_of_abort :
    let h : History := ⟨⟨1, [], ⟨#[]⟩, false, true⟩,
      [.next (.chunk ⟨#[1]⟩), .next (.fault (.aborted "gone")), .next .stop], some (.aborted "gone")⟩
    (start 1).play [.write ⟨#[1]⟩, .flush, .receive, .abort "gone", .receive, .receive] = some h ∧
      h.AtEnd ∧ ¬ h.CleanEnd := by
  intro h
  have played : (start 1).play
      [.write ⟨#[1]⟩, .flush, .receive, .abort "gone", .receive, .receive] = some h := rfl
  refine ⟨played, rfl, fun clean => ?_⟩
  have ended := ((clean_end_iff played).1.1 clean).2
  simp [h] at ended

/-- A writer that goes away while its first byte fills the queue and its second is not yet
sent, and a reader that takes what is there. -/
def cutStream : List Event :=
  [.write ⟨#[1]⟩, .flush, .write ⟨#[2]⟩, .drop, .receive, .receive]

/-- **A cut stream can be taken for a whole one**: the reader has the first of two bytes and a
clean end. -/
theorem clean_end_of_cut_stream :
    let h : History := ⟨⟨1, [], ⟨#[2]⟩, false, true⟩, [.next (.chunk ⟨#[1]⟩), .next .stop],
      some (.dropped true)⟩
    (start 1).play cutStream = some h ∧ h.CleanEnd ∧ h.ending ≠ some (.finished (.ok ())) := by
  intro h
  refine ⟨rfl, ⟨rfl, ?_⟩, by simp [h]⟩
  simp [h, Faulty, Reading.isFault]

end History

end DevMode.Pipe
