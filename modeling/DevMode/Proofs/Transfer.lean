/-
# DevMode.Proofs.Transfer -- what a transfer comes to on every schedule

Writer and uploader make their steps in any order (`Step`).  Whoever has not ended can go on
or waits for one who can (`exists_step`), and no run goes on forever (`left_lt_of_step`).  So
every run comes to an end with both parties done, and `Stage` says what they came to:

* while the uploader reads, what it has, what is on the queue and what is still to be written
  are together the bytes of the script (`Whole`);
* an uploader that is done either has all of them, or was told of the writer's failure, or has
  refused; and then the writer tells how its script ended or that its pipe broke.
-/
import DevMode.Proofs.Pipe
import DevMode.Sync.Transfer
import Mathlib.Logic.Relation

namespace DevMode.Sync

set_option autoImplicit false

/-- The bytes of writes in a row. -/
def written (writes : List Write) : ByteArray := Pipe.joined (writes.map Write.bytes)

@[simp] theorem written_nil : written [] = ByteArray.empty := rfl

@[simp] theorem written_cons (w : Write) (ws : List Write) :
    written (w :: ws) = w.bytes ++ written ws := rfl

theorem foldl_append_bytes (out : ByteArray) (writes : List Write) :
    writes.foldl (fun out w => out ++ w.bytes) out = out ++ written writes := by
  induction writes generalizing out with
  | nil => simp
  | cons w ws ih => simp [ih, ByteArray.append_assoc]

theorem Script.bytes_eq (s : Script) : s.bytes = written s.writes := by
  simp [bytes, foldl_append_bytes]

def Uploader.isDone : Uploader → Bool
  | finished _ => true
  | _ => false

@[simp] theorem Uploader.isDone_refusing (e : PlatformError) : (refusing e).isDone = false := rfl

@[simp] theorem Uploader.isDone_reading (bytes : ByteArray) : (reading bytes).isDone = false := rfl

@[simp] theorem Uploader.isDone_finished (r : Except PlatformError ByteArray) :
    (finished r).isDone = true := rfl

namespace Transfer

/-! ## Steps -/

/-- The steps of a writer. -/
inductive Writes : Transfer → Transfer → Prop where
  | skip {t : Transfer} {w : Write} {rest : List Write} (here : t.archived = none)
      (front : t.writes = w :: rest) (empty : w.bytes.size = 0) : Writes t { t with writes := rest }
  | part {t : Transfer} {w : Write} {rest : List Write} {n : Nat} {p : Pipe}
      (here : t.archived = none) (front : t.writes = w :: rest) (some_bytes : 0 < w.bytes.size)
      (wrote : t.pipe.write w.bytes = some (.ok n, p)) :
      Writes t { t with pipe := p, writes := ⟨w.path, w.bytes.extract n w.bytes.size⟩ :: rest }
  | broken {t : Transfer} {w : Write} {rest : List Write} {e : WriteFault} {p : Pipe}
      (here : t.archived = none) (front : t.writes = w :: rest)
      (wrote : t.pipe.write w.bytes = some (.error e, p)) :
      Writes t { t with pipe := p, writes := [], outcome := .error (.io w.path (.pipe e)) }
  | finish {t : Transfer} {n : Nat} {r : Except WriteFault Unit} {p : Pipe}
      (here : t.archived = none) (front : t.writes = []) (outcome : t.outcome = .ok n)
      (finished : t.pipe.finish = some (r, p)) :
      Writes t { t with pipe := p
                        archived := some ((r.map fun _ => n).mapError fun e => .io t.remote (.pipe e)) }
  | abort {t : Transfer} {e : SyncError} {p : Pipe} (here : t.archived = none)
      (front : t.writes = []) (outcome : t.outcome = .error e)
      (aborted : t.pipe.abort e.message = some p) :
      Writes t { t with pipe := p, archived := some (.error e) }

theorem writes_of_stepWriter {t t' : Transfer} (stepped : t.stepWriter = some t') : Writes t t' := by
  unfold stepWriter at stepped
  split at stepped
  case h_1 => simp at stepped
  case h_2 here front =>
    unfold close at stepped
    split at stepped
    case h_1 n outcome =>
      split at stepped
      · simp at stepped
      · rename_i p finished
        obtain rfl := Option.some.inj stepped
        exact .finish here front outcome finished
      · rename_i e p finished
        obtain rfl := Option.some.inj stepped
        exact .finish here front outcome finished
    case h_2 e outcome =>
      obtain ⟨p, aborted, rfl⟩ := Option.map_eq_some_iff.1 stepped
      exact .abort here front outcome aborted
  case h_3 w rest here front =>
    unfold writeNext at stepped
    split at stepped
    case isTrue empty =>
      obtain rfl := Option.some.inj stepped
      exact .skip here front (by simpa [ByteArray.isEmpty] using empty)
    case isFalse some_bytes =>
      have positive : 0 < w.bytes.size := by
        simpa [ByteArray.isEmpty, Nat.pos_iff_ne_zero] using some_bytes
      split at stepped
      · simp at stepped
      · rename_i n p wrote
        obtain rfl := Option.some.inj stepped
        exact .part here front positive wrote
      · rename_i e p wrote
        obtain rfl := Option.some.inj stepped
        exact .broken here front wrote

/-- The steps of an uploader. -/
inductive Uploads : Transfer → Transfer → Prop where
  | refuse {t : Transfer} {e : PlatformError} (stands : t.uploader = .refusing e) :
      Uploads t (t.leave t.pipe (.error e))
  | take {t : Transfer} {received bytes : ByteArray} {rest : List (Except StreamFault ByteArray)}
      (stands : t.uploader = .reading received) (front : t.pipe.queue = .ok bytes :: rest) :
      Uploads t { t with pipe := { t.pipe with queue := rest }
                         uploader := .reading (received ++ bytes) }
  | fault {t : Transfer} {received : ByteArray} {f : StreamFault}
      {rest : List (Except StreamFault ByteArray)} (stands : t.uploader = .reading received)
      (front : t.pipe.queue = .error f :: rest) : Uploads t (t.leave t.pipe (.error (.io f.message)))
  | stop {t : Transfer} {received : ByteArray} (stands : t.uploader = .reading received)
      (empty : t.pipe.queue = []) (gone : t.pipe.hasWriter = false) :
      Uploads t (t.leave t.pipe (.ok received))

theorem uploads_of_stepUploader {t t' : Transfer} (stepped : t.stepUploader = some t') :
    Uploads t t' := by
  unfold stepUploader at stepped
  split at stepped
  case h_1 => simp at stepped
  case h_2 e stands =>
    obtain rfl := Option.some.inj stepped
    exact .refuse stands
  case h_3 received stands =>
    rcases held : t.pipe.queue with _ | ⟨f | bytes, rest⟩
    · cases there : t.pipe.hasWriter with
      | true => simp [Pipe.receive, held, there] at stepped
      | false =>
          obtain rfl : t.leave t.pipe (.ok received) = t' := by
            simpa [Pipe.receive, held, there] using stepped
          exact .stop stands held there
    · obtain rfl : t.leave { t.pipe with queue := rest } (.error (.io f.message)) = t' := by
        simpa [Pipe.receive, held] using stepped
      exact .fault stands held
    · simp only [Pipe.receive, held] at stepped
      obtain rfl := Option.some.inj stepped
      exact .take stands held

def Step (t t' : Transfer) : Prop := t.stepWriter = some t' ∨ t.stepUploader = some t'

/-- **Every step is one of these.** -/
theorem Step.cases {t t' : Transfer} (stepped : t.Step t') : Writes t t' ∨ Uploads t t' :=
  stepped.imp writes_of_stepWriter uploads_of_stepUploader

/-! ## Ends and progress -/

/-- Both parties know of each other, and the pipe has room for something. -/
structure Formed (t : Transfer) : Prop where
  room : 0 < t.pipe.capacity
  small : t.pipe.buffer.size < Pipe.chunkSize
  reader : t.pipe.hasReader = !t.uploader.isDone
  writer : t.pipe.hasWriter = t.archived.isNone

/-- A bound on the steps that are left: what is to be written and read, and both ends. -/
def left (t : Transfer) : Nat :=
  2 * (total (t.writes.map fun w => w.bytes.size) + t.writes.length) + t.pipe.queue.length +
    2 * t.archived.isNone.toNat + (!t.uploader.isDone).toNat

theorem formed_start (remote : String) (s : Script) (answer : Except PlatformError Unit) :
    (start remote s answer).Formed where
  room := Nat.lt_of_lt_of_le Nat.one_pos (Nat.le_max_right pipeCapacity 1)
  small := by simp [start, Pipe.ofCapacity, Pipe.chunkSize]
  reader := by cases answer <;> rfl
  writer := rfl

theorem left_start_le (remote : String) (s : Script) (answer : Except PlatformError Unit) :
    (start remote s answer).left ≤ (start remote s answer).stepBound := by
  cases answer <;>
    simp only [left, stepBound, start, Pipe.ofCapacity, List.length_nil, Option.isNone_none,
      Uploader.isDone_reading, Uploader.isDone_refusing, Bool.not_false, Bool.toNat_true] <;>
    omega

theorem Formed.kept {t : Transfer} {p : Pipe} (formed : t.Formed) (kept : Pipe.Kept t.pipe p)
    (writes : List Write) (outcome : Except SyncError Nat)
    {archived : Option (Except SyncError Nat)} (writer : p.hasWriter = archived.isNone) :
    Formed ⟨t.remote, p, writes, outcome, archived, t.uploader⟩ where
  room := by
    rw [kept.capacity]
    exact formed.room
  small := kept.small
  reader := kept.reader.trans formed.reader
  writer := writer

theorem Writes.formed {t t' : Transfer} (formed : t.Formed) (stepped : Writes t t') :
    t'.Formed ∧ t'.left < t.left := by
  cases stepped with
  | skip here front empty =>
      refine ⟨⟨formed.room, formed.small, formed.reader, formed.writer⟩, ?_⟩
      simp only [left, front, List.map_cons, total_cons, List.length_cons]
      omega
  | part here front some_bytes wrote =>
      rename_i w rest n p
      obtain ⟨kept, writer, told⟩ := Pipe.write_kept wrote
      refine ⟨formed.kept kept _ _ (writer.trans formed.writer), ?_⟩
      have queue := kept.queue
      have some_taken := Pipe.accepted_pos formed.small some_bytes
      rw [← told n rfl] at some_taken
      simp only [left, front, List.map_cons, total_cons, List.length_cons, ByteArray.size_extract]
      omega
  | broken here front wrote =>
      obtain ⟨kept, writer, -⟩ := Pipe.write_kept wrote
      refine ⟨formed.kept kept _ _ (writer.trans formed.writer), ?_⟩
      have queue := kept.queue
      simp only [left, front, List.map_nil, total_nil, List.map_cons, total_cons, List.length_nil,
        List.length_cons]
      omega
  | finish here front outcome finished =>
      obtain ⟨kept, gone⟩ := Pipe.finish_kept finished
      refine ⟨formed.kept kept _ _ gone, ?_⟩
      have queue := kept.queue
      simp only [left, here, Option.isNone_none, Option.isNone_some, Bool.toNat_true,
        Bool.toNat_false]
      omega
  | abort here front outcome aborted =>
      obtain ⟨kept, gone⟩ := Pipe.abort_kept formed.small aborted
      refine ⟨formed.kept kept _ _ gone, ?_⟩
      have queue := kept.queue
      simp only [left, here, Option.isNone_none, Option.isNone_some, Bool.toNat_true,
        Bool.toNat_false]
      omega

/-- An uploader that leaves has fewer steps before it. -/
theorem Formed.leave {t : Transfer} (formed : t.Formed) (here : t.uploader.isDone = false)
    (result : Except PlatformError ByteArray) :
    (t.leave t.pipe result).Formed ∧ (t.leave t.pipe result).left < t.left := by
  refine ⟨⟨formed.room, formed.small, rfl, formed.writer⟩, ?_⟩
  simp only [left, Transfer.leave, Pipe.closeReader, Uploader.isDone_finished, here, List.length_nil,
    Bool.not_true, Bool.not_false, Bool.toNat_true, Bool.toNat_false]
  omega

theorem Uploads.formed {t t' : Transfer} (formed : t.Formed) (stepped : Uploads t t') :
    t'.Formed ∧ t'.left < t.left := by
  cases stepped with
  | refuse stands => exact formed.leave (by rw [stands]; rfl) _
  | take stands front =>
      refine ⟨⟨formed.room, formed.small, ?_, formed.writer⟩, ?_⟩
      · rw [formed.reader, stands]
        rfl
      · simp only [left, front, stands, Uploader.isDone_reading, List.length_cons]
        omega
  | fault stands front => exact formed.leave (by rw [stands]; rfl) _
  | stop stands empty gone => exact formed.leave (by rw [stands]; rfl) _

/-- **No step is for nothing.** -/
theorem left_lt_of_step {t t' : Transfer} (formed : t.Formed) (stepped : t.Step t') :
    t'.Formed ∧ t'.left < t.left :=
  stepped.cases.elim (Writes.formed formed) (Uploads.formed formed)

theorem exists_stepWriter {t : Transfer} (here : t.archived = none) (free : t.pipe.Free) :
    ∃ t', t.stepWriter = some t' := by
  simp only [stepWriter, here]
  rcases t.writes with _ | ⟨w, rest⟩
  · rcases outcome : t.outcome with e | n
    · obtain ⟨p, aborted⟩ := Pipe.exists_abort free e.message
      simp only [close, outcome, aborted, Option.map_some]
      exact ⟨_, rfl⟩
    · obtain ⟨r, p, finished⟩ := Pipe.exists_finish free
      cases r <;> simp only [close, outcome, finished] <;> exact ⟨_, rfl⟩
  · by_cases empty : w.bytes.isEmpty = true
    · simp only [writeNext, empty, if_true]
      exact ⟨_, rfl⟩
    · obtain ⟨r, p, wrote⟩ := Pipe.exists_write free w.bytes
      cases r <;> simp only [writeNext, empty, if_false, wrote, Bool.false_eq_true] <;> exact ⟨_, rfl⟩

/-- **Nobody waits for nothing**: while a party has not ended, one of them can go on. -/
theorem exists_step {t : Transfer} (formed : t.Formed)
    (going : t.archived = none ∨ t.uploader.isDone = false) : ∃ t', t.Step t' := by
  cases stands : t.uploader with
  | refusing e => exact ⟨_, .inr (by simp only [stepUploader, stands]; rfl)⟩
  | finished result =>
      have here : t.archived = none := by simpa [stands] using going
      have nobody : t.pipe.Free := fun reader => by
        simp [formed.reader, stands] at reader
      obtain ⟨t', stepped⟩ := exists_stepWriter here nobody
      exact ⟨t', .inl stepped⟩
  | reading received =>
      rcases held : t.pipe.queue with _ | ⟨f | bytes, rest⟩
      · cases here : t.archived with
        | none =>
            have free : t.pipe.Free := fun _ => by simpa [held] using formed.room
            obtain ⟨t', stepped⟩ := exists_stepWriter here free
            exact ⟨t', .inl stepped⟩
        | some a =>
            have gone : t.pipe.hasWriter = false := by simp [formed.writer, here]
            exact ⟨_, .inr (by simp only [stepUploader, stands, Pipe.receive, held, gone]; rfl)⟩
      · exact ⟨_, .inr (by simp only [stepUploader, stands, Pipe.receive, held]; rfl)⟩
      · exact ⟨_, .inr (by simp only [stepUploader, stands, Pipe.receive, held]; rfl)⟩

/-! ## What was sent and what was read -/

/-- While nobody has left the pipe, nothing is lost: what was received, what is on the queue,
what stands in the unfinished chunk and what is to be written are the bytes of the script.  A
finished writer has sent them all, and a failed one has said so last. -/
inductive Whole (s : Script) (received : ByteArray) (t : Transfer) : Prop where
  | writing (chunks : List ByteArray) (here : t.archived = none) (outcome : t.outcome = s.outcome)
      (queue : t.pipe.queue = chunks.map .ok)
      (bytes : received ++ Pipe.joined chunks ++ t.pipe.buffer ++ written t.writes = s.bytes)
  | finished (chunks : List ByteArray) (n : Nat) (outcome : s.outcome = .ok n)
      (archived : t.archived = some (.ok n)) (queue : t.pipe.queue = chunks.map .ok)
      (bytes : received ++ Pipe.joined chunks = s.bytes)
  | failed (chunks : List ByteArray) (e : SyncError) (outcome : s.outcome = .error e)
      (archived : t.archived = some (.error e))
      (queue : t.pipe.queue = chunks.map .ok ++ [.error (.aborted e.message)])

/-- A writer broke off because nobody reads. -/
def IsBroken (r : Except SyncError Nat) : Prop := ∃ path f, r = .error (.io path (.pipe f))

/-- Once the reader is gone, a writer ends as its script does or breaks off. -/
def Refused (s : Script) (t : Transfer) : Prop :=
  match t.archived with
  | none => t.outcome = s.outcome ∨ IsBroken t.outcome
  | some r => r = s.outcome ∨ IsBroken r

/-- **Where a transfer stands.** -/
def Stage (s : Script) (answer : Except PlatformError Unit) (t : Transfer) : Prop :=
  match t.uploader with
  | .refusing e => answer = .error e ∧ Whole s ByteArray.empty t
  | .reading received => answer = .ok () ∧ Whole s received t
  | .finished (.ok bytes) =>
    answer = .ok () ∧ bytes = s.bytes ∧ ∃ n, s.outcome = .ok n ∧ t.archived = some (.ok n)
  | .finished (.error e) =>
    (answer = .error e ∧ Refused s t) ∨
      (answer = .ok () ∧ ∃ e', s.outcome = .error e' ∧ t.archived = some (.error e'))

theorem stage_start (remote : String) (s : Script) (answer : Except PlatformError Unit) :
    Stage s answer (start remote s answer) := by
  have whole : Whole s ByteArray.empty (start remote s answer) :=
    .writing [] rfl rfl rfl (by simp [start, Pipe.ofCapacity, Script.bytes_eq])
  cases answer <;> exact ⟨rfl, whole⟩

/-- **A writer's step loses nothing** while the pipe is read. -/
theorem Writes.whole {s : Script} {received : ByteArray} {t t' : Transfer}
    (reader : t.pipe.hasReader = true) (whole : Whole s received t) (stepped : Writes t t') :
    Whole s received t' := by
  -- A writer that steps has not ended yet.
  obtain ⟨chunks, unended, same, queue, bytes⟩ | ⟨_, _, _, ended, _, _⟩ | ⟨_, _, _, ended, _⟩ := whole
  rotate_left
  · cases stepped <;> simp_all
  · cases stepped <;> simp_all
  cases stepped with
  | skip here front empty =>
      refine .writing chunks unended same queue ?_
      rw [front, written_cons, ByteArray.size_eq_zero_iff.1 empty, ByteArray.empty_append] at bytes
      exact bytes
  | part here front some_bytes wrote =>
      rename_i w rest n p
      obtain ⟨took, -, more, -, fed⟩ := Pipe.write_open reader wrote
      obtain rfl := Except.ok.inj took
      refine .writing (chunks ++ more) unended same ?_ ?_
      · simp only
        rw [fed.same, queue, List.map_append]
      · have inside := Pipe.accepted_le t.pipe w.bytes.size
        calc received ++ Pipe.joined (chunks ++ more) ++ p.buffer ++
              (w.bytes.extract (t.pipe.accepted w.bytes.size) w.bytes.size ++ written rest)
          _ = received ++ Pipe.joined chunks ++ (Pipe.joined more ++ p.buffer) ++
                w.bytes.extract (t.pipe.accepted w.bytes.size) w.bytes.size ++ written rest := by
              simp only [Pipe.joined_append, ByteArray.append_assoc]
          _ = received ++ Pipe.joined chunks ++ t.pipe.buffer ++
                (w.bytes.extract 0 (t.pipe.accepted w.bytes.size) ++
                  w.bytes.extract (t.pipe.accepted w.bytes.size) w.bytes.size) ++ written rest := by
              simp only [fed.bytes, ByteArray.append_assoc]
          _ = received ++ Pipe.joined chunks ++ t.pipe.buffer ++ written t.writes := by
              rw [Pipe.extract_append_rest _ inside, front, written_cons]
              simp only [ByteArray.append_assoc]
          _ = s.bytes := bytes
  | broken here front wrote =>
      obtain ⟨took, -⟩ := Pipe.write_open reader wrote
      simp at took
  | finish here front outcome finished =>
      rename_i n r p
      obtain ⟨rfl, more, -, last, rfl⟩ := Pipe.finish_open reader finished
      refine .finished (chunks ++ more) n (same.symm.trans outcome) rfl ?_ ?_
      · simp only [queue, List.map_append]
      · rw [front, written_nil, ByteArray.append_empty] at bytes
        rw [Pipe.joined_append, last, ← ByteArray.append_assoc, bytes]
  | abort here front outcome aborted =>
      rename_i e p
      obtain rfl := Pipe.abort_open reader aborted
      exact .failed chunks e (same.symm.trans outcome) rfl (by simp only [queue])

/-- Without a reader a writer goes on, ends, or breaks off. -/
theorem Writes.refused {s : Script} {t t' : Transfer} (refused : Refused s t)
    (stepped : Writes t t') : Refused s t' := by
  cases stepped with
  | skip here front empty => simpa only [Refused, here] using refused
  | part here front some_bytes wrote => simpa only [Refused, here] using refused
  | broken here front wrote =>
      simp only [Refused, here]
      exact .inr ⟨_, _, rfl⟩
  | finish here front outcome finished =>
      rename_i n r p
      simp only [Refused, here, outcome] at refused ⊢
      cases r with
      | ok =>
          refine .inl (refused.resolve_right ?_)
          rintro ⟨path, f, broken⟩
          simp at broken
      | error e => exact .inr ⟨_, _, rfl⟩
  | abort here front outcome aborted => simpa only [Refused, here, outcome] using refused

theorem Writes.uploader {t t' : Transfer} (stepped : Writes t t') : t'.uploader = t.uploader := by
  cases stepped <;> rfl

theorem Writes.here {t t' : Transfer} (stepped : Writes t t') : t.archived = none := by
  cases stepped <;> assumption

theorem Whole.refused {s : Script} {received : ByteArray} {t : Transfer}
    (whole : Whole s received t) : Refused s t := by
  cases whole with
  | writing _ here outcome => simp [Refused, here, outcome]
  | finished _ n outcome archived => simp [Refused, archived, outcome]
  | failed _ e outcome archived => simp [Refused, archived, outcome]

theorem Writes.stage {s : Script} {answer : Except PlatformError Unit} {t t' : Transfer}
    (formed : t.Formed) (stage : Stage s answer t) (stepped : Writes t t') : Stage s answer t' := by
  unfold Stage at stage ⊢
  rw [stepped.uploader]
  cases stands : t.uploader with
  | refusing e =>
      simp only [stands] at stage ⊢
      exact ⟨stage.1, stepped.whole (by simp [formed.reader, stands]) stage.2⟩
  | reading received =>
      simp only [stands] at stage ⊢
      exact ⟨stage.1, stepped.whole (by simp [formed.reader, stands]) stage.2⟩
  | finished result =>
      have here := stepped.here
      cases result with
      | ok bytes => simp [stands, here] at stage
      | error e =>
          simp only [stands, here] at stage ⊢
          rcases stage with ⟨told, refused⟩ | ⟨-, e', -, ended⟩
          · exact .inl ⟨told, stepped.refused refused⟩
          · simp at ended

theorem Uploads.stage {s : Script} {answer : Except PlatformError Unit} {t t' : Transfer}
    (formed : t.Formed) (stage : Stage s answer t) (stepped : Uploads t t') : Stage s answer t' := by
  cases stepped with
  | refuse stands =>
      simp only [Stage, stands] at stage
      exact .inl ⟨stage.1, stage.2.refused⟩
  | take stands front =>
      rename_i received bytes rest
      simp only [Stage, stands] at stage ⊢
      refine ⟨stage.1, ?_⟩
      obtain ⟨chunks, here, same, queue, whole⟩ | ⟨chunks, n, outcome, ended, queue, whole⟩ |
        ⟨chunks, e, outcome, ended, queue⟩ := stage.2
      · rcases chunks with _ | ⟨c, chunks⟩
        · simp [queue] at front
        obtain ⟨rfl, rfl⟩ : c = bytes ∧ chunks.map .ok = rest := by simpa [queue] using front
        refine .writing chunks here same rfl ?_
        simpa [ByteArray.append_assoc] using whole
      · rcases chunks with _ | ⟨c, chunks⟩
        · simp [queue] at front
        obtain ⟨rfl, rfl⟩ : c = bytes ∧ chunks.map .ok = rest := by simpa [queue] using front
        refine .finished chunks n outcome ended rfl ?_
        simpa [ByteArray.append_assoc] using whole
      · rcases chunks with _ | ⟨c, chunks⟩
        · simp [queue] at front
        obtain ⟨rfl, rfl⟩ : c = bytes ∧ chunks.map .ok ++ [.error (.aborted e.message)] = rest := by
          simpa [queue] using front
        exact .failed chunks e outcome ended rfl
  | fault stands front =>
      rename_i received f rest
      simp only [Stage, stands] at stage
      refine .inr ⟨stage.1, ?_⟩
      obtain ⟨chunks, -, -, queue, -⟩ | ⟨chunks, -, -, -, queue, -⟩ | ⟨-, e, outcome, ended, -⟩ := stage.2
      · rcases chunks with _ | ⟨c, chunks⟩ <;> simp [queue] at front
      · rcases chunks with _ | ⟨c, chunks⟩ <;> simp [queue] at front
      · exact ⟨e, outcome, ended⟩
  | stop stands empty gone =>
      rename_i received
      simp only [Stage, stands] at stage
      refine ⟨stage.1, ?_⟩
      obtain ⟨-, here, -, -, -⟩ | ⟨chunks, n, outcome, ended, queue, whole⟩ |
        ⟨chunks, e, -, -, queue⟩ := stage.2
      · simp [formed.writer, here] at gone
      · obtain rfl : chunks = [] := by simpa [queue] using empty
        exact ⟨by simpa using whole, n, outcome, ended⟩
      · simp [queue] at empty

/-! ## Whole runs -/

/-- Any steps of both parties, one after another. -/
def Reaches : Transfer → Transfer → Prop := Relation.ReflTransGen Step

/-- A run that went on until no party could step. -/
structure Comes (t t' : Transfer) : Prop where
  reaches : t.Reaches t'
  writer : t'.stepWriter = none
  uploader : t'.stepUploader = none

theorem Reaches.stage {s : Script} {answer : Except PlatformError Unit} {t t' : Transfer}
    (formed : t.Formed) (stage : Stage s answer t) (reaches : t.Reaches t') :
    t'.Formed ∧ Stage s answer t' := by
  induction reaches with
  | refl => exact ⟨formed, stage⟩
  | tail _ stepped ih =>
      obtain ⟨formed, stage⟩ := ih
      exact ⟨(left_lt_of_step formed stepped).1,
        stepped.cases.elim (Writes.stage formed stage) (Uploads.stage formed stage)⟩

/-- Both parties have ended when none can step. -/
theorem Comes.ended {t t' : Transfer} (formed : t'.Formed) (comes : t.Comes t') :
    (∃ a, t'.archived = some a) ∧ ∃ r, t'.uploader = .finished r := by
  have stuck : ¬ ∃ t'', t'.Step t'' := by
    rintro ⟨t'', stepped | stepped⟩
    · simp [comes.writer] at stepped
    · simp [comes.uploader] at stepped
  constructor
  · refine Option.ne_none_iff_exists'.1 fun here => stuck (exists_step formed (.inl here))
  · cases stands : t'.uploader with
    | finished r => exact ⟨r, rfl⟩
    | refusing e => exact absurd (exists_step formed (.inr (by rw [stands]; rfl))) stuck
    | reading bytes => exact absurd (exists_step formed (.inr (by rw [stands]; rfl))) stuck

theorem step_of_step {t t' : Transfer} (stepped : t.step = some t') : t.Step t' := by
  unfold step at stepped
  cases uploader : t.stepUploader with
  | some next =>
      rw [uploader] at stepped
      exact .inr (uploader.trans stepped)
  | none =>
      rw [uploader] at stepped
      exact .inl stepped

theorem step_eq_none {t : Transfer} (stuck : t.step = none) :
    t.stepUploader = none ∧ t.stepWriter = none := by
  unfold step at stuck
  cases uploader : t.stepUploader with
  | some next =>
      rw [uploader] at stuck
      simp at stuck
  | none =>
      rw [uploader] at stuck
      exact ⟨rfl, stuck⟩

/-- The steps that `run` makes are steps. -/
theorem reaches_run (fuel : Nat) (t : Transfer) : t.Reaches (run fuel t) := by
  induction fuel generalizing t with
  | zero => exact Relation.ReflTransGen.refl
  | succ fuel ih =>
      rw [run]
      split
      · exact Relation.ReflTransGen.refl
      · rename_i next stepped
        exact Relation.ReflTransGen.head (step_of_step stepped) (ih next)

/-- Enough steps bring a transfer to its end. -/
theorem run_step {t : Transfer} {fuel : Nat} (formed : t.Formed) (enough : t.left ≤ fuel) :
    (run fuel t).step = none := by
  induction fuel generalizing t with
  | zero =>
      rw [run, Option.eq_none_iff_forall_ne_some]
      intro next stepped
      have fewer := (left_lt_of_step formed (step_of_step stepped)).2
      omega
  | succ fuel ih =>
      rw [run]
      split
      · assumption
      · rename_i next stepped
        obtain ⟨formed', fewer⟩ := left_lt_of_step formed (step_of_step stepped)
        exact ih formed' (by omega)

/-- **A transfer settles.** -/
theorem comes_settle (remote : String) (s : Script) (answer : Except PlatformError Unit) :
    (start remote s answer).Comes (start remote s answer).settle := by
  have stuck := run_step (formed_start remote s answer) (left_start_le remote s answer)
  obtain ⟨uploader, writer⟩ := step_eq_none stuck
  exact ⟨reaches_run _ _, writer, uploader⟩

/-- **No run goes on forever.** -/
theorem exists_no_step {run : Nat → Transfer} (formed : (run 0).Formed) :
    ∃ n, ¬ (run n).Step (run (n + 1)) := by
  by_contra forever
  simp only [not_exists, not_not] at forever
  have sinks : ∀ n, (run n).Formed ∧ (run n).left + n ≤ (run 0).left := by
    intro n
    induction n with
    | zero => exact ⟨formed, Nat.le_refl _⟩
    | succ n ih =>
        obtain ⟨formed', fewer⟩ := left_lt_of_step ih.1 (forever n)
        exact ⟨formed', by omega⟩
  have := (sinks ((run 0).left + 1)).2
  omega

/-! ## Results -/

/-- What the platform has recorded: all that an uploader read up to a proper end. -/
def recorded? (t : Transfer) : Option ByteArray :=
  match t.uploader with
  | .finished (.ok bytes) => some bytes
  | _ => none

/-- A failure of its own script is what a writer tells, however the upload ended. -/
theorem result_error {s : Script} (own : ¬ IsBroken s.outcome) {e : SyncError}
    (outcome : s.outcome = .error e) (uploaded : Except PlatformError ByteArray) :
    result (.error e) uploaded = .error e := by
  unfold result
  split
  case h_2 path f _ same => exact absurd ⟨path, f, outcome.trans same⟩ own
  all_goals simp_all

/-- What a transfer of a script ends with, by what the platform answers. -/
def Settled (s : Script) (answer : Except PlatformError Unit) (t : Transfer) : Prop :=
  match answer, s.outcome with
  | .ok (), .ok _ => t.result? = some (.ok s.bytes) ∧ t.recorded? = some s.bytes
  | .ok (), .error e => t.result? = some (.error e) ∧ t.recorded? = none
  | .error refusal, .ok _ => t.result? = some (.error (.platform refusal)) ∧ t.recorded? = none
  | .error refusal, .error e =>
    (t.result? = some (.error (.platform refusal)) ∨ t.result? = some (.error e)) ∧
      t.recorded? = none

/-- **What a transfer comes to**, whatever the schedule: the platform has recorded all bytes of
the script or nothing. -/
theorem Comes.settled {remote : String} {s : Script} (own : ¬ IsBroken s.outcome)
    {answer : Except PlatformError Unit} {t : Transfer} (comes : (start remote s answer).Comes t) :
    Settled s answer t := by
  obtain ⟨formed, stage⟩ :=
    comes.reaches.stage (formed_start remote s answer) (stage_start remote s answer)
  obtain ⟨⟨a, archived⟩, r, finished⟩ := comes.ended formed
  have told : t.result? = some (Transfer.result a r) := by rw [result?, archived, finished]
  unfold Settled
  rw [told, recorded?, finished]
  simp only [Stage, finished, archived, Refused] at stage
  cases r with
  | ok bytes =>
      obtain ⟨rfl, rfl, n, outcome, same⟩ := stage
      obtain rfl := Option.some.inj same
      rw [outcome]
      exact ⟨rfl, rfl⟩
  | error refusal =>
      rcases stage with ⟨rfl, rfl | ⟨path, f, rfl⟩⟩ | ⟨rfl, e, outcome, same⟩
      · cases outcome : s.outcome with
        | ok n => exact ⟨rfl, rfl⟩
        | error e => exact ⟨.inr (congrArg some (result_error own outcome _)), rfl⟩
      · cases outcome : s.outcome with
        | ok n => exact ⟨rfl, rfl⟩
        | error e => exact ⟨.inl rfl, rfl⟩
      · obtain rfl := Option.some.inj same
        rw [outcome]
        exact ⟨congrArg some (result_error own outcome _), rfl⟩

end Transfer

end DevMode.Sync
