/-
# DevMode.Proofs.LogCopy -- copying a log, turn by turn

The log of a build comes bit by bit and is copied as it comes.  A step of the copying shows all that
can be read at one time.  The task that does it is suspended in front of every line, so what happens
at a time is some number of turns (`LogCopy.turn`), each of which shows one line at most; a step
comes to the same as turns until nothing is left to read (`LogCopy.turns_burst`).

* `LogCopy.Stands` says which lines of the log are in front of the copying, and `LogCopy.Shows` that
  between two of its states the next ones were shown; `LogCopy.shows_turn` says it of a turn.
* `LogCopy.Abreast` says that the copying has seen all that came before a time, which a step keeps
  up (`LogCopy.Abreast.burst`).
-/
import DevMode.Build.Log
import DevMode.Proofs.LogLines
import DevMode.Proofs.World

namespace DevMode

set_option autoImplicit false

/-! ## Streams that come bit by bit -/

theorem Scanner.bytesOf_append (source more : List ByteArray) :
    bytesOf (source ++ more) = bytesOf source ++ bytesOf more := by simp [bytesOf]

/-- Chunks with nothing in them do not count. -/
theorem Scanner.bytesOf_filter (source : List ByteArray) :
    bytesOf (source.filter (!·.isEmpty)) = bytesOf source := by
  induction source with
  | nil => rfl
  | cons s source ih =>
      by_cases empty : s.isEmpty = true
      · have nothing : s = ByteArray.empty := by
          simpa [ByteArray.isEmpty, ByteArray.size_eq_zero_iff] using empty
        have no_bytes : s.data.toList = [] := by
          rw [nothing]
          rfl
        simp [empty, ih, no_bytes]
      · simp [empty, ih]

section Drain

variable {fits : Nat → Bool} {s s' : Scanner}

/-- All readings are the first one and those behind it. -/
theorem Scanner.drain_of_line {line : ByteArray} (read : s.next fits = (.line line, s')) :
    s.drain fits = (line :: (s'.drain fits).1, (s'.drain fits).2) := by
  rw [drain]
  split <;> simp_all

theorem Scanner.drain_of_overlong (read : s.next fits = (.overlong, s')) :
    s.drain fits = ([], true, s') := by
  rw [drain]
  split <;> simp_all

theorem Scanner.drain_of_starved (read : s.next fits = (.starved, s')) :
    s.drain fits = ([], false, s') := by
  rw [drain]
  split <;> simp_all

end Drain

/-- All bytes of a stream, whenever they come. -/
def LogStream.bytes (log : LogStream) : List UInt8 := Scanner.bytesOf (log.chunks.map Prod.snd)

def LogStream.lines (log : LogStream) : List (List UInt8) := byteLines log.bytes

namespace Tail

/-- The bytes of a stream that were not read, whether they have come or not. -/
def ahead (t : Tail) : List UInt8 := t.scanner.ahead ++ t.stream.bytes

theorem ahead_advance (t : Tail) (now : Nat) : (t.advance now).ahead = t.ahead := by
  have chunks :
      Scanner.bytesOf (t.arrived now) ++ (t.advance now).stream.bytes = t.stream.bytes := by
    rw [arrived, Scanner.bytesOf_filter, advance, LogStream.bytes, LogStream.bytes,
      ← Scanner.bytesOf_append, ← List.map_append, List.takeWhile_append_dropWhile]
  rw [ahead, ahead, ← chunks]
  simp [advance, Scanner.ahead, Scanner.bytesOf_append]

/-! ### Readings -/

section Readings

variable {t : Tail} {s : Scanner}

theorem lines_of_line {bytes : ByteArray}
    (reads : Scanner.Reads Scanner.anyLength t.scanner.ahead (.line bytes, s)) :
    byteLines t.ahead =
      bytes.data.toList :: byteLines ({ t with scanner := s } : Tail).ahead := by
  obtain ⟨-, cut, whole, -⟩ := reads
  rw [ahead, cut, List.append_assoc, List.cons_append, byteLines_append_newline whole]
  rfl

/-- At the end of a stream, what is held is its last line. -/
theorem lines_of_end {now : Nat}
    (reads : Scanner.Reads Scanner.anyLength t.scanner.ahead (.starved, s))
    (ended : t.hasEnded now = true) :
    byteLines t.ahead = s.last?.toList.map (·.data.toList) := by
  obtain ⟨-, held, whole, -⟩ := reads
  have none_left : t.stream.chunks = [] := by
    simp only [hasEnded, Bool.and_eq_true, List.isEmpty_iff] at ended
    exact ended.1
  have nothing_comes : t.stream.bytes = [] := by
    rw [LogStream.bytes, none_left]
    rfl
  rw [ahead, nothing_comes, List.append_nil, ← held, Scanner.byteLines_part s (by rwa [held])]

theorem ahead_of_starved
    (reads : Scanner.Reads Scanner.anyLength t.scanner.ahead (.starved, s)) :
    ({ t with scanner := s } : Tail).ahead = t.ahead := by
  obtain ⟨dry, held, -⟩ := reads
  rw [ahead, ahead, ← held]
  simp [Scanner.ahead, dry]

end Readings

/-! ### Waiting for more -/

/-- Nothing more of a stream has come. -/
def Still (now opened : Nat) (stream : LogStream) : Prop :=
  ∀ c ∈ stream.chunks.head?, now < opened + c.1

theorem still_advance (t : Tail) (now : Nat) :
    Still now (t.advance now).opened (t.advance now).stream := by
  intro c member
  have late := List.head?_dropWhile_not (fun c => t.isDue now c.1) t.stream.chunks
  rw [show (t.stream.chunks.dropWhile fun c => t.isDue now c.1).head? = some c from member] at late
  show now < t.opened + c.1
  simpa [isDue] using late

theorem advance_of_still {now opened : Nat} {stream : LogStream} (still : Still now opened stream)
    (s : Scanner) : (⟨opened, stream, s⟩ : Tail).advance now = ⟨opened, stream, s⟩ := by
  obtain ⟨chunks, length⟩ := stream
  cases chunks with
  | nil => simp [advance, arrived]
  | cons c chunks =>
      have late : (⟨opened, ⟨c :: chunks, length⟩, s⟩ : Tail).isDue now c.1 = false := by
        simpa [isDue] using still c rfl
      simp [advance, arrived, late]

/-- What has come is given to the scanner once. -/
theorem advance_advance (t : Tail) (now : Nat) : (t.advance now).advance now = t.advance now :=
  advance_of_still (t.still_advance now) _

theorem pull_advance (fits : Nat → Bool) (t : Tail) (now : Nat) :
    (t.advance now).pull fits now = t.pull fits now := by
  unfold pull
  rw [advance_advance]

end Tail

/-! ## Turns -/

namespace LogCopy

/-- The line of the console for a line of a log, if it is text. -/
def text? (line : List UInt8) : Option Line := line? ⟨line.toArray⟩

/-- One turn of the copying: the next line of what has come is shown.  A line that is not text and
the end of the stream end the copying. -/
def turn (now : Nat) (c : LogCopy) : List Line × LogCopy :=
  match c.tail? with
  | none => ([], c)
  | some tail =>
    let tail := tail.advance now
    match tail.scanner.next Scanner.anyLength with
    | (.line bytes, s) =>
      match line? bytes with
      | some l => ([l], ⟨some { tail with scanner := s }⟩)
      | none => ([], ⟨none⟩)
    | (.overlong, _) => ([], ⟨none⟩)
    | (.starved, s) =>
      if tail.hasEnded now then ((s.last?.bind line?).toList, ⟨none⟩)
      else ([], ⟨some { tail with scanner := s }⟩)

/-- What a step shows, and the copying behind it. -/
def burst (now : Nat) (c : LogCopy) : List Line × LogCopy :=
  match c.tail? with
  | none => ([], c)
  | some tail =>
    let (lines, status, tail) := tail.pull Scanner.anyLength now
    let (lines, broken) := readable lines
    (lines, ⟨if broken || status ≠ .reading then none else some tail⟩)

theorem step_apply {σ : Type} (c : LogCopy) (w : World σ) :
    c.step w = ((c.burst w.now).2, (Act.displayAll (c.burst w.now).1 w).2) := by
  obtain ⟨tail?⟩ := c
  cases tail? <;> rfl

/-- Some turns at one time, with what they show. -/
inductive Turns (now : Nat) : LogCopy → List Line → LogCopy → Prop
  | last (c : LogCopy) : Turns now c (c.turn now).1 (c.turn now).2
  | more {c c' : LogCopy} {ls : List Line} (later : Turns now (c.turn now).2 ls c') :
      Turns now c ((c.turn now).1 ++ ls) c'

section Still

variable {now opened : Nat} {stream : LogStream}

/-- A turn where everything that has come was given to the scanner. -/
theorem turn_of_still (still : Tail.Still now opened stream) (s : Scanner) :
    turn now ⟨some ⟨opened, stream, s⟩⟩ =
      match s.next Scanner.anyLength with
      | (.line bytes, s') =>
        match line? bytes with
        | some l => ([l], ⟨some ⟨opened, stream, s'⟩⟩)
        | none => ([], ⟨none⟩)
      | (.overlong, _) => ([], ⟨none⟩)
      | (.starved, s') =>
        if (⟨opened, stream, s⟩ : Tail).hasEnded now then ((s'.last?.bind line?).toList, ⟨none⟩)
        else ([], ⟨some ⟨opened, stream, s'⟩⟩) := by
  simp only [turn, Tail.advance_of_still still]

/-- A step there. -/
theorem burst_of_still (still : Tail.Still now opened stream) (s : Scanner) :
    burst now ⟨some ⟨opened, stream, s⟩⟩ =
      match s.drain Scanner.anyLength with
      | (lines, true, _) => ((readable lines).1, ⟨none⟩)
      | (lines, false, s') =>
        if (⟨opened, stream, s⟩ : Tail).hasEnded now then
          ((readable (lines ++ s'.last?.toList)).1, ⟨none⟩)
        else ((readable lines).1,
          ⟨if (readable lines).2 then none else some ⟨opened, stream, s'⟩⟩) := by
  simp only [burst, Tail.pull, Tail.advance_of_still still]
  obtain ⟨lines, overlong, s'⟩ := s.drain Scanner.anyLength
  cases overlong with
  | true => simp
  | false =>
      dsimp only
      by_cases ended : (⟨opened, stream, s⟩ : Tail).hasEnded now = true
      · simp [ended]
      · simp [ended]

/-- A step is one turn, or it is what a turn shows and then a step. -/
theorem burst_cases (still : Tail.Still now opened stream) (s : Scanner) :
    burst now ⟨some ⟨opened, stream, s⟩⟩ = turn now ⟨some ⟨opened, stream, s⟩⟩ ∨
      ∃ l line s', s.next Scanner.anyLength = (.line line, s') ∧
        turn now ⟨some ⟨opened, stream, s⟩⟩ = ([l], ⟨some ⟨opened, stream, s'⟩⟩) ∧
        burst now ⟨some ⟨opened, stream, s⟩⟩ =
          (l :: (burst now ⟨some ⟨opened, stream, s'⟩⟩).1,
            (burst now ⟨some ⟨opened, stream, s'⟩⟩).2) := by
  rw [turn_of_still still, burst_of_still still]
  rcases read : s.next Scanner.anyLength with ⟨scan, s'⟩
  cases scan with
  | overlong =>
      rw [Scanner.drain_of_overlong read]
      exact .inl rfl
  | starved =>
      rw [Scanner.drain_of_starved read]
      refine .inl ?_
      by_cases ended : (⟨opened, stream, s⟩ : Tail).hasEnded now = true
      · simp only [ended, if_true, List.nil_append]
        cases s'.last? with
        | none => rfl
        | some bytes => cases text : line? bytes <;> simp [readable, text]
      · simp [ended, readable]
  | line line =>
      rw [Scanner.drain_of_line read]
      rcases drained : s'.drain Scanner.anyLength with ⟨lines, overlong, s₁⟩
      cases text : line? line with
      | none => cases overlong <;> simp [readable, text]
      | some l =>
          refine .inr ⟨l, line, s', rfl, by simp only [text], ?_⟩
          rw [burst_of_still still, drained]
          cases overlong with
          | true => simp [readable, text]
          | false =>
              have same : (⟨opened, stream, s⟩ : Tail).hasEnded now =
                (⟨opened, stream, s'⟩ : Tail).hasEnded now := rfl
              rw [same]
              by_cases ended : (⟨opened, stream, s'⟩ : Tail).hasEnded now = true
              · simp [ended, readable, text]
              · simp [ended, readable, text]

/-- A step comes to the same as turns until nothing is left to read. -/
theorem turns_of_still (still : Tail.Still now opened stream) (s : Scanner) :
    Turns now ⟨some ⟨opened, stream, s⟩⟩ (burst now ⟨some ⟨opened, stream, s⟩⟩).1
      (burst now ⟨some ⟨opened, stream, s⟩⟩).2 := by
  induction weight : s.weight using Nat.strong_induction_on generalizing s with
  | _ n ih =>
      rcases burst_cases still s with same | ⟨l, line, s', read, shows, same⟩
      · rw [same]
        exact .last _
      · have lighter : s'.weight < n := by
          have lighter := Scanner.weight_next_lt (congrArg Prod.fst read)
          rwa [read, weight] at lighter
        have later := ih _ lighter s' rfl
        have first : Turns now ⟨some ⟨opened, stream, s⟩⟩ _ _ := .more (by rw [shows]; exact later)
        rw [shows] at first
        rwa [same]

end Still

theorem Turns.of_turn_eq {now : Nat} {c d e : LogCopy} {ls : List Line}
    (same : c.turn now = d.turn now) (turns : Turns now d ls e) : Turns now c ls e := by
  cases turns with
  | last =>
      rw [← same]
      exact .last c
  | more later =>
      rw [← same] at later ⊢
      exact .more later

/-- **A step of the copying is some turns.** -/
theorem turns_burst (now : Nat) (c : LogCopy) : Turns now c (c.burst now).1 (c.burst now).2 := by
  obtain ⟨_ | t⟩ := c
  · exact .last _
  · have same_turn : turn now ⟨some t⟩ = turn now ⟨some (t.advance now)⟩ := by
      simp only [turn, Tail.advance_advance]
    have same : burst now ⟨some t⟩ = burst now ⟨some (t.advance now)⟩ := by
      simp only [burst, Tail.pull_advance]
    rw [same]
    exact .of_turn_eq same_turn (turns_of_still (t.still_advance now) (t.advance now).scanner)

/-! ## What is shown of the lines ahead -/

/-- Some lines of a log are what the copying has not shown: it still reads them, or it is over at
one that is not text. -/
def Stands (c : LogCopy) (rest : List (List UInt8)) : Prop :=
  match c.tail? with
  | some t => 10 ∉ t.scanner.part.data.toList ∧ rest = byteLines t.ahead
  | none => ∀ line ∈ rest.head?, text? line = none

/-- Between two states of the copying, just the texts of the next lines were shown. -/
def Shows (c : LogCopy) (ls : List Line) (c' : LogCopy) : Prop :=
  ∀ rest, c.Stands rest → ∃ taken rest', rest = taken ++ rest' ∧ taken.map text? = ls.map some ∧
    c'.Stands rest'

theorem shows_refl (c : LogCopy) : c.Shows [] c := fun rest stands => ⟨[], rest, rfl, rfl, stands⟩

theorem Shows.trans {c₁ c₂ c₃ : LogCopy} {ls ls' : List Line} (first : c₁.Shows ls c₂)
    (later : c₂.Shows ls' c₃) : c₁.Shows (ls ++ ls') c₃ := by
  intro rest stands
  obtain ⟨taken, rest', rfl, texts, stands'⟩ := first rest stands
  obtain ⟨taken', rest'', rfl, texts', stands''⟩ := later rest' stands'
  exact ⟨taken ++ taken', rest'', (List.append_assoc _ _ _).symm, by simp [texts, texts'], stands''⟩

/-- A line that is read is shown, or the copying is over with it. -/
theorem stands_line {c : LogCopy} {rest : List (List UInt8)} (bytes : ByteArray)
    (stands : c.Stands rest) : ∃ taken rest', bytes.data.toList :: rest = taken ++ rest' ∧
      taken.map text? = (line? bytes).toList.map some ∧
      Stands (if (line? bytes).isSome then c else ⟨none⟩) rest' := by
  have text : text? bytes.data.toList = line? bytes := rfl
  cases found : line? bytes with
  | none =>
      refine ⟨[], _, rfl, rfl, fun line first => ?_⟩
      obtain rfl := Option.some.inj first
      exact text.trans found
  | some l =>
      refine ⟨[bytes.data.toList], rest, rfl, ?_, stands⟩
      rw [List.map_singleton, text, found]
      rfl

/-- **One turn shows the next line**, if it is there and is text. -/
theorem shows_turn (now : Nat) (c : LogCopy) : c.Shows (c.turn now).1 (c.turn now).2 := by
  obtain ⟨_ | t⟩ := c
  · exact shows_refl _
  rintro rest ⟨whole, rfl⟩
  have whole' : 10 ∉ (t.advance now).scanner.part.data.toList := whole
  have reads := Scanner.reads_next Scanner.lengths_anyLength (t.advance now).scanner whole' rfl
  rw [← t.ahead_advance now]
  unfold turn
  dsimp only
  generalize t.advance now = t' at reads
  rcases read : t'.scanner.next Scanner.anyLength with ⟨bytes | _ | _, s⟩ <;> rw [read] at reads
  · rw [Tail.lines_of_line reads]
    have fresh : s.part = ByteArray.empty := reads.1
    have next := stands_line bytes (c := ⟨some { t' with scanner := s }⟩) ⟨by simp [fresh], rfl⟩
    dsimp only
    cases found : line? bytes <;> rw [found] at next <;> exact next
  · -- Lines of any length are read.
    obtain ⟨line, more, -, overlong⟩ := reads
    cases overlong
  · by_cases ended : t'.hasEnded now = true
    · rw [Tail.lines_of_end reads ended]
      simp only [ended, if_true]
      have nothing : Stands ⟨none⟩ [] := fun line first => nomatch first
      cases s.last? with
      | none => exact ⟨[], [], rfl, rfl, nothing⟩
      | some bytes =>
          have next := stands_line bytes nothing
          rw [ite_self] at next
          exact next
    · simp only [ended]
      have whole_part : 10 ∉ s.part.data.toList := by
        rw [reads.2.1]
        exact reads.2.2.1
      exact ⟨[], _, rfl, rfl, whole_part, congrArg byteLines (Tail.ahead_of_starved reads).symm⟩

/-- The lines that the copying would still show. -/
def unread (c : LogCopy) : List (List UInt8) :=
  match c.tail? with
  | some t => byteLines t.ahead
  | none => []

/-- What is not shown is unread, or the copying was over at a line that is not text. -/
theorem Stands.cases {c : LogCopy} {rest : List (List UInt8)} (stands : c.Stands rest) :
    rest = c.unread ∨ c.unread = [] ∧ ∃ line ∈ rest.head?, text? line = none := by
  obtain ⟨_ | t⟩ := c
  · cases rest with
    | nil => exact .inl rfl
    | cons line rest => exact .inr ⟨rfl, line, rfl, stands line rfl⟩
  · exact .inl stands.2

theorem stands_start (log : LogStream) (now : Nat) :
    Stands ⟨some (.start now log)⟩ log.lines :=
  ⟨List.not_mem_nil, rfl⟩

end LogCopy

/-! ## Logs that are over in time -/

/-- All of a stream has come before some time, and it has ended. -/
def LogStream.EndsBefore (log : LogStream) (time : Nat) : Prop :=
  (∀ c ∈ log.chunks, c.1 < time) ∧ ∃ length ∈ log.length, length < time

instance (log : LogStream) (time : Nat) : Decidable (log.EndsBefore time) :=
  inferInstanceAs (Decidable (_ ∧ _))

namespace LogCopy

/-- The copying has seen all of a log that came before a time: if it still reads, then the log is
not over by then. -/
def Abreast (log : LogStream) (opened now : Nat) (c : LogCopy) : Prop :=
  ∀ t, c.tail? = some t → t.opened = opened ∧ t.stream.length = log.length ∧
    t.stream.chunks <:+ log.chunks ∧ ¬ log.EndsBefore (now - opened)

theorem abreast_start (log : LogStream) (now : Nat) :
    Abreast log now now ⟨some (.start now log)⟩ := by
  intro t reads
  obtain rfl := Option.some.inj reads
  refine ⟨rfl, rfl, List.suffix_rfl, fun ends => ?_⟩
  obtain ⟨-, length, -, short⟩ := ends
  omega

/-- A step that goes on has read all that has come, and that is not all. -/
theorem tail_of_burst {now : Nat} {t t' : Tail}
    (reads : (burst now ⟨some t⟩).2.tail? = some t') :
    ∃ s, t' = ⟨(t.advance now).opened, (t.advance now).stream, s⟩ ∧
      (t.advance now).hasEnded now = false := by
  have same : burst now ⟨some t⟩ = burst now ⟨some (t.advance now)⟩ := by
    simp only [burst, Tail.pull_advance]
  rw [same] at reads
  have here := burst_of_still (t.still_advance now) (t.advance now).scanner
  have reads : (burst now ⟨some ⟨(t.advance now).opened, (t.advance now).stream,
    (t.advance now).scanner⟩⟩).2.tail? = some t' := reads
  rw [here] at reads
  rcases drained : (t.advance now).scanner.drain Scanner.anyLength with ⟨lines, overlong, s⟩
  rw [drained] at reads
  cases overlong with
  | true => cases reads
  | false =>
      dsimp only at reads
      split at reads
      · cases reads
      · rename_i going
        dsimp only at reads
        split at reads
        · cases reads
        · exact ⟨s, (Option.some.inj reads).symm, Bool.eq_false_iff.2 going⟩

/-- Where the copying is abreast of a log that is over, nothing is unread. -/
theorem Abreast.unread {log : LogStream} {opened now : Nat} {c : LogCopy}
    (abreast : Abreast log opened now c) (ends : log.EndsBefore (now - opened)) :
    c.unread = [] := by
  obtain ⟨_ | t⟩ := c
  · rfl
  · exact absurd ends (abreast t rfl).2.2.2

/-- **A step catches up** with the log. -/
theorem Abreast.burst {log : LogStream} {opened now : Nat} {c : LogCopy}
    (abreast : Abreast log opened now c) (later : opened ≤ now) :
    Abreast log opened (now + 1) (c.burst now).2 := by
  obtain ⟨_ | t⟩ := c
  · exact fun t' reads => nomatch reads
  intro t' reads
  obtain ⟨rfl, length, suffix, -⟩ := abreast t rfl
  obtain ⟨s, rfl, going⟩ := tail_of_burst reads
  refine ⟨rfl, length, (List.dropWhile_suffix _).trans suffix, ?_⟩
  rintro ⟨all_come, length', ends, short⟩
  have inside : (t.advance now).stream.chunks <:+ log.chunks :=
    (List.dropWhile_suffix _).trans suffix
  have ended : (t.advance now).hasEnded now = true := by
    have ends : (t.advance now).stream.length = some length' := length.trans ends
    have none_left : (t.advance now).stream.chunks = [] := by
      cases left : (t.advance now).stream.chunks with
      | nil => rfl
      | cons c chunks =>
          have late : now < t.opened + c.1 := t.still_advance now c (by rw [left]; rfl)
          have early := all_come c (inside.subset (by simp [left]))
          omega
    have due : (t.advance now).isDue now length' = true := by
      show decide (t.opened + length' ≤ now) = true
      simp
      omega
    simp [Tail.hasEnded, none_left, ends, due]
  rw [ended] at going
  cases going

end LogCopy

end DevMode
