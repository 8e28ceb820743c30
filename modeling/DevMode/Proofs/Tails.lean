/-
# DevMode.Proofs.Tails -- looking at a stream more than once

The bytes of a stream come bit by bit, and its lines are read as they come.  A scanner that is
given more goes on where it was starved (`Scanner.drain_fed`), so who looks at a stream at one time
and then at a later one has found what there is at the later one (`Tail.pull_pull`).  Who looks
again after the end finds nothing else (`Tail.pull_of_over`).  And who looks for one line after
another finds them all (`Tail.pull_of_next`), after some number of looks (`Tail.weight_next_lt`).
-/
import DevMode.Proofs.LogCopy

namespace DevMode

set_option autoImplicit false

/-! ## More to read -/

namespace Scanner

variable {fits : Nat → Bool}

/-- A scanner that is given more to read. -/
def fed (s : Scanner) (more : List ByteArray) : Scanner := { s with source := s.source ++ more }

theorem putBack_append (rest : ByteArray) (source more : List ByteArray) :
    putBack rest (source ++ more) = putBack rest source ++ more := by
  unfold putBack
  split <;> rfl

/-- A reading does not look at what comes later, unless it is starved: then it goes on there. -/
theorem readFrom_append (part : ByteArray) (source more : List ByteArray) :
    readFrom fits part (source ++ more) =
      match readFrom fits part source with
      | (.line line, s) => (.line line, s.fed more)
      | (.overlong, s) => (.overlong, s.fed more)
      | (.starved, s) => readFrom fits s.part more := by
  induction source generalizing part with
  | nil => rfl
  | cons s source ih =>
      rw [List.cons_append, readFrom, readFrom]
      cases newline? s with
      | some i =>
          by_cases fit : fits (part.size + i) = true
          · simp only [fit, if_true, putBack_append]
            rfl
          · simp only [fit]
            rfl
      | none =>
          by_cases fit : fits (part.size + s.size) = true
          · simp only [fit, if_true]
            exact ih (part ++ s)
          · simp only [fit]
            rfl

theorem source_of_starved (part : ByteArray) (source : List ByteArray)
    (starved : (readFrom fits part source).1 = .starved) : (readFrom fits part source).2.source = [] := by
  induction source generalizing part with
  | nil => rfl
  | cons s source ih =>
      rw [readFrom] at starved ⊢
      cases found : newline? s with
      | some i =>
          rw [found] at starved
          dsimp only at starved
          split at starved <;> cases starved
      | none =>
          rw [found] at starved
          dsimp only at starved ⊢
          split
          · rename_i fit
            rw [if_pos fit] at starved
            exact ih (part ++ s) starved
          · rename_i long
            rw [if_neg long] at starved
            cases starved

/-- Behind a line nothing of the next one was read. -/
theorem part_of_line {part : ByteArray} {source : List ByteArray} {line : ByteArray}
    (found : (readFrom fits part source).1 = .line line) :
    (readFrom fits part source).2.part = ByteArray.empty := by
  induction source generalizing part with
  | nil => cases found
  | cons s source ih =>
      rw [readFrom] at found ⊢
      cases cut : newline? s with
      | some i =>
          dsimp only
          split <;> rfl
      | none =>
          rw [cut] at found
          dsimp only at found ⊢
          split
          · rename_i fit
            rw [if_pos fit] at found
            exact ih found
          · rfl

/-- Who is starved holds all that there was. -/
theorem size_part_of_starved {part : ByteArray} {source : List ByteArray}
    (starved : (readFrom fits part source).1 = .starved) :
    (readFrom fits part source).2.part.size = part.size + total (source.map ByteArray.size) := by
  induction source generalizing part with
  | nil => rfl
  | cons s source ih =>
      rw [readFrom] at starved ⊢
      cases found : newline? s with
      | some i =>
          rw [found] at starved
          dsimp only at starved
          split at starved <;> cases starved
      | none =>
          rw [found] at starved
          dsimp only at starved ⊢
          split
          · rename_i fit
            rw [if_pos fit] at starved
            rw [ih starved, ByteArray.size_append, List.map_cons, total_cons, Nat.add_assoc]
          · rename_i long
            rw [if_neg long] at starved
            cases starved

theorem next_fed (s : Scanner) (more : List ByteArray) :
    (s.fed more).next fits =
      match s.next fits with
      | (.line line, s') => (.line line, s'.fed more)
      | (.overlong, s') => (.overlong, s'.fed more)
      | (.starved, s') => (s'.fed more).next fits := by
  rw [next, next, fed, readFrom_append]
  rcases read : readFrom fits s.part s.source with ⟨scan, s'⟩
  cases scan with
  | line bytes => rfl
  | overlong => rfl
  | starved =>
      have dry : s'.source = [] := by
        have dry : (readFrom fits s.part s.source).2.source = [] :=
          source_of_starved s.part s.source (by rw [read])
        rwa [read] at dry
      dsimp only
      rw [next, fed, dry, List.nil_append]

/-- All readings go by the first one. -/
theorem drain_of_next_eq {s t : Scanner} (same : s.next fits = t.next fits) :
    s.drain fits = t.drain fits := by
  rcases read : t.next fits with ⟨bytes | _ | _, s'⟩
  · rw [drain_of_line (same.trans read), drain_of_line read]
  · rw [drain_of_overlong (same.trans read), drain_of_overlong read]
  · rw [drain_of_starved (same.trans read), drain_of_starved read]

/-- **Reading on with more comes to the lines before it and those behind**, unless a line was too
long. -/
theorem drain_fed (s : Scanner) (more : List ByteArray) :
    (s.fed more).drain fits =
      match s.drain fits with
      | (lines, true, s') => (lines, true, s'.fed more)
      | (lines, false, s') =>
        (lines ++ ((s'.fed more).drain fits).1, ((s'.fed more).drain fits).2) := by
  have reads : (s.fed more).next fits = _ := next_fed s more
  fun_induction drain fits s with
  | case1 s line first rest ih =>
      rw [← Prod.eta (s.next fits), first] at reads
      rw [drain_of_line reads, ih (next_fed _ more)]
      rcases drained : drain fits (s.next fits).2 with ⟨lines, _ | _, s'⟩ <;> simp [rest, drained]
  | case2 s first =>
      rw [← Prod.eta (s.next fits), first] at reads
      exact drain_of_overlong reads
  | case3 s first =>
      rw [← Prod.eta (s.next fits), first] at reads
      exact drain_of_next_eq reads

end Scanner

namespace Tail

variable {fits : Nat → Bool}

/-! ## Looking twice -/

theorem isDue_mono {t : Tail} {now later time : Nat} (after : now ≤ later)
    (due : t.isDue now time = true) : t.isDue later time = true := by
  simp only [isDue, decide_eq_true_eq] at due ⊢
  omega

/-- Who looks later finds what was there, and what has come since. -/
theorem advance_advance_of_le (t : Tail) {now later : Nat} (after : now ≤ later) :
    (t.advance now).advance later = t.advance later := by
  have cut (chunks : List (Nat × ByteArray)) :
      (chunks.takeWhile fun c => t.isDue later c.1) =
          (chunks.takeWhile fun c => t.isDue now c.1) ++
            ((chunks.dropWhile fun c => t.isDue now c.1).takeWhile fun c => t.isDue later c.1) ∧
        (chunks.dropWhile fun c => t.isDue later c.1) =
          ((chunks.dropWhile fun c => t.isDue now c.1).dropWhile fun c => t.isDue later c.1) := by
    induction chunks with
    | nil => exact ⟨rfl, rfl⟩
    | cons c chunks ih =>
        cases due : t.isDue now c.1 with
        | true => simp [due, isDue_mono after due, ih.1, ih.2]
        | false => simp [due]
  obtain ⟨taken, left⟩ := cut t.stream.chunks
  have arrivals : t.arrived later = t.arrived now ++ (t.advance now).arrived later := by
    rw [arrived, taken, List.map_append, List.filter_append]
    rfl
  have scanned : t.scanner.source ++ t.arrived later =
      t.scanner.source ++ t.arrived now ++ (t.advance now).arrived later := by
    rw [arrivals, List.append_assoc]
  refine Eq.symm ?_
  rw [advance, scanned, left]
  rfl

theorem hasEnded_mono {t : Tail} {now later : Nat} (after : now ≤ later)
    (ended : t.hasEnded now = true) : t.hasEnded later = true := by
  simp only [hasEnded, Bool.and_eq_true, Option.any_eq_true] at ended ⊢
  obtain ⟨none_left, length, found, due⟩ := ended
  exact ⟨none_left, length, found, isDue_mono after due⟩

/-- What a look comes to, where the scanner has all that has come. -/
def settle (t : Tail) (now : Nat) : List ByteArray × Bool × Scanner → List ByteArray × Status × Tail
  | (lines, true, s) => (lines, .overlong, { t with scanner := s })
  | (lines, false, s) =>
    if t.hasEnded now then (lines ++ s.last?.toList, .ended, { t with scanner := .ofSegments [] })
    else (lines, .reading, { t with scanner := s })

theorem pull_eq (t : Tail) (now : Nat) :
    t.pull fits now = (t.advance now).settle now ((t.advance now).scanner.drain fits) := by
  unfold pull settle
  rfl

theorem settle_append (t : Tail) (now : Nat) (lines : List ByteArray)
    (out : List ByteArray × Bool × Scanner) :
    t.settle now (lines ++ out.1, out.2) = (lines ++ (t.settle now out).1, (t.settle now out).2) := by
  obtain ⟨found, _ | _, s⟩ := out
  · unfold settle
    dsimp only
    split <;> simp
  · rfl

/-- A look goes on if no line was too long and the end has not come. -/
theorem settle_reading {t t' : Tail} {now : Nat} {out : List ByteArray × Bool × Scanner}
    {lines : List ByteArray} (goes : t.settle now out = (lines, .reading, t')) :
    ∃ s, out = (lines, false, s) ∧ t' = { t with scanner := s } := by
  obtain ⟨found, _ | _, s⟩ := out
  · unfold settle at goes
    dsimp only at goes
    split at goes
    · cases congrArg (·.2.1) goes
    · obtain ⟨rfl, -, rfl⟩ := goes
      exact ⟨s, rfl, rfl⟩
  · cases congrArg (·.2.1) goes

/-- A look at what has ended is the last one. -/
theorem settle_ne_reading {t : Tail} {now : Nat} (ended : t.hasEnded now = true)
    (out : List ByteArray × Bool × Scanner) : (t.settle now out).2.1 ≠ .reading := by
  obtain ⟨found, _ | _, s⟩ := out
  · simp [settle, ended]
  · nofun

/-- **Looking at one time and then at a later one comes to looking at the later one.** -/
theorem pull_pull {t t' : Tail} {now later : Nat} (after : now ≤ later) {lines : List ByteArray}
    (first : t.pull fits now = (lines, .reading, t')) :
    t.pull fits later = (lines ++ (t'.pull fits later).1, (t'.pull fits later).2) := by
  rw [pull_eq] at first
  obtain ⟨s, drained, rfl⟩ := settle_reading first
  have more : ((t.advance now).scanner.fed _).drain fits = _ :=
    Scanner.drain_fed _ ((t.advance now).arrived later)
  rw [drained] at more
  rw [pull_eq, pull_eq, ← t.advance_advance_of_le after]
  exact (congrArg _ more).trans (settle_append _ _ _ _)

/-- Who looks after the end finds what there was. -/
theorem pull_of_over {t : Tail} {now later : Nat} (after : now ≤ later)
    (stopped : (t.pull fits now).2.1 ≠ .reading) :
    (t.pull fits later).1 = (t.pull fits now).1 ∧ (t.pull fits later).2.1 = (t.pull fits now).2.1 := by
  have more : ((t.advance now).scanner.fed _).drain fits = _ :=
    Scanner.drain_fed _ ((t.advance now).arrived later)
  rw [pull_eq] at stopped
  rw [pull_eq, pull_eq, ← t.advance_advance_of_le after]
  generalize t.advance now = u at stopped more
  rcases drained : u.scanner.drain fits with ⟨found, _ | _, s⟩
  · rw [drained] at stopped
    by_cases ended : u.hasEnded now = true
    · have none_left : u.stream.chunks = [] := by
        simp only [hasEnded, Bool.and_eq_true, List.isEmpty_iff] at ended
        exact ended.1
      have still : Still later u.opened u.stream := fun c member => by
        rw [none_left] at member
        cases member
      rw [show u.advance later = u from advance_of_still still u.scanner, drained]
      simp only [settle, ended, hasEnded_mono after ended, if_true, and_self]
    · simp [settle, ended] at stopped
  · rw [drained] at more
    exact ⟨congrArg (fun out => ((u.advance later).settle later out).1) more,
      congrArg (fun out => ((u.advance later).settle later out).2.1) more⟩

/-! ## Line by line -/

theorem weight_advance_le (t : Tail) (now : Nat) : (t.advance now).weight ≤ t.weight := by
  have arrived_le (chunks : List (Nat × ByteArray)) :
      let come := ((chunks.takeWhile fun c => t.isDue now c.1).map Prod.snd).filter (!·.isEmpty)
      let left := chunks.dropWhile fun c => t.isDue now c.1
      total (come.map ByteArray.size) + come.length + total (left.map fun c => c.2.size + 1) ≤
        total (chunks.map fun c => c.2.size + 1) := by
    induction chunks with
    | nil => exact Nat.le_refl _
    | cons c chunks ih =>
        cases due : t.isDue now c.1 with
        | false => simp [due]
        | true =>
            cases empty : c.2.isEmpty <;>
              simp [due, empty] at ih ⊢ <;> omega
  have chunks := arrived_le t.stream.chunks
  simp only [weight, advance, Scanner.weight, arrived, List.map_append, total_append,
    List.length_append] at chunks ⊢
  omega

/-- **Every line that is read takes from what is left of a stream.** -/
theorem weight_next_lt {t t' : Tail} {now : Nat} {bytes : ByteArray}
    (found : t.next fits now = (.line bytes, t')) : t'.weight < t.weight := by
  refine Nat.lt_of_lt_of_le ?_ (t.weight_advance_le now)
  unfold next at found
  dsimp only at found
  generalize t.advance now = u at found ⊢
  rcases read : u.scanner.next fits with ⟨line | _ | _, s⟩ <;> rw [read] at found <;>
    dsimp only at found
  · obtain ⟨-, rfl⟩ := Prod.mk.inj found
    have lighter := Scanner.weight_next_lt (congrArg Prod.fst read)
    have fresh := Scanner.part_of_line (congrArg Prod.fst read)
    rw [show Scanner.readFrom fits u.scanner.part u.scanner.source = (.line line, s) from read] at fresh
    have nothing : s.part.size = 0 := congrArg ByteArray.size fresh
    rw [read] at lighter
    simp only [weight, nothing] at lighter ⊢
    omega
  · cases congrArg Prod.fst found
  · split at found
    · split at found
      · rename_i last held
        obtain ⟨-, rfl⟩ := Prod.mk.inj found
        have all := Scanner.size_part_of_starved (congrArg Prod.fst read)
        rw [show Scanner.readFrom fits u.scanner.part u.scanner.source = (.starved, s) from read] at all
        have some_held : s.part.size ≠ 0 := by
          intro nothing
          rw [Scanner.last?, ByteArray.isEmpty, nothing] at held
          cases held
        simp only [weight, Scanner.weight, Scanner.ofSegments, ByteArray.size_empty, List.map_nil, total_nil,
          List.length_nil] at all ⊢
        omega
      · cases congrArg Prod.fst found
    · cases congrArg Prod.fst found

/-- **Looking for all lines is looking for the next one**, and then for all behind it. -/
theorem pull_of_next (fits : Nat → Bool) (t : Tail) (now : Nat) :
    t.pull fits now =
      match t.next fits now with
      | (.line bytes, t') => (bytes :: (t'.pull fits now).1, (t'.pull fits now).2)
      | (.overlong, t') => ([], .overlong, t')
      | (.stop, t') => ([], .ended, t')
      | (.starved, t') => ([], .reading, t') := by
  have still := t.still_advance now
  rw [pull_eq, next]
  generalize t.advance now = u at still ⊢
  rcases read : u.scanner.next fits with ⟨line | _ | _, s⟩
  · have here : ({ u with scanner := s } : Tail).advance now = { u with scanner := s } :=
      advance_of_still still s
    dsimp only
    rw [pull_eq, here, Scanner.drain_of_line read]
    exact settle_append u now [line] _
  · rw [Scanner.drain_of_overlong read]
    rfl
  · rw [Scanner.drain_of_starved read]
    dsimp only [settle]
    by_cases ended : u.hasEnded now = true
    · simp only [ended, if_true, List.nil_append]
      cases s.last? with
      | none => rfl
      | some bytes =>
          have nothing : ({ u with scanner := .ofSegments [] } : Tail).pull fits now =
              ([], .ended, { u with scanner := .ofSegments [] }) := by
            have dry : (Scanner.ofSegments []).drain fits = ([], false, .ofSegments []) :=
              Scanner.drain_of_starved rfl
            have finished : ({ u with scanner := .ofSegments [] } : Tail).hasEnded now = true := ended
            rw [pull_eq, advance_of_still still, dry]
            simp only [settle, finished, if_true]
            rfl
          dsimp only
          rw [nothing]
          rfl
    · simp only [ended]
      rfl

end Tail

end DevMode
