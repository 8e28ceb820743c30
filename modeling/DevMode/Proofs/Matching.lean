/-
# DevMode.Proofs.Matching -- the matcher of byte patterns

The matcher reads a text byte by byte and keeps what may still follow.  What it accepts is what
matches (`accepts_iff`), since what may follow a byte is what the rest has to match (`matches_cons_iff`),
and it makes no difference that a pattern which is open twice is kept once.
-/
import DevMode.Ignore.BytePattern
import Mathlib.Data.List.Basic

namespace DevMode.Ignore.BytePattern

set_option autoImplicit false

variable {p q : BytePattern} {text : List UInt8} {b : UInt8}

/-! ## Laws of matching -/

@[simp] theorem matches_empty_iff : Matches .empty text ↔ text = [] := by
  constructor
  · rintro ⟨⟩
    rfl
  · rintro rfl
    exact .empty

@[simp] theorem matches_byte_iff {s : ByteSet} :
    Matches (.byte s) text ↔ ∃ b, s.contains b = true ∧ text = [b] := by
  constructor
  · rintro ⟨⟩
    exact ⟨_, ‹_›, rfl⟩
  · rintro ⟨b, inside, rfl⟩
    exact .byte inside

theorem matches_seq_iff :
    Matches (.seq p q) text ↔ ∃ front back, Matches p front ∧ Matches q back ∧ text = front ++ back := by
  constructor
  · rintro ⟨⟩
    exact ⟨_, _, ‹_›, ‹_›, rfl⟩
  · rintro ⟨front, back, first, later, rfl⟩
    exact .seq first later

theorem matches_alt_iff : Matches (.alt p q) text ↔ Matches p text ∨ Matches q text := by
  constructor
  · intro matched
    cases matched with
    | altLeft left => exact .inl left
    | altRight right => exact .inr right
  · rintro (left | right)
    · exact .altLeft left
    · exact .altRight right

/-- What repeats a pattern and is not empty begins with a repetition that is not empty. -/
theorem matches_star_cons_iff :
    Matches (.star p) (b :: text) ↔
      ∃ front back, Matches p (b :: front) ∧ Matches (.star p) back ∧ text = front ++ back := by
  constructor
  · intro matched
    generalize pattern : BytePattern.star p = r at matched
    generalize whole : b :: text = all at matched
    induction matched with
    | starNil => cases whole
    | @starMore p' x y first later _ ih =>
        obtain rfl := BytePattern.star.inj pattern
        cases x with
        | nil => exact ih rfl whole
        | cons c x =>
            obtain ⟨rfl, rfl⟩ := List.cons.inj whole
            exact ⟨x, y, first, later, rfl⟩
    | _ => cases pattern
  · rintro ⟨front, back, first, later, rfl⟩
    exact .starMore first later

theorem matches_star_byte_iff {s : ByteSet} :
    Matches (.star (.byte s)) text ↔ ∀ b ∈ text, s.contains b = true := by
  induction text with
  | nil => exact iff_of_true .starNil nofun
  | cons b text ih =>
      simp only [matches_star_cons_iff, matches_byte_iff, List.cons.injEq, List.forall_mem_cons, ← ih]
      constructor
      · rintro ⟨_, back, ⟨_, inside, rfl, rfl⟩, later, rfl⟩
        exact ⟨inside, later⟩
      · rintro ⟨inside, later⟩
        exact ⟨[], text, ⟨b, inside, rfl, rfl⟩, later, rfl⟩

theorem contains_one {x b : UInt8} : (ByteSet.one x).contains b = true ↔ b = x := by
  simp only [ByteSet.contains, ByteSet.one, List.any_cons, List.any_nil, Bool.or_false,
    bne_iff_ne, ne_eq, Bool.not_eq_false, Bool.and_eq_true, decide_eq_true_eq]
  exact ⟨fun ⟨above, below⟩ => UInt8.le_antisymm below above, fun same => by simp [same]⟩

theorem contains_notSlash {b : UInt8} : ByteSet.notSlash.contains b = true ↔ b ≠ 0x2F := by
  have other : ByteSet.notSlash.contains b = !(ByteSet.one 0x2F).contains b := by
    simp [ByteSet.contains, ByteSet.notSlash, ByteSet.one]
  rw [other, Bool.not_eq_true', ← Bool.not_eq_true, contains_one]

theorem matches_exactly_iff {bytes : List UInt8} : Matches (exactly bytes) text ↔ text = bytes := by
  induction bytes generalizing text with
  | nil => exact matches_empty_iff
  | cons b bytes ih =>
      have unfolded : exactly (b :: bytes) = .seq (.byte (.one b)) (exactly bytes) := rfl
      simp only [unfolded, matches_seq_iff, matches_byte_iff, ih, contains_one]
      constructor
      · rintro ⟨_, _, ⟨_, rfl, rfl⟩, rfl, rfl⟩
        rfl
      · rintro rfl
        exact ⟨[b], bytes, ⟨b, rfl, rfl⟩, rfl, rfl⟩

/-! ## The matcher -/

theorem nullable_iff (p : BytePattern) : p.nullable = true ↔ Matches p [] := by
  induction p with
  | empty => simp [nullable]
  | byte s => simp [nullable]
  | seq p q ihp ihq =>
      rw [nullable, Bool.and_eq_true, ihp, ihq, matches_seq_iff]
      constructor
      · rintro ⟨first, later⟩
        exact ⟨[], [], first, later, rfl⟩
      · rintro ⟨front, back, first, later, nothing⟩
        obtain ⟨rfl, rfl⟩ := List.append_eq_nil_iff.1 nothing.symm
        exact ⟨first, later⟩
  | alt p q ihp ihq => rw [nullable, Bool.or_eq_true, ihp, ihq, matches_alt_iff]
  | star p _ => exact iff_of_true rfl .starNil

theorem matches_andThen_iff : Matches (p.andThen q) text ↔ Matches (.seq p q) text := by
  cases p <;> simp [andThen, matches_seq_iff]

/-- **What may follow a byte is what the rest has to match.** -/
theorem matches_cons_iff (p : BytePattern) (text : List UInt8) :
    Matches p (b :: text) ↔ ∃ r ∈ p.residues b, Matches r text := by
  induction p generalizing text with
  | empty => simp [residues]
  | byte s =>
      by_cases inside : s.contains b = true
      · simp [residues, inside]
      · simp only [residues, if_neg inside, List.not_mem_nil, false_and, exists_false, iff_false,
          matches_byte_iff, List.cons.injEq]
        rintro ⟨c, inside', rfl, -⟩
        exact inside inside'
  | alt p q ihp ihq =>
      simp only [residues, matches_alt_iff, ihp, ihq, List.mem_append, or_and_right, exists_or]
  | star p ih =>
      simp only [residues, matches_star_cons_iff, ih, List.mem_map, exists_exists_and_eq_and,
        matches_andThen_iff, matches_seq_iff]
      constructor
      · rintro ⟨front, back, ⟨r, member, first⟩, later, rfl⟩
        exact ⟨r, member, front, back, first, later, rfl⟩
      · rintro ⟨r, member, front, back, first, later, rfl⟩
        exact ⟨front, back, ⟨r, member, first⟩, later, rfl⟩
  | seq p q ihp ihq =>
      -- The byte belongs to the first pattern, or that matches nothing and it is the later one's.
      have parts : Matches (.seq p q) (b :: text) ↔
          (∃ front back, Matches p (b :: front) ∧ Matches q back ∧ text = front ++ back) ∨
            (Matches p [] ∧ Matches q (b :: text)) := by
        rw [matches_seq_iff]
        constructor
        · rintro ⟨front, back, first, later, whole⟩
          cases front with
          | nil => exact .inr ⟨first, by simpa [whole] using later⟩
          | cons c front =>
              obtain ⟨rfl, rfl⟩ := List.cons.inj whole
              exact .inl ⟨front, back, first, later, rfl⟩
        · rintro (⟨front, back, first, later, rfl⟩ | ⟨first, later⟩)
          · exact ⟨b :: front, back, first, later, rfl⟩
          · exact ⟨[], b :: text, first, later, rfl⟩
      rw [parts, ← nullable_iff, ihq text, residues]
      simp only [ihp, List.mem_append, or_and_right, exists_or, List.mem_map, exists_exists_and_eq_and,
        matches_andThen_iff, matches_seq_iff]
      refine or_congr ?_ ?_
      · constructor
        · rintro ⟨front, back, ⟨r, member, first⟩, later, rfl⟩
          exact ⟨r, member, front, back, first, later, rfl⟩
        · rintro ⟨r, member, front, back, first, later, rfl⟩
          exact ⟨front, back, ⟨r, member, first⟩, later, rfl⟩
      · cases p.nullable <;> simp

theorem acceptsAny_iff (ps : List BytePattern) (text : List UInt8) :
    acceptsAny ps text = true ↔ ∃ p ∈ ps, Matches p text := by
  induction text generalizing ps with
  | nil => simp only [acceptsAny, List.foldl_nil, List.any_eq_true, nullable_iff]
  | cons b text ih =>
      have open_next : acceptsAny ps (b :: text) = acceptsAny (ps.flatMap (residues b)).eraseDups text := rfl
      rw [open_next, ih]
      simp only [List.mem_eraseDups, List.mem_flatMap, matches_cons_iff]
      constructor
      · rintro ⟨r, ⟨p, member, next⟩, matched⟩
        exact ⟨p, member, r, next, matched⟩
      · rintro ⟨p, member, r, next, matched⟩
        exact ⟨r, ⟨p, member, next⟩, matched⟩

/-- **The matcher accepts what matches.** -/
theorem accepts_iff (p : BytePattern) (text : List UInt8) : p.accepts text = true ↔ Matches p text := by
  rw [accepts, acceptsAny_iff]
  simp

end DevMode.Ignore.BytePattern
