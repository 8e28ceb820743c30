/-
# DevMode.Proofs.EscapeCode -- escape codes and texts without them

A terminal is told what to do by escape codes among the text: ESC `[`, numbers with semicolons
between them, and a letter.  An `EscapeCode` is a kind of them, by its letter and by how many numbers
it takes, and `erase` takes out of a text what is one of that kind, in one pass from left to right.

* `after?_eq_some_iff`: what the pass takes for a code is one, and the only one at its place.
* `erase_append_escape`: a text may be cut before an ESC, since no code goes across one.
* `contains_erase_iff`: a code is left behind just if the text has one that is broken up by others
  (`BrokenUp`), which comes together when they are taken out.
-/
import DevMode.Text.Cut
import Mathlib.Data.List.Basic
import Mathlib.Data.List.Infix

namespace DevMode

set_option autoImplicit false

/-- What holds of the separator and within the pieces holds of all characters. -/
theorem Text.forall_mem_glue {α : Type} {holds : α → Prop} {sep : α} {ps : List (List α)}
    (at_sep : holds sep) (within : ∀ p ∈ ps, ∀ c ∈ p, holds c) : ∀ c ∈ Text.glue sep ps, holds c := by
  induction ps with
  | nil => nofun
  | cons p ps ih =>
      obtain ⟨here, behind⟩ := List.forall_mem_cons.1 within
      cases ps with
      | nil => exact here
      | cons q qs => exact List.forall_mem_append.2 ⟨here, List.forall_mem_cons.2 ⟨at_sep, ih behind⟩⟩

/-- A kind of escape codes: what counts as a digit, how many numbers there may be, and the letter
at the end. -/
structure EscapeCode where
  isDigit : Char → Bool
  takes : Nat → Bool
  letter : Char
  digits_apart : ∀ c, isDigit c = true → c ≠ '\x1b' ∧ c ≠ ';' ∧ c ≠ letter
  letter_apart : letter ≠ '\x1b' ∧ letter ≠ '[' ∧ letter ≠ ';'

namespace EscapeCode

/-! ## Codes -/

def IsNumber (k : EscapeCode) (n : List Char) : Prop := n ≠ [] ∧ ∀ c ∈ n, k.isDigit c = true

/-- A text that is a code of the kind. -/
def IsCode (k : EscapeCode) (text : List Char) : Prop :=
  ∃ numbers : List (List Char), numbers ≠ [] ∧ k.takes numbers.length = true ∧
    (∀ n ∈ numbers, k.IsNumber n) ∧
    text = '\x1b' :: '[' :: (Text.glue ';' numbers ++ [k.letter])

/-- What stands between the bracket and the letter. -/
def isInner (k : EscapeCode) (c : Char) : Bool := k.isDigit c || c == ';'

/-- Whether a text is as many numbers as the kind takes. -/
def isNumbers (k : EscapeCode) (text : List Char) : Bool :=
  k.takes (Text.pieces ';' text).length &&
    (Text.pieces ';' text).all fun n => !n.isEmpty && n.all k.isDigit

/-- What follows a code at the start of a text. -/
def after? (k : EscapeCode) (s : List Char) : Option (List Char) := do
  let s ← Text.after? ['\x1b', '['] s
  if k.isNumbers (s.takeWhile k.isInner) then Text.after? [k.letter] (s.dropWhile k.isInner) else none

/-- The text without its codes.  The first `skip` characters belong to one. -/
def eraseFrom (k : EscapeCode) : Nat → List Char → List Char
  | _, [] => []
  | skip + 1, _ :: s => eraseFrom k skip s
  | 0, c :: s =>
    match k.after? (c :: s) with
    | some rest => eraseFrom k (s.length - rest.length) s
    | none => c :: eraseFrom k 0 s

/-- The text without its codes, as one pass finds them. -/
def erase (k : EscapeCode) (s : List Char) : List Char := k.eraseFrom 0 s

variable {k : EscapeCode} {s t u : List Char}

theorem IsNumber.inner {n : List Char} (number : k.IsNumber n) : ∀ c ∈ n, k.isInner c = true :=
  fun c member => by simp [isInner, number.2 c member]

theorem inner_of_numbers {numbers : List (List Char)} (each : ∀ n ∈ numbers, k.IsNumber n) :
    ∀ c ∈ Text.glue ';' numbers, k.isInner c = true :=
  Text.forall_mem_glue (by simp [isInner]) fun n member => (each n member).inner

theorem isInner_apart {c : Char} (inner : k.isInner c = true) : c ≠ '\x1b' ∧ c ≠ k.letter := by
  rcases Bool.or_eq_true_iff.1 inner with digit | separator
  · exact ⟨(k.digits_apart c digit).1, (k.digits_apart c digit).2.2⟩
  · obtain rfl : c = ';' := eq_of_beq separator
    exact ⟨by decide, k.letter_apart.2.2.symm⟩

/-- The only ESC of a code is its first character. -/
theorem IsCode.exists_escape (code : k.IsCode t) : ∃ u, t = '\x1b' :: u ∧ '\x1b' ∉ u := by
  obtain ⟨numbers, -, -, each, rfl⟩ := code
  refine ⟨_, rfl, fun again => ?_⟩
  rcases List.mem_cons.1 again with bracket | behind
  · cases bracket
  · rcases List.mem_append.1 behind with inner | last
    · exact (isInner_apart (inner_of_numbers each _ inner)).1 rfl
    · exact k.letter_apart.1 (List.mem_singleton.1 last).symm

/-- The letter of a code comes at its end only. -/
theorem IsCode.exists_letter (code : k.IsCode t) : ∃ u, t = u ++ [k.letter] ∧ k.letter ∉ u := by
  obtain ⟨numbers, -, -, each, rfl⟩ := code
  refine ⟨'\x1b' :: '[' :: Text.glue ';' numbers, rfl, fun early => ?_⟩
  rcases List.mem_cons.1 early with escape | behind
  · exact k.letter_apart.1 escape
  · rcases List.mem_cons.1 behind with bracket | inner
    · exact k.letter_apart.2.1 bracket
    · exact (isInner_apart (inner_of_numbers each _ inner)).2 rfl

/-- **No code is the front part of another.** -/
theorem IsCode.eq_of_prefix (code : k.IsCode t) (other : k.IsCode u) (front : t <+: u) : t = u := by
  obtain ⟨t', rfl, -⟩ := code.exists_letter
  obtain ⟨u', rfl, single⟩ := other.exists_letter
  rcases List.prefix_concat_iff.1 front with same | short
  · exact same
  · exact absurd (short.subset (by simp)) single

theorem isNumbers_iff :
    k.isNumbers s = true ↔
      k.takes (Text.pieces ';' s).length = true ∧ ∀ n ∈ Text.pieces ';' s, k.IsNumber n := by
  simp [isNumbers, IsNumber]

/-- **What is taken for a code is one**, and every code is taken for one. -/
theorem after?_eq_some_iff {rest : List Char} :
    k.after? s = some rest ↔ ∃ t, k.IsCode t ∧ s = t ++ rest := by
  constructor
  · intro found
    obtain ⟨body, lead, found⟩ := Option.bind_eq_some_iff.1 found
    split at found
    · rename_i numbers
      obtain ⟨takes, each⟩ := isNumbers_iff.1 numbers
      refine ⟨_, ⟨Text.pieces ';' (body.takeWhile k.isInner), Text.pieces_ne_nil _ _, takes, each, rfl⟩, ?_⟩
      have cut : body = body.takeWhile k.isInner ++ ([k.letter] ++ rest) := by
        rw [← Text.after?_eq_some_iff.1 found, List.takeWhile_append_dropWhile]
      rw [Text.after?_eq_some_iff.1 lead, Text.glue_pieces]
      simpa using cut
    · cases found
  · rintro ⟨t, ⟨numbers, some_number, takes, each, rfl⟩, rfl⟩
    have inner := inner_of_numbers each
    have outer : ¬ k.isInner k.letter = true := fun inside => (isInner_apart inside).2 rfl
    have whole : ∀ n ∈ numbers, ';' ∉ n :=
      fun n member separator => (k.digits_apart _ ((each n member).2 _ separator)).2.1 rfl
    have numbered : k.isNumbers (Text.glue ';' numbers) = true := by
      rw [isNumbers_iff, Text.pieces_glue some_number whole]
      exact ⟨takes, each⟩
    have lead : Text.after? ['\x1b', '['] ('\x1b' :: '[' :: (Text.glue ';' numbers ++ [k.letter]) ++ rest) =
        some (Text.glue ';' numbers ++ k.letter :: rest) :=
      Text.after?_eq_some_iff.2 (by simp)
    rw [after?, lead]
    simp only [Option.bind_eq_bind, Option.bind_some, List.takeWhile_append_of_pos inner,
      List.dropWhile_append_of_pos inner, List.takeWhile_cons_of_neg outer,
      List.dropWhile_cons_of_neg outer, List.append_nil, if_pos numbered]
    exact Text.after?_eq_some_iff.2 rfl

/-! ## Taking codes out -/

@[simp] theorem erase_nil (k : EscapeCode) : k.erase [] = [] := rfl

theorem eraseFrom_append (k : EscapeCode) (t s : List Char) : k.eraseFrom t.length (t ++ s) = k.erase s := by
  induction t with
  | nil => rfl
  | cons c t ih => exact ih

theorem erase_cons {c : Char} (no_code : k.after? (c :: s) = none) :
    k.erase (c :: s) = c :: k.erase s := by
  simp only [erase, eraseFrom, no_code]

/-- A code at the start of a text is taken out. -/
theorem erase_code (code : k.IsCode t) (s : List Char) : k.erase (t ++ s) = k.erase s := by
  have found : k.after? (t ++ s) = some s := after?_eq_some_iff.2 ⟨t, code, rfl⟩
  obtain ⟨u, rfl, -⟩ := code.exists_escape
  have length : (u ++ s).length - s.length = u.length := by simp
  rw [List.cons_append] at found ⊢
  rw [erase, eraseFrom, found]
  simp only [length]
  exact eraseFrom_append k u s

/-- Where no ESC is, there is no code. -/
theorem after?_cons {c : Char} (no_escape : c ≠ '\x1b') : k.after? (c :: s) = none := by
  rw [Option.eq_none_iff_forall_ne_some]
  intro rest found
  obtain ⟨t, code, same⟩ := after?_eq_some_iff.1 found
  obtain ⟨u, rfl, -⟩ := code.exists_escape
  exact no_escape (List.cons.inj same).1

/-- **A text without ESC stays as it is**, whatever comes behind it. -/
theorem erase_append (plain : '\x1b' ∉ s) (t : List Char) : k.erase (s ++ t) = s ++ k.erase t := by
  induction s with
  | nil => rfl
  | cons c s ih =>
      obtain ⟨first, behind⟩ := List.ne_and_not_mem_of_not_mem_cons plain
      rw [List.cons_append, erase_cons (after?_cons first.symm), ih behind, List.cons_append]

/-- **A text is read as the pass reads it**: a code, or a character where there is none. -/
@[elab_as_elim]
theorem erase_induction (k : EscapeCode) {motive : List Char → Prop} (nil : motive [])
    (code : ∀ t s, k.IsCode t → motive s → motive (t ++ s))
    (char : ∀ c s, k.after? (c :: s) = none → motive s → motive (c :: s)) (s : List Char) : motive s := by
  induction length : s.length using Nat.strong_induction_on generalizing s with
  | _ n ih =>
      cases s with
      | nil => exact nil
      | cons c s =>
          cases found : k.after? (c :: s) with
          | none => exact char c s found (ih s.length (by simp [← length]) s rfl)
          | some rest =>
              obtain ⟨t, is_code, same⟩ := after?_eq_some_iff.1 found
              obtain ⟨u, rfl, -⟩ := is_code.exists_escape
              have shorter : rest.length < n := by
                rw [← length, same, List.length_append, List.length_cons]
                omega
              exact same ▸ code _ rest is_code (ih _ shorter rest rfl)

/-- A code that a text begins with, up to an ESC and on, ends before the ESC. -/
theorem exists_of_code_append (code : k.IsCode t) (some_s : s ≠ []) {after rest : List Char}
    (same : s ++ '\x1b' :: after = t ++ rest) : ∃ more, s = t ++ more := by
  obtain ⟨u, rfl, single⟩ := code.exists_escape
  rcases List.append_eq_append_iff.1 same with ⟨between, longer, reached⟩ | ⟨more, whole, -⟩
  · obtain ⟨c, s, rfl⟩ := List.exists_cons_of_ne_nil some_s
    cases between with
    | nil => exact ⟨[], by simpa using longer.symm⟩
    | cons d between =>
        obtain ⟨rfl, -⟩ := List.cons.inj reached
        obtain ⟨-, tail⟩ := List.cons.inj longer
        exact absurd (by simp [tail]) single
  · exact ⟨more, whole⟩

/-- **A text may be cut before an ESC.** -/
theorem erase_append_escape (k : EscapeCode) (s after : List Char) :
    k.erase (s ++ '\x1b' :: after) = k.erase s ++ k.erase ('\x1b' :: after) := by
  induction s using k.erase_induction with
  | nil => rfl
  | code t s is_code ih => rw [List.append_assoc, erase_code is_code, erase_code is_code, ih]
  | char c s none_here ih =>
      have none_still : k.after? (c :: (s ++ '\x1b' :: after)) = none := by
        rw [Option.eq_none_iff_forall_ne_some]
        intro rest found
        obtain ⟨t, is_code, same⟩ := after?_eq_some_iff.1 found
        obtain ⟨more, whole⟩ := exists_of_code_append is_code (List.cons_ne_nil c s) same
        rw [after?_eq_some_iff.2 ⟨t, is_code, whole⟩] at none_here
        cases none_here
      rw [List.cons_append, erase_cons none_still, erase_cons none_here, List.cons_append, ih]

/-! ## Codes that are left behind -/

/-- A text with codes put between its characters; its last character comes last. -/
inductive Spread (k : EscapeCode) : List Char → List Char → Prop where
  | last (c : Char) : Spread k [c] [c]
  | char (c : Char) {text spread : List Char} (behind : Spread k text spread) :
      Spread k (c :: text) (c :: spread)
  | code {code text spread : List Char} (here : k.IsCode code) (behind : Spread k text spread) :
      Spread k text (code ++ spread)

/-- A text in which a code is broken up by others between its characters. -/
def BrokenUp (k : EscapeCode) (s : List Char) : Prop :=
  ∃ text spread, k.IsCode ('\x1b' :: text) ∧ k.Spread text spread ∧ spread ≠ text ∧
    '\x1b' :: spread <:+: s

/-- A text has a code of the kind in it. -/
def Contains (k : EscapeCode) (s : List Char) : Prop := ∃ code, k.IsCode code ∧ code <:+: s

theorem Spread.ne_nil {text spread : List Char} (spreads : k.Spread text spread) : text ≠ [] := by
  induction spreads with
  | last | char => exact List.cons_ne_nil _ _
  | code _ _ ih => exact ih

/-- What is spread out is as it was, or broken by a code before its end. -/
theorem Spread.eq_or_exists {text spread : List Char} (spreads : k.Spread text spread) :
    spread = text ∨ ∃ front back code rest, text = front ++ back ∧ back ≠ [] ∧ k.IsCode code ∧
      spread = front ++ (code ++ rest) := by
  induction spreads with
  | last c => exact .inl rfl
  | @char c text spread _ ih =>
      rcases ih with rfl | ⟨front, back, code, rest, rfl, some_back, is_code, rfl⟩
      · exact .inl rfl
      · exact .inr ⟨c :: front, back, code, rest, rfl, some_back, is_code, rfl⟩
  | @code code text spread is_code behind _ =>
      exact .inr ⟨[], text, code, spread, rfl, behind.ne_nil, is_code, rfl⟩

/-- What is spread out comes together. -/
theorem Spread.erase_append {text spread : List Char} (spreads : k.Spread text spread)
    (plain : '\x1b' ∉ text) (rest : List Char) : k.erase (spread ++ rest) = text ++ k.erase rest := by
  induction spreads with
  | last c => exact EscapeCode.erase_append plain rest
  | char c _ ih =>
      obtain ⟨first, behind⟩ := List.ne_and_not_mem_of_not_mem_cons plain
      rw [List.cons_append, erase_cons (after?_cons first.symm), ih behind, List.cons_append]
  | code is_code _ ih => rw [List.append_assoc, erase_code is_code, ih plain]

/-- **A code that is broken up comes together** when what breaks it is taken out. -/
theorem contains_erase_of_brokenUp (broken : k.BrokenUp s) : k.Contains (k.erase s) := by
  obtain ⟨text, spread, code, spreads, other, front, back, rfl⟩ := broken
  obtain ⟨u, whole, single⟩ := code.exists_escape
  obtain ⟨-, rfl⟩ := List.cons.inj whole
  have no_code : k.after? ('\x1b' :: (spread ++ back)) = none := by
    rw [Option.eq_none_iff_forall_ne_some]
    intro rest found
    obtain ⟨t, code', same⟩ := after?_eq_some_iff.1 found
    -- The code at the ESC would end before the one that breaks it, as a front part of it.
    obtain rfl | ⟨front', back', between, rest', rfl, some_back, is_code, rfl⟩ := spreads.eq_or_exists
    · exact other rfl
    · obtain ⟨inner, rfl, -⟩ := is_code.exists_escape
      have reached : '\x1b' :: front' ++ '\x1b' :: (inner ++ (rest' ++ back)) = t ++ rest := by
        simpa using same
      obtain ⟨more, whole⟩ := exists_of_code_append code' (List.cons_ne_nil _ _) reached
      have equal := code'.eq_of_prefix code ⟨more ++ back', by
        rw [← List.append_assoc, ← whole, List.cons_append]⟩
      rw [equal, List.cons_append, List.append_assoc, List.cons_inj_right, List.self_eq_append_right] at whole
      exact some_back (List.append_eq_nil_iff.1 whole).1
  refine ⟨_, code, k.erase front, k.erase back, ?_⟩
  rw [List.append_assoc front, List.cons_append, erase_append_escape, erase_cons no_code,
    spreads.erase_append single]
  simp

/-- What is left of a text behind some of it is left of a part of the text. -/
theorem exists_of_erase_append {front back : List Char} (erased : k.erase s = front ++ back) :
    ∃ before rest, s = before ++ rest ∧ k.erase rest = back := by
  induction s using k.erase_induction generalizing front with
  | nil => exact ⟨[], [], rfl, (List.append_eq_nil_iff.1 erased.symm).2.symm⟩
  | code t s is_code ih =>
      rw [erase_code is_code] at erased
      obtain ⟨before, rest, rfl, left⟩ := ih erased
      exact ⟨t ++ before, rest, (List.append_assoc ..).symm, left⟩
  | char c s none_here ih =>
      cases front with
      | nil => exact ⟨[], _, rfl, erased⟩
      | cons d front =>
          rw [erase_cons none_here] at erased
          obtain ⟨before, rest, rfl, left⟩ := ih (List.cons.inj erased).2
          exact ⟨c :: before, rest, rfl, left⟩

/-- What is left of a text is spread out in it. -/
theorem exists_spread {text back : List Char} (some_text : text ≠ []) (erased : k.erase s = text ++ back) :
    ∃ spread rest, s = spread ++ rest ∧ k.Spread text spread ∧ k.erase rest = back := by
  induction s using k.erase_induction generalizing text with
  | nil => exact absurd (List.append_eq_nil_iff.1 erased.symm).1 some_text
  | code t s is_code ih =>
      rw [erase_code is_code] at erased
      obtain ⟨spread, rest, rfl, spreads, left⟩ := ih some_text erased
      exact ⟨t ++ spread, rest, (List.append_assoc ..).symm, .code is_code spreads, left⟩
  | char c s none_here ih =>
      obtain ⟨d, text, rfl⟩ := List.exists_cons_of_ne_nil some_text
      rw [erase_cons none_here] at erased
      obtain ⟨rfl, behind⟩ := List.cons.inj erased
      cases text with
      | nil => exact ⟨[c], s, rfl, .last c, behind⟩
      | cons e text =>
          obtain ⟨spread, rest, rfl, spreads, left⟩ := ih (List.cons_ne_nil e text) behind
          exact ⟨c :: spread, rest, rfl, .char c spreads, left⟩

/-- Before its first character, only codes are put. -/
theorem Spread.exists_codes {c : Char} {text spread : List Char} (spreads : k.Spread (c :: text) spread)
    (some_text : text ≠ []) : ∃ codes behind, spread = codes ++ c :: behind ∧ k.Spread text behind ∧
      ∀ rest, k.erase (codes ++ rest) = k.erase rest := by
  generalize whole : c :: text = all at spreads
  induction spreads with
  | last d => exact absurd (List.cons.inj whole).2 some_text
  | char d behind _ =>
      obtain ⟨rfl, rfl⟩ := List.cons.inj whole
      exact ⟨[], _, rfl, behind, fun _ => rfl⟩
  | @code code _ _ is_code _ ih =>
      obtain ⟨codes, behind, rfl, spreads, gone⟩ := ih whole
      refine ⟨code ++ codes, behind, by rw [List.append_assoc], spreads, fun rest => ?_⟩
      rw [List.append_assoc, erase_code is_code, gone]

/-- **A code is left behind just if it was broken up.** -/
theorem contains_erase_iff (k : EscapeCode) (s : List Char) : k.Contains (k.erase s) ↔ k.BrokenUp s := by
  refine ⟨?_, contains_erase_of_brokenUp⟩
  rintro ⟨code, is_code, front, back, left⟩
  obtain ⟨text, rfl, single⟩ := is_code.exists_escape
  obtain ⟨before, s', rfl, erased⟩ := exists_of_erase_append (left.symm.trans (List.append_assoc _ _ _))
  obtain ⟨spread, rest, rfl, spreads, behind⟩ := exists_spread (List.cons_ne_nil _ _) erased
  have some_text : text ≠ [] := by
    obtain ⟨numbers, -, -, -, whole⟩ := is_code
    rw [(List.cons.inj whole).2]
    exact List.cons_ne_nil _ _
  obtain ⟨codes, spread, rfl, spreads, gone⟩ := spreads.exists_codes some_text
  refine ⟨text, spread, is_code, spreads, ?_, before ++ codes, rest, by simp⟩
  -- In one piece, it would have been taken out.
  rintro rfl
  rw [List.append_assoc, gone, erase_code is_code, behind, List.self_eq_append_left] at erased
  cases erased

/-- What is left of a text without codes is the text. -/
theorem erase_of_not_contains (none_there : ¬ k.Contains s) : k.erase s = s := by
  induction s with
  | nil => rfl
  | cons c s ih =>
      have behind : ¬ k.Contains s := fun ⟨code, is_code, inside⟩ =>
        none_there ⟨code, is_code, inside.trans (List.suffix_cons c s).isInfix⟩
      have none_here : k.after? (c :: s) = none := by
        rw [Option.eq_none_iff_forall_ne_some]
        intro rest found
        obtain ⟨t, code, same⟩ := after?_eq_some_iff.1 found
        exact none_there ⟨t, code, same ▸ (List.prefix_append t rest).isInfix⟩
      rw [erase_cons none_here, ih behind]

theorem length_erase_le (k : EscapeCode) (s : List Char) : (k.erase s).length ≤ s.length := by
  induction s using k.erase_induction with
  | nil => exact Nat.le_refl _
  | code t s is_code ih =>
      rw [erase_code is_code, List.length_append]
      omega
  | char c s none_here ih =>
      rw [erase_cons none_here]
      exact Nat.succ_le_succ ih

/-- **A text keeps all its characters just if there is no code in it.** -/
theorem erase_eq_self_iff (k : EscapeCode) (s : List Char) : k.erase s = s ↔ ¬ k.Contains s := by
  refine ⟨?_, erase_of_not_contains⟩
  rintro same ⟨code, is_code, front, back, rfl⟩
  obtain ⟨u, rfl, -⟩ := is_code.exists_escape
  rw [List.append_assoc, List.cons_append, erase_append_escape, ← List.cons_append,
    erase_code is_code] at same
  have lengths := congrArg List.length same
  have front_le := k.length_erase_le front
  have back_le := k.length_erase_le back
  simp only [List.length_append, List.length_cons] at lengths
  omega

end EscapeCode

end DevMode
