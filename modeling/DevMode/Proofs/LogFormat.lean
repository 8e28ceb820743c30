/-
# DevMode.Proofs.LogFormat -- the format of log lines as a pattern

The format of log lines is a pattern, `LogEntry.format`, and a pattern is matched by trying: from
each run of characters the longest first, and a shorter one if what is behind does not match.
Trying misses no match and finds nothing else (`Text.Pattern.mem_tries_iff`).  Which match is found
first depends on the order of trying, unless there is only one (`Text.Pattern.captures?_eq_some_iff`).

A line matches in one way only (`matches_format_iff`), although a kind or a name may hold spaces and
an instance slashes, so reading a line part by part, each up to the first character that ends it,
finds what trying finds: `ofString?_reads`.
-/
import DevMode.Proofs.Routing
import DevMode.Text.Pattern

namespace DevMode

set_option autoImplicit false

namespace Text.Pattern

/-! ## Laws of matching -/

section Laws

variable {p q : Pattern} {sort : Char → Bool} {kept : List (List Char)} {text : List Char}

@[simp] theorem matches_nothing_iff : Matches .nothing kept text ↔ kept = [] ∧ text = [] := by
  constructor
  · rintro ⟨⟩
    exact ⟨rfl, rfl⟩
  · rintro ⟨rfl, rfl⟩
    exact .nothing

@[simp] theorem matches_one_iff :
    Matches (.one sort) kept text ↔ kept = [] ∧ ∃ c, text = [c] ∧ sort c = true := by
  constructor
  · rintro ⟨⟩
    exact ⟨rfl, _, rfl, ‹_›⟩
  · rintro ⟨rfl, c, rfl, fits⟩
    exact .one fits

@[simp] theorem matches_many_iff :
    Matches (.many sort) kept text ↔ kept = [] ∧ ∀ c ∈ text, sort c = true := by
  constructor
  · rintro ⟨⟩
    exact ⟨rfl, ‹_›⟩
  · rintro ⟨rfl, fit⟩
    exact .many fit

theorem matches_seq_iff :
    Matches (.seq p q) kept text ↔ ∃ k t k' t', Matches p k t ∧ Matches q k' t' ∧
      kept = k ++ k' ∧ text = t ++ t' := by
  constructor
  · intro matched
    cases matched with
    | seq first later => exact ⟨_, _, _, _, first, later, rfl, rfl⟩
  · rintro ⟨k, t, k', t', first, later, rfl, rfl⟩
    exact .seq first later

theorem matches_keep_iff :
    Matches (.keep p) kept text ↔ ∃ k, Matches p k text ∧ kept = text :: k := by
  constructor
  · intro matched
    cases matched with
    | keep inner => exact ⟨_, inner, rfl⟩
  · rintro ⟨k, inner, rfl⟩
    exact .keep inner

/-- A run that is not empty begins with a character of its class. -/
theorem matches_some_iff :
    Matches (some sort) kept text ↔ kept = [] ∧ text ≠ [] ∧ ∀ c ∈ text, sort c = true := by
  rw [some, matches_seq_iff]
  constructor
  · rintro ⟨k, t, k', t', first, later, rfl, rfl⟩
    obtain ⟨rfl, c, rfl, fits⟩ := matches_one_iff.1 first
    obtain ⟨rfl, fit⟩ := matches_many_iff.1 later
    exact ⟨rfl, List.cons_ne_nil c t', List.forall_mem_cons.2 ⟨fits, fit⟩⟩
  · rintro ⟨rfl, solid, fit⟩
    obtain ⟨c, s, rfl⟩ := List.exists_cons_of_ne_nil solid
    obtain ⟨fits, fit⟩ := List.forall_mem_cons.1 fit
    exact ⟨[], [c], [], s, .one fits, .many fit, rfl, rfl⟩

end Laws

/-! ## Trying finds what matches -/

/-- A run stops at once, or goes on with a character of the class. -/
theorem mem_runs_cons {sort : Char → Bool} {c : Char} {s text rest : List Char} :
    (text, rest) ∈ runs sort (c :: s) ↔
      (text = [] ∧ rest = c :: s) ∨
        ∃ more, sort c = true ∧ (more, rest) ∈ runs sort s ∧ text = c :: more := by
  rw [runs]
  split
  · rename_i fits
    rw [List.mem_append, List.mem_map, List.mem_singleton, Prod.mk.injEq, or_comm]
    refine or_congr_right ?_
    constructor
    · rintro ⟨⟨more, behind⟩, member, same⟩
      obtain ⟨rfl, rfl⟩ := Prod.mk.inj same
      exact ⟨more, fits, member, rfl⟩
    · rintro ⟨more, -, member, rfl⟩
      exact ⟨(more, rest), member, rfl⟩
  · rename_i other
    rw [List.mem_singleton, Prod.mk.injEq]
    constructor
    · exact .inl
    · rintro (stops | ⟨more, fits, -⟩)
      · exact stops
      · exact absurd fits other

theorem mem_runs_iff {sort : Char → Bool} {s text rest : List Char} :
    (text, rest) ∈ runs sort s ↔ s = text ++ rest ∧ ∀ c ∈ text, sort c = true := by
  induction s generalizing text with
  | nil =>
      constructor
      · intro member
        obtain ⟨rfl, rfl⟩ := Prod.mk.inj (List.mem_singleton.1 member)
        exact ⟨rfl, by simp⟩
      · rintro ⟨whole, -⟩
        obtain ⟨rfl, rfl⟩ := List.append_eq_nil_iff.1 whole.symm
        exact List.mem_singleton_self _
  | cons c s ih =>
      rw [mem_runs_cons]
      constructor
      · rintro (⟨rfl, rfl⟩ | ⟨more, fits, member, rfl⟩)
        · exact ⟨rfl, by simp⟩
        · obtain ⟨rfl, fit⟩ := ih.1 member
          exact ⟨rfl, List.forall_mem_cons.2 ⟨fits, fit⟩⟩
      · rintro ⟨whole, fit⟩
        cases text with
        | nil => exact .inl ⟨rfl, whole.symm⟩
        | cons d more =>
            obtain ⟨rfl, behind⟩ := List.cons.inj whole
            obtain ⟨fits, fit⟩ := List.forall_mem_cons.1 fit
            exact .inr ⟨more, fits, ih.2 ⟨behind, fit⟩, rfl⟩

/-- **Trying misses no match and finds nothing else.** -/
theorem mem_tries_iff {p : Pattern} {s : List Char} {t : Try} :
    t ∈ p.tries s ↔ s = t.text ++ t.rest ∧ p.Matches t.kept t.text := by
  induction p generalizing s t with
  | nothing =>
      obtain ⟨kept, text, rest⟩ := t
      rw [tries, List.mem_singleton, Try.mk.injEq, matches_nothing_iff]
      constructor
      · rintro ⟨rfl, rfl, rfl⟩
        exact ⟨rfl, rfl, rfl⟩
      · rintro ⟨rfl, rfl, rfl⟩
        exact ⟨rfl, rfl, rfl⟩
  | one sort =>
      obtain ⟨kept, text, rest⟩ := t
      rw [matches_one_iff]
      cases s with
      | nil =>
          constructor
          · intro member
            cases member
          · rintro ⟨whole, -, c, rfl, -⟩
            cases whole
      | cons c s =>
          rw [tries]
          constructor
          · intro member
            split at member
            · rename_i fits
              obtain ⟨rfl, rfl, rfl⟩ := Try.mk.inj (List.mem_singleton.1 member)
              exact ⟨rfl, rfl, c, rfl, fits⟩
            · cases member
          · rintro ⟨whole, rfl, d, rfl, fits⟩
            obtain ⟨rfl, rfl⟩ := List.cons.inj whole
            rw [if_pos fits]
            exact List.mem_singleton_self _
  | many sort =>
      obtain ⟨kept, text, rest⟩ := t
      rw [tries, List.mem_map, matches_many_iff]
      constructor
      · rintro ⟨⟨front, behind⟩, member, same⟩
        obtain ⟨rfl, rfl, rfl⟩ := Try.mk.inj same
        obtain ⟨whole, fit⟩ := mem_runs_iff.1 member
        exact ⟨whole, rfl, fit⟩
      · rintro ⟨whole, rfl, fit⟩
        exact ⟨(text, rest), mem_runs_iff.2 ⟨whole, fit⟩, rfl⟩
  | seq first later ih ih' =>
      obtain ⟨kept, text, rest⟩ := t
      rw [tries, List.mem_flatMap, matches_seq_iff]
      constructor
      · rintro ⟨⟨k, t, behind⟩, member, member_behind⟩
        obtain ⟨⟨k', t', r⟩, member', same⟩ := List.mem_map.1 member_behind
        obtain ⟨rfl, rfl, rfl⟩ := Try.mk.inj same
        obtain ⟨whole, matched⟩ := ih.1 member
        obtain ⟨whole', matched'⟩ := ih'.1 member'
        refine ⟨?_, k, t, k', t', matched, matched', rfl, rfl⟩
        show s = t ++ t' ++ r
        rw [List.append_assoc, ← whole', whole]
      · rintro ⟨rfl, k, t, k', t', matched, matched', rfl, rfl⟩
        refine ⟨⟨k, t, t' ++ rest⟩, ih.2 ⟨List.append_assoc t t' rest, matched⟩, ?_⟩
        exact List.mem_map.2 ⟨⟨k', t', rest⟩, ih'.2 ⟨rfl, matched'⟩, rfl⟩
  | keep inner ih =>
      obtain ⟨kept, text, rest⟩ := t
      rw [tries, List.mem_map, matches_keep_iff]
      constructor
      · rintro ⟨⟨k, t, r⟩, member, same⟩
        obtain ⟨rfl, rfl, rfl⟩ := Try.mk.inj same
        obtain ⟨whole, matched⟩ := ih.1 member
        exact ⟨whole, k, matched, rfl⟩
      · rintro ⟨whole, k, matched, same⟩
        dsimp only at same
        subst same
        exact ⟨⟨k, text, rest⟩, ih.2 ⟨whole, matched⟩, rfl⟩

theorem matches_of_captures? {p : Pattern} {s : List Char} {kept : List (List Char)}
    (found : p.captures? s = .some kept) : p.Matches kept s := by
  obtain ⟨t, first, rfl⟩ := Option.map_eq_some_iff.1 found
  obtain ⟨whole, matched⟩ := mem_tries_iff.1 (List.mem_of_find?_eq_some first)
  have nothing_over : t.rest = [] := by simpa using List.find?_some first
  rw [whole, nothing_over, List.append_nil]
  exact matched

/-- A text that matches is captured in some way. -/
theorem exists_captures? {p : Pattern} {s : List Char} {kept : List (List Char)}
    (matched : p.Matches kept s) : ∃ kept', p.captures? s = .some kept' := by
  have tried : ⟨kept, s, []⟩ ∈ p.tries s := mem_tries_iff.2 ⟨(List.append_nil s).symm, matched⟩
  have found : ((p.tries s).find? (·.rest.isEmpty)).isSome = true :=
    List.find?_isSome.2 ⟨_, tried, rfl⟩
  obtain ⟨t, first⟩ := Option.isSome_iff_exists.1 found
  exact ⟨t.kept, Option.map_eq_some_iff.2 ⟨t, first, rfl⟩⟩

/-- **If a text matches in one way only, the order of trying does not matter.** -/
theorem captures?_eq_some_iff {p : Pattern} {s : List Char}
    (unique : ∀ kept kept', p.Matches kept s → p.Matches kept' s → kept = kept')
    {kept : List (List Char)} : p.captures? s = .some kept ↔ p.Matches kept s := by
  constructor
  · exact matches_of_captures?
  · intro matched
    obtain ⟨kept', found⟩ := exists_captures? matched
    rw [found, unique kept kept' matched (matches_of_captures? found)]

/-! ## Patterns made of others -/

section Made

variable {p : Pattern} {ps : List Pattern} {kept : List (List Char)} {text : List Char}

theorem matches_inOrder_cons :
    Matches (.inOrder (p :: ps)) kept text ↔ ∃ k t k' t', Matches p k t ∧
      Matches (.inOrder ps) k' t' ∧ kept = k ++ k' ∧ text = t ++ t' :=
  matches_seq_iff

/-- The text of a pattern that keeps nothing inside stands before what the patterns behind it keep. -/
theorem matches_inOrder_keep {fits : List Char → Prop}
    (plain : ∀ {k t}, Matches p k t ↔ k = [] ∧ fits t) :
    Matches (.inOrder (.keep p :: ps)) kept text ↔ ∃ part k t, fits part ∧ kept = part :: k ∧
      text = part ++ t ∧ Matches (.inOrder ps) k t := by
  rw [matches_inOrder_cons]
  constructor
  · rintro ⟨k, part, k', t, first, later, rfl, rfl⟩
    obtain ⟨inside, inner, rfl⟩ := matches_keep_iff.1 first
    obtain ⟨rfl, fit⟩ := plain.1 inner
    exact ⟨part, k', t, fit, rfl, rfl, later⟩
  · rintro ⟨part, k, t, fit, rfl, rfl, later⟩
    exact ⟨[part], part, k, t, .keep (plain.2 ⟨rfl, fit⟩), later, rfl, rfl⟩

/-- Of one character nothing is kept. -/
theorem matches_inOrder_char {c : Char} :
    Matches (.inOrder (.char c :: ps)) kept text ↔
      ∃ t, text = c :: t ∧ Matches (.inOrder ps) kept t := by
  rw [matches_inOrder_cons]
  constructor
  · rintro ⟨k, t, k', t', first, later, rfl, rfl⟩
    obtain ⟨rfl, d, rfl, same⟩ := matches_one_iff.1 first
    obtain rfl : d = c := of_decide_eq_true same
    exact ⟨t', rfl, later⟩
  · rintro ⟨t, rfl, later⟩
    exact ⟨[], [c], kept, t, .one (decide_eq_true rfl), later, rfl, rfl⟩

theorem matches_inOrder_nil : Matches (.inOrder []) kept text ↔ kept = [] ∧ text = [] :=
  matches_nothing_iff

end Made

end Text.Pattern

namespace LogEntry

open Text

/-! ## The pattern of a line -/

/-- The pattern of a shape. -/
def shaped (shape : List Char) : Pattern :=
  .inOrder (shape.map fun x => .one fun c => if x = 'd' then isDecimalDigit c else c = x)

/-- At least one character, none of them `sep`. -/
def upTo (sep : Char) : Pattern := .some (· ≠ sep)

/-- The pattern of log lines: date, `T`, time, `Z` and a space, kind, name and instance with slashes
between them, a space, and the message, which is one line. -/
def format : Pattern :=
  .inOrder [.keep (shaped dateShape), .char 'T', .keep (shaped timeShape), .char 'Z', .char ' ',
    .keep (upTo '/'), .char '/', .keep (upTo '/'), .char '/', .keep (upTo ' '), .char ' ',
    .keep (.many (· ≠ '\n'))]

theorem matches_shaped_iff {shape : List Char} {kept : List (List Char)} {text : List Char} :
    (shaped shape).Matches kept text ↔ kept = [] ∧ hasShape shape text = true := by
  induction shape generalizing kept text with
  | nil =>
      rw [shaped, List.map_nil, Pattern.matches_inOrder_nil, hasShape, List.isEmpty_iff]
  | cons x shape ih =>
      rw [shaped, List.map_cons, Pattern.matches_inOrder_cons, ← shaped]
      constructor
      · rintro ⟨k, t, k', t', first, later, rfl, rfl⟩
        obtain ⟨rfl, c, rfl, fits⟩ := Pattern.matches_one_iff.1 first
        obtain ⟨rfl, shape_fits⟩ := ih.1 later
        exact ⟨rfl, Bool.and_eq_true_iff.2 ⟨fits, shape_fits⟩⟩
      · rintro ⟨rfl, fits⟩
        cases text with
        | nil => cases fits
        | cons c s =>
            obtain ⟨first, later⟩ := Bool.and_eq_true_iff.1 fits
            exact ⟨[], [c], [], s, .one first, ih.2 ⟨rfl, later⟩, rfl, rfl⟩

theorem forall_ne_iff {sep : Char} {text : List Char} :
    (∀ c ∈ text, decide (c ≠ sep) = true) ↔ sep ∉ text := by
  constructor
  · intro others member
    exact of_decide_eq_true (others sep member) rfl
  · intro absent c member
    exact decide_eq_true fun same => absent (same ▸ member)

theorem matches_upTo_iff {sep : Char} {kept : List (List Char)} {text : List Char} :
    (upTo sep).Matches kept text ↔ kept = [] ∧ text ≠ [] ∧ sep ∉ text := by
  rw [upTo, Pattern.matches_some_iff, forall_ne_iff]

theorem matches_without_iff {sep : Char} {kept : List (List Char)} {text : List Char} :
    (Pattern.many (· ≠ sep)).Matches kept text ↔ kept = [] ∧ sep ∉ text := by
  rw [Pattern.matches_many_iff, forall_ne_iff]

/-- The parts of an entry in the order of a line. -/
def parts (e : LogEntry) : List (List Char) :=
  [e.date.toList, e.time.toList, e.kind.toList, e.name.toList, e.instanceId.toList, e.message.toList]

/-- **What the pattern matches is what is written of an entry.** -/
theorem matches_format_iff {kept : List (List Char)} {line : String} :
    format.Matches kept line.toList ↔ ∃ e : LogEntry, e.Written ∧ line = e.toString ∧ kept = e.parts := by
  simp only [format, Pattern.matches_inOrder_keep matches_shaped_iff,
    Pattern.matches_inOrder_keep matches_upTo_iff, Pattern.matches_inOrder_keep matches_without_iff,
    Pattern.matches_inOrder_char, Pattern.matches_inOrder_nil]
  constructor
  · rintro ⟨date, _, _, dated, rfl, text, _, rfl, time, _, _, timed, rfl, rfl, _, rfl, _, rfl,
      kind, _, _, kinded, rfl, rfl, _, rfl, name, _, _, named, rfl, rfl, _, rfl,
      inst, _, _, placed, rfl, rfl, _, rfl, message, _, _, one_line, rfl, rfl, rfl, rfl⟩
    have field {part : List Char} {sep : Char} (fits : part ≠ [] ∧ sep ∉ part) :
        String.ofList part ≠ "" ∧ sep ∉ (String.ofList part).toList := by
      simpa using fits
    refine ⟨⟨.ofList date, .ofList time, .ofList kind, .ofList name, .ofList inst, .ofList message⟩,
      ?_, ?_, ?_⟩
    · exact ⟨by rwa [String.toList_ofList], by rwa [String.toList_ofList], field kinded, field named,
        field placed, by rwa [String.toList_ofList]⟩
    · apply String.toList_inj.1
      rw [text, toList_toString]
      simp
    · simp [parts]
  · rintro ⟨e, written, rfl, rfl⟩
    have solid {part : String} (some_part : part ≠ "") : part.toList ≠ [] := by simpa using some_part
    exact ⟨_, _, _, written.date, rfl, toList_toString e, _, rfl, _, _, _, written.time, rfl, rfl,
      _, rfl, _, rfl, _, _, _, ⟨solid written.kind.1, written.kind.2⟩, rfl, rfl, _, rfl,
      _, _, _, ⟨solid written.name.1, written.name.2⟩, rfl, rfl, _, rfl,
      _, _, _, ⟨solid written.instanceId.1, written.instanceId.2⟩, rfl, rfl, _, rfl,
      _, _, _, written.message, rfl, (List.append_nil _).symm, rfl, rfl⟩

/-- What is written of an entry is written of no other one. -/
theorem toString_inj {e e' : LogEntry} (written : e.Written) (written' : e'.Written)
    (same : e.toString = e'.toString) : e = e' := by
  have read : ofString? e.toString = some e := ofString?_eq_some_iff.2 ⟨rfl, written⟩
  have read' : ofString? e.toString = some e' := ofString?_eq_some_iff.2 ⟨same, written'⟩
  exact Option.some.inj (read.symm.trans read')

/-- A line matches in one way only. -/
theorem format_unique {line : String} {kept kept' : List (List Char)}
    (matched : format.Matches kept line.toList) (matched' : format.Matches kept' line.toList) :
    kept = kept' := by
  obtain ⟨e, written, text, rfl⟩ := matches_format_iff.1 matched
  obtain ⟨e', written', text', rfl⟩ := matches_format_iff.1 matched'
  rw [toString_inj written written' (text.symm.trans text')]

/-- The parts of an entry are what trying its line keeps. -/
theorem captures?_eq_ofString? (line : String) :
    format.captures? line.toList = (ofString? line).map parts := by
  apply Option.ext
  intro kept
  rw [Pattern.captures?_eq_some_iff fun _ _ => format_unique, matches_format_iff,
    Option.map_eq_some_iff]
  constructor
  · rintro ⟨e, written, text, rfl⟩
    exact ⟨e, ofString?_eq_some_iff.2 ⟨text, written⟩, rfl⟩
  · rintro ⟨e, read, rfl⟩
    obtain ⟨text, written⟩ := ofString?_eq_some_iff.1 read
    exact ⟨e, written, text, rfl⟩

end LogEntry

end DevMode
