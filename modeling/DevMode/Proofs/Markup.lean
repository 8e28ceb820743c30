/-
# DevMode.Proofs.Markup -- what becomes of marked-up text

Text is read as tokens and a marked part reaches to the nearest closing tag on its line, so what
becomes of a part is decided by the tags and line breaks in it.

* `tokens_append`: text may be cut before a `<` or a line break, since no tag goes across one.
* `closing_mem_tokens`: a closing tag is read wherever it is written.
* `plain_cases`: without colours, text is shown as it is, or a pair of tags shorter.
* `plain_marked_cases`: what the first closing tag or line break of a marked text makes of it.
* `plain_marked_eq_iff`: the texts that are shown as they are when they are marked.
* `opening_prefix_plain_iff`: the texts whose opening tag stays to be seen.
-/
import DevMode.Markup

namespace DevMode.Markup

set_option autoImplicit false

/-! ## Reading tags -/

@[simp] theorem written_nil : written [] = [] := rfl

@[simp] theorem written_cons (t : Token) (ts : List Token) : written (t :: ts) = t.written ++ written ts := rfl

@[simp] theorem written_append (ts us : List Token) : written (ts ++ us) = written ts ++ written us :=
  List.flatMap_append

theorem Token.written_ne_nil (t : Token) : t.written ≠ [] := by
  cases t <;> simp [written]

theorem eq_nil_of_written {ts : List Token} (nothing : written ts = []) : ts = [] := by
  cases ts with
  | nil => rfl
  | cons t ts => exact absurd (List.append_eq_nil_iff.1 nothing).1 t.written_ne_nil

/-- What may stand in a tag at its start only. -/
def Breaks (c : Char) : Prop := c = '<' ∨ c = '\n'

theorem Breaks.notMem_tail {c : Char} (breaks : Breaks c) (t : Token) : c ∉ t.written.tail := by
  rcases breaks with rfl | rfl <;> rcases t with (_ | _ | _) | (_ | _ | _) | d <;>
    simp [Token.written, Mark.name]

/-- A tag that text begins with, up to a break and on, is in the text up to the break. -/
theorem exists_of_append {c : Char} (breaks : Breaks c) (t : Token) {text after rest : List Char}
    (same : text ++ c :: after = t.written.tail ++ rest) :
    ∃ more, text = t.written.tail ++ more := by
  rcases List.append_eq_append_iff.1 same with ⟨between, tail, reached⟩ | ⟨more, text, -⟩
  · cases between with
    | nil => exact ⟨[], by simpa using tail.symm⟩
    | cons d between =>
        obtain ⟨rfl, -⟩ := List.cons.inj reached
        exact absurd (by simp [tail]) (breaks.notMem_tail t)
  · exact ⟨more, text⟩

/-- **Text may be cut before a `<` or a line break.** -/
theorem tokens_append {c : Char} (breaks : Breaks c) (text after : List Char) :
    tokens (text ++ c :: after) = tokens text ++ tokens (c :: after) := by
  fun_induction tokens text with
  | case1 | case2 | case3 | case4 | case5 | case6 => simp_all [tokens]
  | case8 => rfl
  | case7 d text no_dir no_service no_error no_dir' no_service' no_error' ih =>
      -- What is no tag here does not become one by what is behind the break.
      have still (t : Token) (none : ∀ rest, d = '<' → text = t.written.tail ++ rest → False)
          (rest : List Char) (lead : d = '<') (same : text ++ c :: after = t.written.tail ++ rest) :
          False := by
        obtain ⟨more, begins⟩ := exists_of_append breaks t same
        exact none more lead begins
      rw [List.cons_append, tokens, ih]
      · rfl
      · exact still (.opening .dir) no_dir
      · exact still (.opening .service) no_service
      · exact still (.opening .error) no_error
      · exact still (.closing .dir) no_dir'
      · exact still (.closing .service) no_service'
      · exact still (.closing .error) no_error'

theorem tokens_opening (m : Mark) (text : List Char) :
    tokens ((Token.opening m).written ++ text) = .opening m :: tokens text := by
  cases m <;> simp [Token.written, Mark.name, tokens]

/-- What a marked part does not go past: a closing tag, or the end of its line. -/
def Token.ends : Token → Bool
  | opening _ => false
  | closing _ => true
  | char c => c = '\n'

theorem tokens_append_ending {t : Token} (ends : t.ends = true) (text after : List Char) :
    tokens (text ++ (t.written ++ after)) = tokens text ++ t :: tokens after := by
  cases t with
  | opening m => cases ends
  | closing m =>
      refine (tokens_append (.inl rfl) text _).trans (congrArg _ ?_)
      cases m <;> simp [Mark.name, tokens]
  | char c =>
      obtain rfl : c = '\n' := of_decide_eq_true ends
      refine (tokens_append (.inr rfl) text _).trans (congrArg _ ?_)
      simp [tokens]

/-- **A closing tag is read wherever it is written.** -/
theorem closing_mem_tokens {m : Mark} {text : List Char} :
    .closing m ∈ tokens text ↔ (Token.closing m).written <:+: text := by
  constructor
  · intro member
    obtain ⟨front, back, read⟩ := List.append_of_mem member
    have whole := written_tokens text
    rw [read, written_append, written_cons, ← List.append_assoc] at whole
    exact ⟨written front, written back, whole⟩
  · rintro ⟨front, back, rfl⟩
    rw [List.append_assoc, tokens_append_ending rfl]
    simp

theorem newline_mem_written (ts : List Token) : '\n' ∈ written ts ↔ .char '\n' ∈ ts := by
  induction ts with
  | nil => simp
  | cons t ts ih =>
      rw [written_cons, List.mem_append, ih, List.mem_cons]
      refine or_congr ?_ Iff.rfl
      rcases t with (_ | _ | _) | (_ | _ | _) | d <;> simp [Token.written, Mark.name, eq_comm]

/-- A text that nothing ends is one line without closing tags. -/
theorem forall_not_ends_iff {text : List Char} :
    (∀ t ∈ tokens text, t.ends = false) ↔
      '\n' ∉ text ∧ ∀ m : Mark, ¬ (Token.closing m).written <:+: text := by
  have lines := newline_mem_written (tokens text)
  rw [written_tokens] at lines
  simp only [lines, ← closing_mem_tokens]
  constructor
  · intro open_end
    exact ⟨fun member => absurd (open_end _ member) (by decide),
      fun m member => absurd (open_end _ member) Bool.noConfusion⟩
  · rintro ⟨one_line, no_closing⟩ t member
    cases t with
    | opening m => rfl
    | closing m => exact absurd member (no_closing m)
    | char c => exact decide_eq_false fun same => one_line (same ▸ member)

/-- The parts of a text around something that ends are read on their own. -/
theorem tokens_of_split {t : Token} (ends : t.ends = true) {text : List Char}
    {front back : List Token} (read : tokens text = front ++ t :: back) :
    text = written front ++ (t.written ++ written back) ∧ tokens (written front) = front ∧
      tokens (written back) = back := by
  have whole : text = written front ++ (t.written ++ written back) := by
    rw [← written_tokens text, read, written_append, written_cons]
  have again := tokens_append_ending ends (written front) (written back)
  rw [← whole, read] at again
  have same_front : tokens (written front) = front := by
    rcases List.append_eq_append_iff.1 again with ⟨more, longer, -⟩ | ⟨more, longer, -⟩
    · have written_longer := congrArg written longer
      rw [written_tokens, written_append, List.self_eq_append_right] at written_longer
      rw [longer, eq_nil_of_written written_longer, List.append_nil]
    · have written_longer := congrArg written longer
      rw [written_append, written_tokens, List.self_eq_append_right] at written_longer
      rw [eq_nil_of_written written_longer, List.append_nil] at longer
      exact longer.symm
  rw [same_front] at again
  exact ⟨whole, same_front, (List.cons.inj (List.append_cancel_left again)).2.symm⟩

/-! ## Where a marked part ends -/

/-- **A marked part goes on over all that does not end it.** -/
theorem body?_append {front : List Token} (open_end : ∀ t ∈ front, t.ends = false)
    (rest : List Token) :
    body? (front ++ rest) = (body? rest).map fun found => (written front ++ found.1, found.2) := by
  induction front with
  | nil => simp
  | cons t front ih =>
      have later := ih fun u member => open_end u (.tail t member)
      have goes_on := open_end t List.mem_cons_self
      cases t with
      | closing m => cases goes_on
      | opening m =>
          rw [List.cons_append, body?, later, Option.map_map]
          simp [Function.comp_def]
      | char c =>
          rw [List.cons_append, body?, if_neg (of_decide_eq_false goes_on), later, Option.map_map]
          rfl

/-- A marked part is what stands before its closing tag. -/
theorem written_of_body? {ts rest : List Token} {text : List Char}
    (found : body? ts = some (text, rest)) :
    ∃ m, written ts = text ++ ((Token.closing m).written ++ written rest) := by
  cases first : ts.find? Token.ends with
  | none =>
      have open_end : ∀ t ∈ ts, t.ends = false := by simpa using first
      have nothing := body?_append open_end []
      rw [List.append_nil, found] at nothing
      cases nothing
  | some t =>
      obtain ⟨ends, front, back, rfl, open_end⟩ := List.find?_eq_some_iff_append.1 first
      rw [body?_append (by simpa using open_end)] at found
      cases t with
      | opening m => cases ends
      | char c =>
          obtain rfl : c = '\n' := of_decide_eq_true ends
          cases found
      | closing m =>
          obtain ⟨rfl, rfl⟩ := Prod.mk.inj (Option.some.inj found)
          exact ⟨m, by simp⟩

/-- A marked part is shown, and its tags are left out. -/
theorem renderTokens_opening (display : Mark → List Char → List Char) (m : Mark) (ts : List Token) :
    renderTokens display (.opening m :: ts) =
      match body? ts with
      | some (text, rest) => display m text ++ renderTokens display rest
      | none => (Token.opening m).written ++ renderTokens display ts := by
  rw [renderTokens]
  split <;> simp_all

/-! ## Without colours -/

/-- What is shown of tokens without colours. -/
def plain (ts : List Token) : List Char := renderTokens (display false) ts

@[simp] theorem plain_nil : plain [] = [] := by rw [plain, renderTokens]

theorem plain_opening (m : Mark) (ts : List Token) :
    plain (.opening m :: ts) =
      match body? ts with
      | some (text, rest) => text ++ plain rest
      | none => (Token.opening m).written ++ plain ts :=
  renderTokens_opening (display false) m ts

theorem plain_other {t : Token} (other : ∀ m, t ≠ .opening m) (ts : List Token) :
    plain (t :: ts) = t.written ++ plain ts := by
  cases t with
  | opening m => exact absurd rfl (other m)
  | closing m | char c =>
      rw [plain, renderTokens]
      · rfl
      · exact other

/-- **Without colours, text is shown as it is, or shorter by a pair of tags at least.** -/
theorem plain_cases (ts : List Token) :
    plain ts = written ts ∨ (plain ts).length + 11 ≤ (written ts).length := by
  induction ts using renderTokens.induct with
  | case1 => exact .inl plain_nil
  | case2 m ts text rest found ih =>
      obtain ⟨m', whole⟩ := written_of_body? found
      have opening : 5 ≤ (Token.opening m).written.length := by cases m <;> decide
      have closing : 6 ≤ (Token.closing m').written.length := by cases m' <;> decide
      have shorter : (plain rest).length ≤ (written rest).length := by
        rcases ih with same | shorter
        · exact Nat.le_of_eq (congrArg _ same)
        · omega
      refine .inr ?_
      rw [plain_opening, found, written_cons, whole]
      simp only [List.length_append]
      omega
  | case3 m ts none_found ih =>
      rw [plain_opening, none_found, written_cons]
      rcases ih with same | shorter
      · exact .inl (congrArg ((Token.opening m).written ++ ·) same)
      · refine .inr ?_
        simp only [List.length_append]
        omega
  | case4 t ts other ih =>
      rw [plain_other other, written_cons]
      rcases ih with same | shorter
      · exact .inl (congrArg _ same)
      · refine .inr ?_
        simp only [List.length_append]
        omega

theorem plain_repeated (m : Mark) (count : Nat) :
    plain (List.replicate count (.closing m)) =
      (List.replicate count (Token.closing m).written).flatten := by
  induction count with
  | zero => simp
  | succ count ih =>
      have no_opening (m' : Mark) : Token.closing m ≠ .opening m' := Token.noConfusion
      rw [List.replicate_succ, plain_other no_opening, ih, List.replicate_succ, List.flatten_cons]

/-! ## Repetitions -/

/-- What commutes with a text whose first character does not come again repeats that text. -/
theorem eq_replicate_of_comm {c : Char} {tail : List Char} (single : c ∉ tail) (text : List Char)
    (comm : text ++ c :: tail = c :: tail ++ text) :
    ∃ count, text = (List.replicate count (c :: tail)).flatten := by
  rcases List.append_eq_append_iff.1 comm with ⟨between, front, back⟩ | ⟨rest, front, back⟩
  · -- The text is both a front part and an end part of the repeated one.
    rcases text with _ | ⟨d, text⟩
    · exact ⟨0, rfl⟩
    obtain ⟨rfl, tail_eq⟩ := List.cons.inj front
    cases between with
    | nil => exact ⟨1, by simp [tail_eq]⟩
    | cons d between =>
        obtain ⟨rfl, -⟩ := List.cons.inj back
        exact absurd (by simp [tail_eq]) single
  · have shorter : rest.length < text.length := by
      simp only [front, List.length_append, List.length_cons]
      omega
    obtain ⟨count, repeats⟩ := eq_replicate_of_comm single rest (by rw [← back, front])
    exact ⟨count + 1, by rw [front, repeats, List.replicate_succ, List.flatten_cons]⟩
termination_by text.length

/-! ## Marked text -/

/-- The text in a pair of tags. -/
def marked (m : Mark) (text : List Char) : List Char :=
  (Token.opening m).written ++ (text ++ (Token.closing m).written)

/-- Text that is shown as it is when it is marked: one line, whose closing tags are all of the mark
itself and stand at its end. -/
def Intact (m : Mark) (text : List Char) : Prop :=
  '\n' ∉ text ∧ ∃ front count,
    text = front ++ (List.replicate count (Token.closing m).written).flatten ∧
      ∀ m' : Mark, ¬ (Token.closing m').written <:+: front

/-- Text of several lines with no closing tag in the first. -/
def BreaksFirst (text : List Char) : Prop :=
  ∃ front rest, text = front ++ '\n' :: rest ∧ '\n' ∉ front ∧
    ∀ m : Mark, ¬ (Token.closing m).written <:+: front

theorem tokens_marked (m : Mark) (text : List Char) :
    tokens (marked m text) = .opening m :: (tokens text ++ [.closing m]) := by
  have whole := tokens_append_ending (t := .closing m) rfl text []
  rw [List.append_nil] at whole
  rw [marked, tokens_opening, whole]
  rfl

theorem tokens_repeated (m : Mark) (front : List Char) (count : Nat) :
    tokens (front ++ (List.replicate count (Token.closing m).written).flatten) =
      tokens front ++ List.replicate count (.closing m) := by
  induction count generalizing front with
  | zero => simp
  | succ count ih =>
      have rest := ih []
      rw [List.nil_append] at rest
      rw [List.replicate_succ, List.flatten_cons, tokens_append_ending rfl, List.replicate_succ, rest]
      rfl

/-- **What is shown of a marked text without colours**: all of it if nothing ends in it, the
opening tag too if its first line ends first, and otherwise the text without the first closing tag, with
the rest of it read anew. -/
theorem plain_marked_cases (m : Mark) (text : List Char) :
    ((∀ t ∈ tokens text, t.ends = false) ∧ plain (tokens (marked m text)) = text) ∨
      (BreaksFirst text ∧
        ∃ rest, plain (tokens (marked m text)) = (Token.opening m).written ++ rest) ∨
      ∃ front m' back, text = front ++ ((Token.closing m').written ++ back) ∧
        (∀ t ∈ tokens front, t.ends = false) ∧
        plain (tokens (marked m text)) = front ++ plain (tokens back ++ [.closing m]) := by
  rw [tokens_marked, plain_opening]
  cases first : (tokens text).find? Token.ends with
  | none =>
      have open_end : ∀ t ∈ tokens text, t.ends = false := by simpa using first
      refine .inl ⟨open_end, ?_⟩
      rw [body?_append open_end]
      simp [body?, written_tokens]
  | some t =>
      obtain ⟨ends, front, back, read, before⟩ := List.find?_eq_some_iff_append.1 first
      have open_end : ∀ t ∈ front, t.ends = false := by simpa using before
      obtain ⟨whole, read_front, read_back⟩ := tokens_of_split ends read
      rw [read, List.append_assoc, List.cons_append, body?_append open_end]
      rw [← read_front] at open_end
      cases t with
      | opening m' => cases ends
      | char c =>
          obtain rfl : c = '\n' := of_decide_eq_true ends
          exact .inr (.inl ⟨⟨written front, written back, whole, forall_not_ends_iff.1 open_end⟩, _, rfl⟩)
      | closing m' =>
          refine .inr (.inr ⟨written front, m', written back, whole, open_end, ?_⟩)
          simp [body?, read_back]

theorem newline_notMem_closing (m : Mark) : '\n' ∉ (Token.closing m).written := by
  cases m <;> decide

/-- Different closing tags have different lengths. -/
theorem closing_of_comm {m m' : Mark} {text : List Char}
    (comm : text ++ (Token.closing m).written = (Token.closing m').written ++ text) : m = m' := by
  have lengths := congrArg List.length comm
  rw [List.length_append, List.length_append, Nat.add_comm, Nat.add_right_cancel_iff] at lengths
  cases m <;> cases m' <;> first | rfl | cases lengths

/-- If all behind the first closing tag of a marked text is shown as it is, then nothing but closing
tags of the mark stands there. -/
theorem repeated_of_plain {m m' : Mark} {back : List Char}
    (same : plain (tokens back ++ [.closing m]) = (Token.closing m').written ++ back) :
    m = m' ∧ ∃ count, back = (List.replicate count (Token.closing m).written).flatten := by
  have comm : back ++ (Token.closing m).written = (Token.closing m').written ++ back := by
    have whole : written (tokens back ++ [.closing m]) = back ++ (Token.closing m).written := by
      rw [written_append, written_tokens, written_cons, written_nil, List.append_nil]
    rcases plain_cases (tokens back ++ [.closing m]) with kept | shorter
    · rw [← whole, ← kept, same]
    · -- One tag in another's place is no pair of tags less.
      have longest : (Token.closing m).written.length ≤ 10 := by cases m <;> decide
      rw [same, whole, List.length_append, List.length_append] at shorter
      omega
  obtain rfl := closing_of_comm comm
  have single : '<' ∉ '/' :: (m.name ++ ['>']) := by cases m <;> decide
  exact ⟨rfl, eq_replicate_of_comm single back comm⟩

theorem plain_marked_of_intact {m : Mark} {text : List Char} (intact : Intact m text) :
    plain (tokens (marked m text)) = text := by
  obtain ⟨one_line, front, count, rfl, no_closing⟩ := intact
  have open_end : ∀ t ∈ tokens front, t.ends = false :=
    forall_not_ends_iff.2 ⟨fun member => one_line (List.mem_append_left _ member), no_closing⟩
  have ending : List.replicate count (Token.closing m) ++ [.closing m] =
      .closing m :: List.replicate count (.closing m) := by
    rw [← List.replicate_succ', List.replicate_succ]
  rw [tokens_marked, tokens_repeated, List.append_assoc, ending, plain_opening,
    body?_append open_end]
  simp [body?, written_tokens, plain_repeated]

/-- **Without colours, the intact texts are shown as they are when they are marked**, and of those
that do not begin with a tag no others. -/
theorem plain_marked_eq_iff {m : Mark} {text : List Char} (lead : text.head? ≠ some '<') :
    plain (tokens (marked m text)) = text ↔ Intact m text := by
  refine ⟨fun same => ?_, plain_marked_of_intact⟩
  rcases plain_marked_cases m text with
    ⟨open_end, -⟩ | ⟨-, rest, shown⟩ | ⟨front, m', back, rfl, open_end, shown⟩
  · obtain ⟨one_line, no_closing⟩ := forall_not_ends_iff.1 open_end
    exact ⟨one_line, text, 0, by simp, no_closing⟩
  · rw [same] at shown
    exact absurd (by rw [shown]; rfl) lead
  · rw [shown] at same
    obtain ⟨rfl, count, rfl⟩ := repeated_of_plain (List.append_cancel_left same)
    obtain ⟨one_line, no_closing⟩ := forall_not_ends_iff.1 open_end
    refine ⟨?_, front, count + 1, by rw [List.replicate_succ, List.flatten_cons], no_closing⟩
    simp only [List.mem_append, List.mem_flatten, List.mem_replicate, not_or]
    refine ⟨one_line, newline_notMem_closing m, ?_⟩
    rintro ⟨_, ⟨-, rfl⟩, member⟩
    exact newline_notMem_closing m member

/-- **Without colours, the opening tag of a marked text stays to be seen exactly if the first line
ends before any closing tag.** -/
theorem opening_prefix_plain_iff {m : Mark} {text : List Char} (lead : text.head? ≠ some '<') :
    (Token.opening m).written <+: plain (tokens (marked m text)) ↔ BreaksFirst text := by
  constructor
  · rintro ⟨rest, shown⟩
    rcases plain_marked_cases m text with
      ⟨-, kept⟩ | ⟨breaks, -⟩ | ⟨front, m', back, rfl, -, cut⟩
    · exact absurd (by rw [← kept, ← shown]; rfl) lead
    · exact breaks
    · rw [cut] at shown
      cases front with
      | nil => exact absurd rfl lead
      | cons c front => exact absurd (congrArg some (List.cons.inj shown).1.symm) lead
  · rintro ⟨front, rest, rfl, one_line, no_closing⟩
    have open_end := forall_not_ends_iff.2 ⟨one_line, no_closing⟩
    have cut : tokens (front ++ '\n' :: rest) = tokens front ++ .char '\n' :: tokens rest :=
      tokens_append_ending (t := .char '\n') rfl front rest
    rw [tokens_marked, cut, List.append_assoc, plain_opening, body?_append open_end]
    exact ⟨_, rfl⟩

end DevMode.Markup
