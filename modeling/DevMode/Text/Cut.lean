/-
# DevMode.Text.Cut -- cutting text at characters

A text is cut at a separator into pieces (`pieces`), and joining the pieces with
the separator gives the text back (`glue_pieces`), as cutting gives back what was
joined (`pieces_glue`).  Lines, trimmed texts and words
are stated on the same list of characters.
-/
import DevMode.Text.Class

namespace DevMode.Text

set_option autoImplicit false

/-! ## Pieces between separators -/

section
variable {α : Type} [DecidableEq α]

/-- The pieces between the occurrences of `sep`, always at least one. -/
def pieces (sep : α) : List α → List (List α)
  | [] => [[]]
  | c :: cs =>
    if c = sep then [] :: pieces sep cs
    else
      match pieces sep cs with
      | [] => [[c]]
      | p :: ps => (c :: p) :: ps

/-- The pieces with one separator between neighbours. -/
def glue (sep : α) : List (List α) → List α
  | [] => []
  | [p] => p
  | p :: q :: ps => p ++ sep :: glue sep (q :: ps)

theorem pieces_ne_nil (sep : α) (cs : List α) : pieces sep cs ≠ [] := by
  cases cs with
  | nil => simp [pieces]
  | cons c cs =>
    simp only [pieces]
    split
    · simp
    · split <;> simp

/-- Cutting loses nothing. -/
theorem glue_pieces (sep : α) (cs : List α) : glue sep (pieces sep cs) = cs := by
  induction cs with
  | nil => rfl
  | cons c cs ih =>
    simp only [pieces]
    split
    · rename_i h
      cases hp : pieces sep cs with
      | nil => exact absurd hp (pieces_ne_nil sep cs)
      | cons p ps => rw [hp] at ih; simp [glue, ih, h]
    · cases hp : pieces sep cs with
      | nil => exact absurd hp (pieces_ne_nil sep cs)
      | cons p ps =>
        rw [hp] at ih
        cases ps with
        | nil => simpa [glue] using ih
        | cons q qs => simpa [glue] using ih

omit [DecidableEq α] in
theorem subset_glue {sep : α} {ps : List (List α)} {p : List α} (member : p ∈ ps) :
    p ⊆ glue sep ps := by
  induction ps with
  | nil => cases member
  | cons q qs ih =>
    cases qs with
    | nil => exact List.mem_singleton.1 member ▸ List.Subset.refl q
    | cons r rs =>
      intro c inside
      rcases List.mem_cons.1 member with rfl | behind
      · exact List.mem_append_left _ inside
      · exact List.mem_append_right _ (List.mem_cons_of_mem sep (ih behind inside))

omit [DecidableEq α] in
/-- Of pieces that are not empty, something is left when they are glued. -/
theorem glue_ne_nil {sep : α} {ps : List (List α)} (solid : ∀ p ∈ ps, p ≠ [])
    (some_piece : ps ≠ []) : glue sep ps ≠ [] := by
  cases ps with
  | nil => exact absurd rfl some_piece
  | cons p ps =>
    have first := solid p List.mem_cons_self
    cases ps <;> simp [glue, first]

/-- No piece holds the separator. -/
theorem sep_notMem_of_mem_pieces {sep : α} {cs p : List α} (h : p ∈ pieces sep cs) : sep ∉ p := by
  induction cs generalizing p with
  | nil => simp [pieces] at h; simp [h]
  | cons c cs ih =>
    simp only [pieces] at h
    split at h
    · rcases List.mem_cons.1 h with rfl | h
      · simp
      · exact ih h
    · rename_i hc
      cases hp : pieces sep cs with
      | nil => exact absurd hp (pieces_ne_nil sep cs)
      | cons q qs =>
        rw [hp] at h ih
        rcases List.mem_cons.1 h with rfl | h
        · have := ih (p := q) (by simp)
          simp [this, Ne.symm hc]
        · exact ih (List.mem_cons_of_mem _ h)

/-- A separator cuts a text in two that are cut on their own. -/
theorem pieces_append_sep (sep : α) (xs ys : List α) :
    pieces sep (xs ++ sep :: ys) = pieces sep xs ++ pieces sep ys := by
  induction xs with
  | nil => simp [pieces]
  | cons x xs ih =>
    simp only [List.cons_append, pieces, ih]
    split
    · rfl
    · cases hp : pieces sep xs with
      | nil => exact absurd hp (pieces_ne_nil sep xs)
      | cons p ps => rfl

theorem pieces_of_notMem {sep : α} {p : List α} (h : sep ∉ p) : pieces sep p = [p] := by
  induction p with
  | nil => rfl
  | cons c cs ih =>
    simp only [List.mem_cons, not_or] at h
    simp only [pieces, if_neg (Ne.symm h.1), ih h.2]

/-- Gluing loses nothing either, if there is something to glue. -/
theorem pieces_glue {sep : α} {ps : List (List α)} (some_piece : ps ≠ [])
    (whole : ∀ p ∈ ps, sep ∉ p) : pieces sep (glue sep ps) = ps := by
  induction ps with
  | nil => exact absurd rfl some_piece
  | cons p ps ih =>
    cases ps with
    | nil => exact pieces_of_notMem (whole p (by simp))
    | cons q qs =>
      rw [glue, pieces_append_sep, pieces_of_notMem (whole p (by simp)),
        ih (by simp) fun r member => whole r (List.mem_cons_of_mem p member)]
      rfl

end

/-! ## Ends of a text -/

def trimStart (p : Char → Bool) (s : List Char) : List Char := s.dropWhile p

def trimEnd (p : Char → Bool) (s : List Char) : List Char := (s.reverse.dropWhile p).reverse

theorem trimEnd_concat {p : Char → Bool} {c : Char} (kept : p c = false) (s : List Char) :
    trimEnd p (s ++ [c]) = s ++ [c] := by
  simp [trimEnd, kept]

theorem trimEnd_prefix (p : Char → Bool) (s : List Char) : trimEnd p s <+: s := by
  have dropped := List.reverse_prefix.2 (List.dropWhile_suffix p (l := s.reverse))
  rwa [List.reverse_reverse] at dropped

/-- Drops White_Space at both ends. -/
def trim (s : List Char) : List Char := trimEnd isBlank (trimStart isBlank s)

/-- What follows `lead`, if the text starts with it. -/
def after? (lead : List Char) (s : List Char) : Option (List Char) :=
  if lead.isPrefixOf s then some (s.drop lead.length) else none

theorem after?_eq_some_iff {lead s rest : List Char} :
    after? lead s = some rest ↔ s = lead ++ rest := by
  simp only [after?, List.isPrefixOf_iff_prefix, Option.ite_none_right_eq_some, Option.some.injEq]
  constructor
  · rintro ⟨⟨t, rfl⟩, h⟩
    rw [← h, List.drop_left]
  · rintro rfl
    exact ⟨List.prefix_append lead rest, List.drop_left⟩

/-- Drops every leading repetition of `lead`; a text shorter than its fuel is
fully stripped. -/
def trimLead (lead : List Char) : Nat → List Char → List Char
  | 0, s => s
  | fuel + 1, s =>
    match after? lead s with
    | some rest => trimLead lead fuel rest
    | none => s

/-- Drops every leading repetition of `lead`. -/
def dropLeading (lead : List Char) (s : List Char) : List Char := trimLead lead s.length s

/-- The text before the first occurrence of `sep` and the text behind it. -/
def splitOnce? (sep : Char) (s : List Char) : Option (List Char × List Char) :=
  match s.dropWhile (· ≠ sep) with
  | [] => none
  | _ :: rest => some (s.takeWhile (· ≠ sep), rest)

theorem takeWhile_ne_append {sep : Char} {front : List Char} (whole : sep ∉ front)
    (rest : List Char) : (front ++ sep :: rest).takeWhile (· ≠ sep) = front := by
  induction front with
  | nil => simp
  | cons c cs ih =>
    simp only [List.mem_cons, not_or] at whole
    simp only [List.cons_append, List.takeWhile_cons, ih whole.2]
    simp [Ne.symm whole.1]

theorem dropWhile_ne_append {sep : Char} {front : List Char} (whole : sep ∉ front)
    (rest : List Char) : (front ++ sep :: rest).dropWhile (· ≠ sep) = sep :: rest := by
  induction front with
  | nil => simp
  | cons c cs ih =>
    simp only [List.mem_cons, not_or] at whole
    simp only [List.cons_append, List.dropWhile_cons, ih whole.2]
    simp [Ne.symm whole.1]

theorem dropWhile_ne_of_notMem {sep : Char} {s : List Char} (absent : sep ∉ s) :
    s.dropWhile (· ≠ sep) = [] := by
  induction s with
  | nil => rfl
  | cons c cs ih =>
    simp only [List.mem_cons, not_or] at absent
    simp only [List.dropWhile_cons, ih absent.2]
    simp [Ne.symm absent.1]

/-- A text is cut at its first separator. -/
theorem splitOnce?_eq_some_iff {sep : Char} {s front rest : List Char} :
    splitOnce? sep s = some (front, rest) ↔ s = front ++ sep :: rest ∧ sep ∉ front := by
  constructor
  · intro cut
    by_cases held : sep ∈ s
    · obtain ⟨before, behind, rfl, whole⟩ := List.eq_append_cons_of_mem held
      rw [splitOnce?, dropWhile_ne_append whole, takeWhile_ne_append whole] at cut
      obtain ⟨rfl, rfl⟩ := Prod.mk.inj (Option.some.inj cut)
      exact ⟨rfl, whole⟩
    · rw [splitOnce?, dropWhile_ne_of_notMem held] at cut
      cases cut
  · rintro ⟨rfl, whole⟩
    rw [splitOnce?, dropWhile_ne_append whole, takeWhile_ne_append whole]

/-! ## Lines and words -/

def dropReturn (line : List Char) : List Char :=
  if line.getLast? = some '\r' then line.dropLast else line

/-- The lines of a text: cut at each newline, one carriage return before it
dropped; an empty text behind the last newline is no line. -/
def lines (s : List Char) : List (List Char) :=
  match (pieces '\n' s).reverse with
  | [] => []
  | last :: front =>
    (front.reverse.map dropReturn) ++ (if last.isEmpty then [] else [last])

def words : List Char → List (List Char)
  | [] => []
  | c :: cs =>
    if isBlank c then words cs
    else
      match cs, words cs with
      | d :: _, w :: ws => if isBlank d then [c] :: w :: ws else (c :: w) :: ws
      | _, ws => [c] :: ws

/-- The text with ASCII capitals made small. -/
def asciiLower (s : List Char) : List Char := s.map Char.toLower

/-- The text with small ASCII letters made capitals. -/
def asciiUpper (s : List Char) : List Char := s.map Char.toUpper

end DevMode.Text
