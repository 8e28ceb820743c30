/-
# DevMode.Text.Pattern -- patterns of text, matched by trying

A `Pattern` says which texts match it and what is kept of them (`Matches`).  `tries` runs through
the ways to match a front part of a text, one after another: from a run of characters the longest
comes first, and what is behind decides whether a shorter one is tried.  `captures?` takes the first
way that leaves nothing over.

A whole text can match in several ways, and then the order of trying tells which of them counts.
-/

namespace DevMode.Text

set_option autoImplicit false

/-- A pattern: nothing, a character of a class, any number of them, one pattern behind another, or
a pattern whose text is kept. -/
inductive Pattern where
  | nothing
  | one (sort : Char → Bool)
  | many (sort : Char → Bool)
  | seq (first later : Pattern)
  | keep (inner : Pattern)

namespace Pattern

/-! ## What matches -/

/-- A pattern matches a text, and parts of it are kept. -/
inductive Matches : Pattern → List (List Char) → List Char → Prop where
  | nothing : Matches .nothing [] []
  | one {sort : Char → Bool} {c : Char} (fits : sort c = true) : Matches (.one sort) [] [c]
  | many {sort : Char → Bool} {text : List Char} (fit : ∀ c ∈ text, sort c = true) :
      Matches (.many sort) [] text
  | seq {p q : Pattern} {kept kept' : List (List Char)} {text text' : List Char}
      (first : Matches p kept text) (later : Matches q kept' text') :
      Matches (.seq p q) (kept ++ kept') (text ++ text')
  | keep {p : Pattern} {kept : List (List Char)} {text : List Char} (inner : Matches p kept text) :
      Matches (.keep p) (text :: kept) text

/-! ## Trying -/

/-- A way to match a front part of a text: what is kept, the part itself, and what is behind it. -/
structure Try where
  kept : List (List Char)
  text : List Char
  rest : List Char

/-- The runs of characters of a class at the start of a text, the longest first, and what is behind
each. -/
def runs (sort : Char → Bool) : List Char → List (List Char × List Char)
  | [] => [([], [])]
  | c :: s =>
    if sort c then ((runs sort s).map fun r => (c :: r.1, r.2)) ++ [([], c :: s)] else [([], c :: s)]

/-- The ways to match a front part of a text, in the order in which they are tried. -/
def tries : Pattern → List Char → List Try
  | nothing, s => [⟨[], [], s⟩]
  | one _, [] => []
  | one sort, c :: s => if sort c then [⟨[], [c], s⟩] else []
  | many sort, s => (runs sort s).map fun r => ⟨[], r.1, r.2⟩
  | seq first later, s =>
    (first.tries s).flatMap fun t =>
      (later.tries t.rest).map fun t' => ⟨t.kept ++ t'.kept, t.text ++ t'.text, t'.rest⟩
  | keep inner, s => (inner.tries s).map fun t => { t with kept := t.text :: t.kept }

/-- What is kept of the first way to match a whole text. -/
def captures? (p : Pattern) (s : List Char) : Option (List (List Char)) :=
  ((p.tries s).find? (·.rest.isEmpty)).map Try.kept

/-! ## Patterns made of others -/

/-- One character. -/
def char (c : Char) : Pattern := .one (· = c)

/-- One character of a class, and more of them. -/
def some (sort : Char → Bool) : Pattern := .seq (.one sort) (.many sort)

/-- Patterns one behind another. -/
def inOrder (ps : List Pattern) : Pattern := ps.foldr seq nothing

end Pattern

end DevMode.Text
