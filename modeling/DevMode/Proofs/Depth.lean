/-
# DevMode.Proofs.Depth -- how deep ignore rules reach

A pattern without `**`, groups, classes and escapes has as many slashes as what it matches
(`Glob.count_of_accepts`), and nothing is in front of it once it is anchored.  So it should tell by
itself how many names deep it reaches (`reach`).

That is so if the text of a path below the directory of the rules has a slash for every name but one.
With slashes repeated or a `.` in it, it has more, and a pattern matches it that reaches deeper than the
path goes.

* `exists_reach`: what is ignored of a path is a part of it as deep as some pattern reaches.
* `reach_bound_iff`: a path for which that is always so is one without idle segments.
* `ignored_beyond_reach` is a path of two names that a rule for three of them excludes.
-/
import DevMode.Proofs.IgnoreLines
import DevMode.Proofs.Matching
import Mathlib.Data.List.Infix

namespace DevMode

set_option autoImplicit false

/-! ## Slashes in a text -/

namespace Text

theorem length_pieces {α : Type} [DecidableEq α] (sep : α) (cs : List α) :
    (pieces sep cs).length = cs.count sep + 1 := by
  induction cs with
  | nil => rfl
  | cons c cs ih =>
      rw [pieces, List.count_cons]
      split
      · rename_i same
        simp [ih, same]
      · rename_i other
        cases cut : pieces sep cs with
        | nil => exact absurd cut (pieces_ne_nil sep cs)
        | cons p ps =>
            rw [cut] at ih
            simpa [other] using ih

end Text

namespace Ignore

namespace Glob

theorem count_bytesOf (cs : List Char) : (bytesOf cs).count 0x2F = cs.count '/' := by
  induction cs with
  | nil => rfl
  | cons c cs ih =>
      rw [bytesOf, List.flatMap_cons, List.count_append, ← bytesOf, ih, ← List.singleton_append,
        List.count_append, Nat.add_left_inj]
      by_cases slash : c = '/'
      · subst slash
        decide
      · have absent : (0x2F : UInt8) ∉ String.utf8EncodeChar c := fun member =>
          slash (Char.toNat_inj.1 (Text.toNat_of_mem_utf8EncodeChar member (by decide)))
        have other : '/' ∉ [c] := by simpa using Ne.symm slash
        rw [List.count_eq_zero_of_not_mem absent, List.count_eq_zero_of_not_mem other]

/-! ## Globs without groups -/

/-- The token of a character that stands on its own. -/
def tokenOf : Char → GlobToken
  | '?' => .anyChar
  | '*' => .anyChars
  | c => .char c

/-- A glob in which every character stands on its own: without `**`, groups, classes and escapes. -/
structure IsFlat (glob : List Char) : Prop where
  no_group : '\x7b' ∉ glob
  no_class : '[' ∉ glob
  no_escape : '\\' ∉ glob
  no_crossing : ¬ ['*', '*'] <:+: glob

instance (glob : List Char) : Decidable (IsFlat glob) :=
  decidable_of_iff ('\x7b' ∉ glob ∧ '[' ∉ glob ∧ '\\' ∉ glob ∧ ¬ ['*', '*'] <:+: glob)
    ⟨fun ⟨a, b, c, d⟩ => ⟨a, b, c, d⟩, fun ⟨a, b, c, d⟩ => ⟨a, b, c, d⟩⟩

theorem IsFlat.of_infix {glob part : List Char} (flat : IsFlat glob) (inside : part <:+: glob) :
    IsFlat part where
  no_group := fun member => flat.no_group (inside.subset member)
  no_class := fun member => flat.no_class (inside.subset member)
  no_escape := fun member => flat.no_escape (inside.subset member)
  no_crossing := fun crossing => flat.no_crossing (crossing.trans inside)

theorem IsFlat.tail {c : Char} {glob : List Char} (flat : IsFlat (c :: glob)) : IsFlat glob :=
  flat.of_infix (List.suffix_cons c glob).isInfix

/-- Outside of groups, a character on its own is read as its token. -/
theorem read_flat_cons {s : State} (outside : s.groups = []) {c : Char} {rest : List Char}
    (flat : IsFlat (c :: rest)) (open_end : c ≠ '\x7d') :
    read s (c :: rest) = read (s.push (tokenOf c) c) rest := by
  have no_group : c ≠ '\x7b' := fun same => flat.no_group (by simp [same])
  have no_class : c ≠ '[' := fun same => flat.no_class (by simp [same])
  have no_escape : c ≠ '\\' := fun same => flat.no_escape (by simp [same])
  by_cases any : c = '?'
  · subst any
    rw [read]
    rfl
  by_cases star : c = '*'
  · subst star
    have single : ∀ more, rest ≠ '*' :: more := by
      rintro more rfl
      exact flat.no_crossing ⟨[], more, rfl⟩
    rw [read]
    · rfl
    · exact single
  by_cases comma : c = ','
  · subst comma
    rw [read, State.comma, outside]
    rfl
  · have alone : tokenOf c = .char c := by
      unfold tokenOf
      split <;> simp_all
    rw [read, alone] <;> simp_all

/-- **A glob without groups is read character by character**, if it is read at all. -/
theorem read_flat {glob : List Char} (flat : IsFlat glob) {s s' : State} (outside : s.groups = [])
    (reads : read s glob = .ok s') :
    s'.groups = [] ∧ s'.branch = (glob.map tokenOf).reverse ++ s.branch := by
  induction glob generalizing s with
  | nil =>
      rw [read] at reads
      obtain rfl := Except.ok.inj reads
      exact ⟨outside, rfl⟩
  | cons c rest ih =>
      by_cases closing : c = '\x7d'
      · subst closing
        rw [read, State.closeGroup, outside] at reads
        cases reads
      · rw [read_flat_cons outside flat closing] at reads
        obtain ⟨outside', branch⟩ := ih flat.tail (s := s.push (tokenOf c) c) outside reads
        exact ⟨outside', by simp [branch, State.push]⟩

theorem exists_read_flat {glob : List Char} (flat : IsFlat glob) (open_end : '\x7d' ∉ glob) {s : State}
    (outside : s.groups = []) : ∃ s', read s glob = .ok s' := by
  induction glob generalizing s with
  | nil => exact ⟨s, by rw [read]⟩
  | cons c rest ih =>
      obtain ⟨here, behind⟩ := List.ne_and_not_mem_of_not_mem_cons open_end
      rw [read_flat_cons outside flat here.symm]
      exact ih flat.tail behind outside

theorem parse_flat {glob : List Char} (flat : IsFlat glob) {tokens : List GlobToken}
    (parsed : parse glob = .ok tokens) : tokens = glob.map tokenOf := by
  obtain ⟨s, reads, closed⟩ := exists_of_bind parsed
  obtain ⟨outside, branch⟩ := read_flat flat rfl reads
  rw [if_pos outside] at closed
  rw [← Except.ok.inj closed, branch]
  simp

theorem parse_of_flat {glob : List Char} (flat : IsFlat glob) (open_end : '\x7d' ∉ glob) :
    parse glob = .ok (glob.map tokenOf) := by
  obtain ⟨s, reads⟩ := exists_read_flat flat open_end (s := ⟨[], [], none, false⟩) rfl
  obtain ⟨outside, branch⟩ := read_flat flat rfl reads
  rw [parse, reads]
  exact (if_pos outside).trans (by simp [branch])

/-! ## What they match -/

theorem count_of_matches_token {c : Char} {bytes : List UInt8}
    (matched : BytePattern.Matches (tokenPattern (tokenOf c)) bytes) :
    bytes.count 0x2F = [c].count '/' := by
  unfold tokenOf at matched
  split at matched
  · rw [tokenPattern, BytePattern.matches_byte_iff] at matched
    obtain ⟨b, inside, rfl⟩ := matched
    exact List.count_eq_zero_of_not_mem (by simpa using (BytePattern.contains_notSlash.1 inside).symm)
  · rw [tokenPattern, BytePattern.matches_star_byte_iff] at matched
    exact List.count_eq_zero_of_not_mem fun member => BytePattern.contains_notSlash.1 (matched _ member) rfl
  · rw [tokenPattern, BytePattern.matches_exactly_iff] at matched
    rw [matched, count_bytesOf]

theorem count_of_matches {glob : List Char} {bytes : List UInt8}
    (matched : BytePattern.Matches (tokensPattern (glob.map tokenOf)) bytes) :
    bytes.count 0x2F = glob.count '/' := by
  induction glob generalizing bytes with
  | nil =>
      rw [List.map_nil, tokensPattern, BytePattern.matches_empty_iff] at matched
      rw [matched]
      rfl
  | cons c glob ih =>
      rw [List.map_cons, tokensPattern, BytePattern.matches_seq_iff] at matched
      obtain ⟨front, back, first, later, rfl⟩ := matched
      rw [List.count_append, count_of_matches_token first, ih later, ← List.count_append,
        List.singleton_append]

/-- No character on its own stands for `**`. -/
theorem map_tokenOf_ne (glob : List Char) : glob.map tokenOf ≠ [.anyStart] := by
  intro same
  obtain ⟨c, rfl, token⟩ := List.map_eq_singleton_iff.1 same
  unfold tokenOf at token
  split at token <;> cases token

/-- **What a glob without groups accepts has as many slashes as it.** -/
theorem count_of_accepts {glob path : List Char} (accepted : accepts (glob.map tokenOf) path = true) :
    path.count '/' = glob.count '/' := by
  unfold accepts at accepted
  split at accepted
  · rename_i start
    exact absurd start (map_tokenOf_ne glob)
  · dsimp only at accepted
    split at accepted
    · cases accepted
    · rw [← count_bytesOf, count_of_matches ((BytePattern.accepts_iff _ _).1 accepted)]

/-! ## Any names, so many deep -/

/-- The glob for any names in a row, with so many slashes between them. -/
def anyNames : Nat → List Char
  | 0 => ['*']
  | slashes + 1 => '*' :: '/' :: anyNames slashes

theorem anyNames_eq (slashes : Nat) : ∃ rest, anyNames slashes = '*' :: rest := by
  cases slashes <;> exact ⟨_, rfl⟩

theorem notMem_anyNames {c : Char} (no_star : c ≠ '*') (no_slash : c ≠ '/') (slashes : Nat) :
    c ∉ anyNames slashes := by
  induction slashes with
  | zero => exact fun member => no_star (List.mem_singleton.1 member)
  | succ slashes ih => simp [anyNames, no_star, no_slash, ih]

theorem count_anyNames (slashes : Nat) : (anyNames slashes).count '/' = slashes := by
  induction slashes with
  | zero => rfl
  | succ slashes ih => simp [anyNames, ih]

theorem getLast?_anyNames (slashes : Nat) : (anyNames slashes).getLast? = some '*' := by
  induction slashes with
  | zero => rfl
  | succ slashes ih =>
      obtain ⟨rest, same⟩ := anyNames_eq slashes
      rw [anyNames, same, List.getLast?_cons_cons, List.getLast?_cons_cons, ← same, ih]

theorem isFlat_anyNames (slashes : Nat) : IsFlat (anyNames slashes) where
  no_group := notMem_anyNames (by decide) (by decide) slashes
  no_class := notMem_anyNames (by decide) (by decide) slashes
  no_escape := notMem_anyNames (by decide) (by decide) slashes
  no_crossing := by
    induction slashes with
    | zero => decide
    | succ slashes ih =>
        simp only [anyNames, List.infix_cons_iff, List.cons_prefix_cons, true_and, not_or]
        exact ⟨fun early => absurd early.1 (by decide), fun late => absurd late.1 (by decide), ih⟩

theorem matches_anyChars {name : List Char} (whole : '/' ∉ name) :
    BytePattern.Matches (tokenPattern .anyChars) (bytesOf name) := by
  rw [tokenPattern, BytePattern.matches_star_byte_iff]
  intro b member
  refine BytePattern.contains_notSlash.2 ?_
  rintro rfl
  have none_there := List.count_eq_zero.2 whole
  rw [← count_bytesOf] at none_there
  exact List.count_eq_zero.1 none_there member

theorem matches_anyNames {slashes : Nat} {path : List Char} (slashed : path.count '/' = slashes) :
    BytePattern.Matches (tokensPattern ((anyNames slashes).map tokenOf)) (bytesOf path) := by
  induction slashes generalizing path with
  | zero =>
      have whole : '/' ∉ path := List.count_eq_zero.1 slashed
      have alone := (matches_anyChars whole).seq .empty
      rw [List.append_nil] at alone
      exact alone
  | succ slashes ih =>
      have slash : '/' ∈ path := List.count_pos_iff.1 (by omega)
      obtain ⟨front, back, rfl, whole⟩ := List.eq_append_cons_of_mem slash
      have behind : back.count '/' = slashes := by
        rw [List.count_append, List.count_cons_self, List.count_eq_zero.2 whole] at slashed
        omega
      have bytes : bytesOf (front ++ '/' :: back) = bytesOf front ++ (bytesOf ['/'] ++ bytesOf back) := by
        simp [bytesOf]
      rw [bytes]
      exact (matches_anyChars whole).seq ((BytePattern.matches_exactly_iff.2 rfl).seq (ih behind))

/-- **Any names in a row match every text with as many slashes.** -/
theorem accepts_anyNames {slashes : Nat} {path : List Char} (slashed : path.count '/' = slashes) :
    accepts ((anyNames slashes).map tokenOf) path = true := by
  have no_name : asksForName ((anyNames slashes).map tokenOf) = false := by
    have last : ((anyNames slashes).map tokenOf).getLast? = some .anyChars := by
      rw [List.getLast?_map, getLast?_anyNames]
      rfl
    obtain ⟨rest, first⟩ := anyNames_eq slashes
    rw [first, List.map_cons] at last ⊢
    have no_dot : asksForName.endsInDot (tokenOf '*' :: rest.map tokenOf) = false := by
      rw [asksForName.endsInDot, last]
    rw [asksForName, no_dot, Bool.false_and]
    exact nofun
  have matched := (BytePattern.accepts_iff _ _).2 (matches_anyNames slashed)
  unfold accepts
  split
  · rfl
  · simp only [no_name, matched]
    simp

end Glob

/-! ## Patterns as rules -/

/-- A pattern without the slashes in front of it and one at its end. -/
def bare (pattern : List Char) : List Char :=
  let path := pattern.dropWhile (· = '/')
  if path.getLast? = some '/' then path.dropLast else path

/-- How deep a pattern reaches: what stands between its slashes, those in front and one at the end
left aside. -/
def reach (pattern : List Char) : Nat := (Text.pieces '/' (bare pattern)).length

/-- A pattern that tells how deep it reaches: every character stands on its own, the last is no
White_Space, and there is something between the slashes. -/
structure TellsDepth (pattern : List Char) : Prop where
  flat : Glob.IsFlat pattern
  solid : Text.EndsSolid pattern
  named : ∃ s ∈ Text.pieces '/' pattern, s ≠ []

instance (pattern : List Char) : Decidable (TellsDepth pattern) :=
  decidable_of_iff (Glob.IsFlat pattern ∧ pattern.getLast?.any Text.isBlank = false ∧
      ∃ s ∈ Text.pieces '/' pattern, s ≠ [])
    ⟨fun ⟨a, b, c⟩ => ⟨a, (Option.any_eq_false _ _).1 b, c⟩,
      fun ⟨a, b, c⟩ => ⟨a, (Option.any_eq_false _ _).2 b, c⟩⟩

theorem bare_isInfix (pattern : List Char) : bare pattern <:+: pattern := by
  have behind := (List.dropWhile_suffix (· = '/') (l := pattern)).isInfix
  unfold bare
  dsimp only
  split
  · exact (List.dropLast_prefix _).isInfix.trans behind
  · exact behind

/-! ### Any names as a pattern -/

theorem dropWhile_anyNames (slashes : Nat) :
    (Glob.anyNames slashes).dropWhile (· = '/') = Glob.anyNames slashes := by
  obtain ⟨rest, starts⟩ := Glob.anyNames_eq slashes
  simp [starts]

theorem bare_anyNames (slashes : Nat) : bare (Glob.anyNames slashes) = Glob.anyNames slashes := by
  have other : ¬ (Glob.anyNames slashes).getLast? = some '/' := by
    rw [Glob.getLast?_anyNames]
    decide
  simp only [bare, dropWhile_anyNames, if_neg other]

theorem reach_anyNames (slashes : Nat) : reach (Glob.anyNames slashes) = slashes + 1 := by
  rw [reach, bare_anyNames, Text.length_pieces, Glob.count_anyNames]

theorem tellsDepth_anyNames (slashes : Nat) : TellsDepth (Glob.anyNames slashes) where
  flat := Glob.isFlat_anyNames slashes
  solid := by
    intro c last
    rw [Glob.getLast?_anyNames] at last
    obtain rfl := Option.some.inj last
    decide
  named := by
    obtain ⟨rest, starts⟩ := Glob.anyNames_eq slashes
    cases cut : Text.pieces '/' rest with
    | nil => exact absurd cut (Text.pieces_ne_nil '/' rest)
    | cons p ps => exact ⟨'*' :: p, by simp [starts, Text.pieces, cut], List.cons_ne_nil _ _⟩

namespace Rule

theorem restores_of_ofAnchored {path : List Char} {r : Rule}
    (reads : ofAnchored (anchor ('!' :: path)) = .ok r) : r.restores = true := by
  obtain ⟨more, trimmed⟩ : ∃ more, trimPattern (['!'] ++ '/' :: path.dropWhile (· = '/')) =
      ['!'] ++ '/' :: more := exists_of_trimPattern rfl _
  have anchored : anchor ('!' :: path) = ['!'] ++ '/' :: path.dropWhile (· = '/') := rfl
  rw [anchored, ofAnchored, trimmed] at reads
  dsimp only [List.singleton_append] at reads
  split at reads
  · exact Except.ok.inj reads ▸ rfl
  · cases reads

theorem anchor_plain {pattern : List Char} (plain : pattern.head? ≠ some '!') :
    anchor pattern = '/' :: pattern.dropWhile (· = '/') := by
  unfold anchor
  split
  · exact absurd rfl plain
  · rfl

theorem trimPattern_anchored {pattern : List Char} (solid : Text.EndsSolid pattern) :
    trimPattern ('/' :: pattern.dropWhile (· = '/')) = '/' :: pattern.dropWhile (· = '/') := by
  have behind := Text.endsSolid_of_suffix (List.dropWhile_suffix (· = '/')) solid
  have ends : Text.EndsSolid ('/' :: pattern.dropWhile (· = '/')) := by
    cases rest : pattern.dropWhile (· = '/') with
    | nil => exact fun c last => Option.some.inj last ▸ rfl
    | cons c cs =>
        rw [rest] at behind
        simpa [Text.EndsSolid] using behind
  rw [trimPattern, Text.trimEnd_of_solid ends]
  split <;> rfl

theorem globOf_flat {path : List Char} (flat : Glob.IsFlat path) :
    (globOf path).1 = if path.getLast? = some '/' then path.dropLast else path := by
  have not_deeper {part : List Char} (inside : part <:+: path) : ['/', '*', '*'].isSuffixOf part = false := by
    rw [← Bool.not_eq_true, List.isSuffixOf_iff_suffix]
    intro deeper
    have crossing : ['*', '*'] <:+: ['/', '*', '*'] := ⟨['/'], [], rfl⟩
    exact flat.no_crossing ((crossing.trans deeper.isInfix).trans inside)
  have front : path.dropLast <:+: path := (List.dropLast_prefix path).isInfix
  have no_escape : path.dropLast.getLast? ≠ some '\\' :=
    fun last => flat.no_escape (front.subset (List.mem_of_getLast? last))
  unfold globOf
  by_cases slash : path.getLast? = some '/'
  · simp only [if_pos slash, if_neg no_escape, not_deeper front, Bool.false_eq_true, if_false]
  · simp only [if_neg slash, not_deeper (List.infix_refl path), Bool.false_eq_true, if_false]

/-- A slash at the end is for directories only. -/
theorem globOf_onlyDirs (body : List Char) : (globOf body).2 = decide (body.getLast? = some '/') := by
  by_cases slash : body.getLast? = some '/' <;> simp [globOf, slash]

/-- What begins with a slash takes nothing back. -/
theorem ofAnchored_of_slash {pattern rest : List Char} (trimmed : trimPattern pattern = '/' :: rest) :
    ofAnchored pattern =
      match Glob.parse (globOf rest).1 with
      | .ok tokens => .ok ⟨false, (globOf rest).2, tokens⟩
      | .error e => .error ⟨String.ofList ('/' :: rest), e⟩ := by
  rw [ofAnchored, trimmed]
  rfl

/-- A pattern that takes nothing back is read as its bare glob. -/
theorem ofAnchored_plain {pattern : List Char} (tells : TellsDepth pattern)
    (plain : pattern.head? ≠ some '!') :
    ofAnchored (anchor pattern) =
      match Glob.parse (bare pattern) with
      | .ok tokens => .ok ⟨false, (globOf (pattern.dropWhile (· = '/'))).2, tokens⟩
      | .error e => .error ⟨String.ofList (anchor pattern), e⟩ := by
  have behind := tells.flat.of_infix (List.dropWhile_suffix (· = '/')).isInfix
  have glob : (globOf (pattern.dropWhile (· = '/'))).1 = bare pattern := globOf_flat behind
  rw [anchor_plain plain, ofAnchored_of_slash (trimPattern_anchored tells.solid), glob]

theorem ofAnchored_anyNames (slashes : Nat) :
    ofAnchored (anchor (Glob.anyNames slashes)) =
      .ok ⟨false, false, (Glob.anyNames slashes).map Glob.tokenOf⟩ := by
  have plain : (Glob.anyNames slashes).head? ≠ some '!' := by
    obtain ⟨rest, starts⟩ := Glob.anyNames_eq slashes
    simp [starts]
  have open_end : '\x7d' ∉ Glob.anyNames slashes :=
    Glob.notMem_anyNames (by decide) (by decide) slashes
  rw [ofAnchored_plain (tellsDepth_anyNames slashes) plain, bare_anyNames,
    Glob.parse_of_flat (Glob.isFlat_anyNames slashes) open_end, dropWhile_anyNames, globOf_onlyDirs,
    Glob.getLast?_anyNames]
  rfl

/-- **What a rule excludes is as deep as its pattern reaches.** -/
theorem count_of_applies {pattern : List Char} (tells : TellsDepth pattern) {r : Rule}
    (reads : ofAnchored (anchor pattern) = .ok r) (excludes : r.restores = false)
    {path : LocalPath} {isDir : Bool} (applied : r.applies path isDir = true) :
    pattern.head? ≠ some '!' ∧ path.chars.count '/' + 1 = reach pattern := by
  have plain : pattern.head? ≠ some '!' := by
    intro first
    cases pattern with
    | nil => cases first
    | cons c path =>
        obtain rfl := Option.some.inj first
        rw [restores_of_ofAnchored reads] at excludes
        cases excludes
  refine ⟨plain, ?_⟩
  rw [ofAnchored_plain tells plain] at reads
  split at reads
  · rename_i tokens parsed
    obtain rfl := Except.ok.inj reads
    have tokens_eq := Glob.parse_flat (tells.flat.of_infix (bare_isInfix pattern)) parsed
    have accepted := (Bool.and_eq_true_iff.1 applied).2
    rw [tokens_eq] at accepted
    rw [Glob.count_of_accepts accepted, reach, Text.length_pieces]
  · cases reads

end Rule

/-! ## Paths as rules see them -/

namespace Ruleset

open LocalPath Component

/-- Every rule is that of a pattern. -/
theorem exists_pattern_of_mem {root : LocalPath} {ps : List String} {s : Ruleset}
    (reads : ofPatterns root ps = .ok s) {r : Rule} (member : r ∈ s.rules) :
    ∃ p ∈ ps, Rule.ofAnchored (anchor p.toList) = .ok r := by
  induction ps generalizing s with
  | nil =>
      obtain rfl : (⟨root, [], []⟩ : Ruleset) = s := Except.ok.inj reads
      cases member
  | cons p ps ih =>
      obtain ⟨r', t, first, rest, rfl⟩ := exists_of_ofPatterns_cons reads
      rcases List.mem_cons.1 member with rfl | behind
      · exact ⟨p, List.mem_cons_self, first⟩
      · obtain ⟨p', inside, reads'⟩ := ih rest behind
        exact ⟨p', List.mem_cons_of_mem p inside, reads'⟩

/-- A path and what it lies in, up to where it starts. -/
def parts (rel : LocalPath) : List LocalPath := rel :: ancestors rel.chars.length rel

/-- What excludes is a rule that takes nothing back. -/
theorem exists_rule_of_verdict? {rules : List Rule} {path : LocalPath} {isDir : Bool}
    (excluded : verdict? rules path isDir = some true) :
    ∃ r ∈ rules, r.restores = false ∧ r.applies path isDir = true := by
  obtain ⟨r, found, excludes⟩ := Option.map_eq_some_iff.1 excluded
  have applied := List.find?_some (p := fun r : Rule => r.applies path isDir) found
  exact ⟨r, List.mem_reverse.1 (List.mem_of_find?_eq_some found), by simpa using excludes, applied⟩

/-- What is ignored of a path is a part of it that rules exclude. -/
theorem exists_part_of_isIgnored {s : Ruleset} {path rel : LocalPath} {isDir : Bool}
    (absolute : s.root.isAbsolute = true) (below : path.relativeTo? s.root = some rel)
    (leadless : rel.split.1 = none) (ignored : s.isIgnored path isDir = true) :
    rel.chars ≠ [] ∧ ∃ part ∈ parts rel, ∃ dir, verdict? s.rules part dir = some true := by
  simp only [isIgnored, below] at ignored
  split at ignored
  · cases ignored
  rename_i some_rel
  refine ⟨some_rel, ?_⟩
  simp only [excludes, seenFrom_of_leadless absolute leadless] at ignored
  split at ignored
  · cases ignored
  split at ignored
  · rename_i excluded own
    exact ⟨rel, List.mem_cons_self, isDir, ignored ▸ own⟩
  · cases first : (ancestors rel.chars.length rel).findSome? (verdict? s.rules · true) with
    | none => simp [first] at ignored
    | some excluded =>
        obtain rfl : excluded = true := by simpa [first] using ignored
        obtain ⟨part, member, verdict⟩ := List.exists_of_findSome?_eq_some first
        exact ⟨part, List.mem_cons_of_mem rel member, true, verdict⟩

/-- **What is ignored of a path is a part as deep as a pattern reaches**, by the slashes in its text. -/
theorem exists_reach {root path rel : LocalPath} {patterns : List String} {s : Ruleset} {isDir : Bool}
    (absolute : root.isAbsolute = true) (below : path.relativeTo? root = some rel)
    (leadless : rel.split.1 = none) (tell : ∀ p ∈ patterns, TellsDepth p.toList)
    (reads : ofPatterns root patterns = .ok s) (ignored : s.isIgnored path isDir = true) :
    rel.chars ≠ [] ∧ ∃ p ∈ patterns, p.toList.head? ≠ some '!' ∧
      ∃ part ∈ parts rel, part.chars.count '/' + 1 = reach p.toList := by
  have same := root_of_ofPatterns reads
  obtain ⟨some_rel, part, member, dir, excluded⟩ :=
    exists_part_of_isIgnored (same ▸ absolute) (same ▸ below) leadless ignored
  obtain ⟨r, inside, excludes, applied⟩ := exists_rule_of_verdict? excluded
  obtain ⟨p, pattern, reads'⟩ := exists_pattern_of_mem reads inside
  obtain ⟨plain, deep⟩ := Rule.count_of_applies (tell p pattern) reads' excludes applied
  exact ⟨some_rel, p, pattern, plain, part, member, deep⟩

/-! ### Segments and components -/

/-- What is left of a path below a directory is a way through the segments that are written there, of
which the first is not idle. -/
theorem exists_way_of_relativeTo? {p base rel : LocalPath} (absolute : base.isAbsolute = true)
    (found : p.relativeTo? base = some rel) :
    ∃ ss, rel = way ss ∧ (∀ s ∈ ss, '/' ∉ s) ∧ ∀ s, ss.head? = some s → isIdle s = false := by
  obtain ⟨-, rest, rfl, whole, -⟩ := exists_segments_of_relativeTo? absolute found
  exact ⟨_, rfl, fun s member => whole s (trimmed_subset rest member), fun s first => head_trimmed first⟩

theorem components_way {ss : List Segment} (whole : ∀ s ∈ ss, '/' ∉ s)
    (head : ∀ s, ss.head? = some s → isIdle s = false) : (way ss).components = ofSegments ss :=
  components_build_none whole head

/-- The text of a way has a slash for every segment but one. -/
theorem count_way {ss : List Segment} (some_segment : ss ≠ []) (whole : ∀ s ∈ ss, '/' ∉ s) :
    (way ss).chars.count '/' + 1 = ss.length := by
  rw [way, ← Text.length_pieces, Text.pieces_glue some_segment whole]

theorem length_components_busy {ss : List Segment} (busy : ∀ s ∈ ss, IsBusy s) :
    (way ss).components.length = ss.length := by
  rw [components_way (fun s member => (busy s member).2) fun s first =>
    (busy s (List.mem_of_mem_head? first)).1, ofSegments, List.filterMap_length_eq_length]
  intro s member
  have moves := (busy s member).1
  rw [isIdle, Option.isNone_eq_false_iff] at moves
  exact moves

/-- An idle segment is no component. -/
theorem length_components_lt {ss : List Segment} (whole : ∀ s ∈ ss, '/' ∉ s)
    (head : ∀ s, ss.head? = some s → isIdle s = false) {segment : Segment} (member : segment ∈ ss)
    (idle : isIdle segment = true) : (way ss).components.length < ss.length := by
  rw [components_way whole head, ofSegments, List.length_filterMap_lt_length_iff_exists]
  exact ⟨segment, member, isIdle_iff.1 idle⟩

theorem prefix_of_dropLastComponent {ss rest : List Segment}
    (dropped : dropLastComponent ss = some rest) : rest <+: ss := by
  unfold dropLastComponent at dropped
  split at dropped
  · cases dropped
  · rename_i last front kept
    obtain rfl := Option.some.inj dropped
    have behind : front <:+ ss.reverse :=
      (List.suffix_cons last front).trans (kept ▸ List.dropWhile_suffix isIdle)
    have short : front.reverse <+: ss := by simpa using List.reverse_prefix.2 behind
    exact (dropIdleEnd_isPrefix _).trans short

/-- What a path lies in has no more components than it. -/
theorem length_components_of_mem_ancestors {fuel : Nat} {ss : List Segment} (whole : ∀ s ∈ ss, '/' ∉ s)
    (head : ∀ s, ss.head? = some s → isIdle s = false) {part : LocalPath}
    (member : part ∈ ancestors fuel (way ss)) :
    part.components.length ≤ (way ss).components.length := by
  induction fuel generalizing ss with
  | zero => cases member
  | succ fuel ih =>
      simp only [ancestors, parent?, split_way_of_head whole head] at member
      cases dropped : dropLastComponent ss with
      | none => simp [dropped] at member
      | some rest =>
          simp only [dropped] at member
          have front := prefix_of_dropLastComponent dropped
          have rest_whole : ∀ s ∈ rest, '/' ∉ s := fun s inside => whole s (front.subset inside)
          have rest_head : ∀ s, rest.head? = some s → isIdle s = false := by
            intro s first
            obtain ⟨behind, rfl⟩ := front
            exact head s (by rw [List.head?_append, first]; rfl)
          have fewer : (way rest).components.length ≤ (way ss).components.length := by
            rw [components_way whole head, components_way rest_whole rest_head]
            exact (front.sublist.filterMap _).length_le
          rcases List.mem_cons.1 member with rfl | above
          · exact fewer
          · exact Nat.le_trans (ih rest_whole rest_head above) fewer

/-- With no idle segment in its text, a part of a path has as many components as pieces. -/
theorem exists_part_of_count {ss : List Segment} (busy : ∀ s ∈ ss, IsBusy s) (some_segment : ss ≠ [])
    {part : LocalPath} (member : part ∈ parts (way ss)) :
    ∃ part' ∈ parts (way ss), part'.components.length = part.chars.count '/' + 1 := by
  have all_parts : parts (way ss) = (ss :: above ss).map way :=
    congrArg (way ss :: ·) (ancestors_way_busy busy (length_le_glue_busy busy))
  have taken {front : List Segment} (member : front ∈ ss :: above ss) : ∀ s ∈ front, IsBusy s := by
    rcases List.mem_cons.1 member with rfl | above
    · exact busy
    · obtain ⟨k, -, rfl⟩ := mem_above.1 above
      exact fun s inside => busy s (List.mem_of_mem_take inside)
  rw [all_parts] at member ⊢
  obtain ⟨front, inside, rfl⟩ := List.mem_map.1 member
  by_cases empty : front = []
  · -- The empty part has no slash, as the first name alone has none.
    subst empty
    have single : ss.take 1 ∈ ss :: above ss := by
      rcases Nat.lt_or_ge 1 ss.length with longer | short
      · exact List.mem_cons_of_mem ss (mem_above.2 ⟨1, longer, rfl⟩)
      · rw [List.take_of_length_le short]
        exact List.mem_cons_self
    refine ⟨way (ss.take 1), List.mem_map_of_mem single, ?_⟩
    have some_length := List.length_pos_iff.2 some_segment
    rw [length_components_busy (taken single), List.length_take, Nat.min_eq_left some_length]
    rfl
  · refine ⟨way front, List.mem_map_of_mem inside, ?_⟩
    rw [length_components_busy (taken inside), count_way empty fun s here => (taken inside s here).2]

/-! ### The bound -/

/-- Some pattern that takes nothing back reaches just as deep as a part of a path. -/
def Reached (patterns : List String) (rel : LocalPath) : Prop :=
  ∃ p ∈ patterns, p.toList.head? ≠ some '!' ∧
    ∃ part ∈ parts rel, part.components.length = reach p.toList

/-- A pattern that is any names in a row excludes every path with as many slashes. -/
theorem exists_ignored_anyNames {root path rel : LocalPath} (absolute : root.isAbsolute = true)
    (below : path.relativeTo? root = some rel) (leadless : rel.split.1 = none) (some_rel : rel.chars ≠ []) :
    ∃ s, ofPatterns root [String.ofList (Glob.anyNames (rel.chars.count '/'))] = .ok s ∧
      s.isIgnored path false = true := by
  generalize same : Glob.anyNames (rel.chars.count '/') = pattern
  have read : Rule.ofAnchored (anchor (String.ofList pattern).toList) =
      .ok ⟨false, false, pattern.map Glob.tokenOf⟩ := by
    rw [String.toList_ofList, ← same, Rule.ofAnchored_anyNames]
  refine ⟨_, ofPatterns_cons read (t := ⟨root, [], []⟩) rfl, ?_⟩
  have applied : Rule.applies ⟨false, false, pattern.map Glob.tokenOf⟩ rel false = true :=
    same ▸ Glob.accepts_anyNames rfl
  have own : verdict? [⟨false, false, pattern.map Glob.tokenOf⟩] rel false = some true := by
    simp [verdict?, applied]
  simp only [isIgnored, below, if_neg some_rel, excludes, List.isEmpty_cons, Bool.false_eq_true, if_false,
    seenFrom_of_leadless absolute leadless, own]

/-- **When the names of a path tell which patterns can exclude it.**  That a path is ignored only with
a part of it as deep as some pattern reaches holds for every list of patterns just if no segment is idle
in what is written of the path below the directory of the rules. -/
theorem reach_bound_iff {root path rel : LocalPath} (absolute : root.isAbsolute = true)
    (below : path.relativeTo? root = some rel) :
    (∀ (patterns : List String) (s : Ruleset) (isDir : Bool), (∀ p ∈ patterns, TellsDepth p.toList) →
      ofPatterns root patterns = .ok s → s.isIgnored path isDir = true → Reached patterns rel) ↔
    ∀ segment ∈ rel.split.2, isIdle segment = false := by
  obtain ⟨ss, rfl, whole, head⟩ := exists_way_of_relativeTo? absolute below
  have split : (way ss).split = (none, ss) := split_way_of_head whole head
  have leadless : (way ss).split.1 = none := by rw [split]
  rw [split]
  constructor
  · -- A path with an idle segment has fewer components than pieces, and all its parts have no more.
    intro bounded segment member
    by_contra idle
    have idle : isIdle segment = true := by simpa using idle
    have some_segment : ss ≠ [] := List.ne_nil_of_mem member
    have count := count_way some_segment whole
    have fewer := length_components_lt whole head member idle
    have some_rel : (way ss).chars ≠ [] := by
      intro empty
      have alone : ss.length = 1 := by rw [← count, empty]; rfl
      obtain ⟨only, rfl⟩ := List.length_eq_one_iff.1 alone
      obtain rfl := List.mem_singleton.1 member
      rw [head segment rfl] at idle
      cases idle
    obtain ⟨s, reads, ignored⟩ := exists_ignored_anyNames absolute below leadless some_rel
    obtain ⟨p, only, -, part, inside, as_deep⟩ :=
      bounded _ s false (by simpa using tellsDepth_anyNames _) reads ignored
    obtain rfl := List.mem_singleton.1 only
    rw [String.toList_ofList, reach_anyNames, count] at as_deep
    have no_more : part.components.length ≤ (way ss).components.length := by
      rcases List.mem_cons.1 inside with rfl | above
      · exact Nat.le_refl _
      · exact length_components_of_mem_ancestors whole head above
    omega
  · intro moves patterns s isDir tell reads ignored
    have busy : ∀ segment ∈ ss, IsBusy segment :=
      fun segment member => ⟨moves segment member, whole segment member⟩
    obtain ⟨some_rel, p, pattern, plain, part, member, deep⟩ :=
      exists_reach absolute below leadless tell reads ignored
    have some_segment : ss ≠ [] := by
      rintro rfl
      exact some_rel rfl
    obtain ⟨part', member', as_deep⟩ := exists_part_of_count busy some_segment member
    exact ⟨p, pattern, plain, part', member', as_deep.trans deep⟩

/-- Whether patterns below a directory exclude a file. -/
def excludesFile (root : LocalPath) (patterns : List String) (path : LocalPath) : Option Bool :=
  (ofPatterns root patterns).toOption.map (·.isIgnored path false)

/-- Rules for what is three names deep, and for a directory. -/
def depthRules : List String := ["*/*/*", "!/lib/", "/lib/"]

/-- In a path that is written without idle segments, what is ignored is the directory, and the rule for it
reaches as deep. -/
theorem reach_bound_iff_of_names :
    let root := LocalPath.ofString "/app"
    let path := LocalPath.ofString "/app/lib/main.js"
    let rel := LocalPath.ofString "lib/main.js"
    root.isAbsolute = true ∧ path.relativeTo? root = some rel ∧
      (∀ segment ∈ rel.split.2, isIdle segment = false) ∧ (∀ p ∈ depthRules, TellsDepth p.toList) ∧
      excludesFile root depthRules path = some true ∧ Reached depthRules rel := by
  intro root path rel
  have absolute : root.isAbsolute = true := by decide
  have below : path.relativeTo? root = some rel := by decide
  have moves : ∀ segment ∈ rel.split.2, isIdle segment = false := by decide
  have tell : ∀ p ∈ depthRules, TellsDepth p.toList := by decide +kernel
  have answer : excludesFile root depthRules path = some true := by decide +kernel
  refine ⟨absolute, below, moves, tell, answer, ?_⟩
  obtain ⟨s, reads, ignored⟩ := exists_of_toOption answer
  exact (reach_bound_iff absolute below).2 moves depthRules s false tell reads ignored

/-- **A rule can exclude what is less deep than it reaches**: a slash too much in the text of a path
counts as a name for the rule, and not for the path. -/
theorem ignored_beyond_reach :
    let root := LocalPath.ofString "/app"
    let rel := LocalPath.ofString "lib//main.js"
    let rules := ["lib/*/main.js"]
    (LocalPath.ofString "/app/lib//main.js").relativeTo? root = some rel ∧
      (LocalPath.ofString "/app/lib//main.js").Same (.ofString "/app/lib/main.js") ∧
      (∀ p ∈ rules, TellsDepth p.toList) ∧
      excludesFile root rules (.ofString "/app/lib//main.js") = some true ∧
      excludesFile root rules (.ofString "/app/lib/main.js") = some false ∧
      (rules.map fun p => reach p.toList) = [3] ∧ (parts rel).map (·.components.length) = [2, 1, 0] ∧
      ¬ Reached rules rel := by
  intro root rel rules
  have deep : reach "lib/*/main.js".toList = 3 := by decide +kernel
  have lengths : (parts rel).map (·.components.length) = [2, 1, 0] := by decide +kernel
  refine ⟨by decide, by decide, by decide +kernel, by decide +kernel, by decide +kernel, by decide +kernel,
    lengths, ?_⟩
  rintro ⟨p, only, -, part, inside, as_deep⟩
  obtain rfl := List.mem_singleton.1 only
  have three : 3 ∈ (parts rel).map (·.components.length) :=
    List.mem_map.2 ⟨part, inside, as_deep.trans deep⟩
  rw [lengths] at three
  revert three
  decide

end Ruleset

end Ignore

end DevMode
