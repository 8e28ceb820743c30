/-
# DevMode.Proofs.DottedRules -- rules whose path begins with `./`

Rules see a path by the names that lead to it, and none of these is a dot.  So a rule that keeps
the `./` in front of its path, as one behind a `!` does, speaks of nothing.

* `exists_of_parse_dotted` follows a glob with `./` in front while it is read: groups, commas and
  stars behind it leave a dot and what begins with a slash in place (`dotted_read`).
* `Rule.applies_dotted` says that such a rule speaks of no path, and `isIgnored_without_dotted`
  that the others say the same without it.
-/
import DevMode.Proofs.Ignored
import DevMode.Proofs.Matching
import DevMode.Text.Utf8
import Mathlib.Data.List.Basic

namespace DevMode

set_option autoImplicit false

namespace Ignore

/-! ## Patterns that begin with a byte -/

namespace BytePattern

/-- A pattern for texts that begin with one byte. -/
structure OpensWith (x : UInt8) (p : BytePattern) : Prop where
  nullable : p.nullable = false
  residues : ∀ b, b ≠ x → p.residues b = []

theorem opensWith_byte (x : UInt8) : OpensWith x (.byte (.one x)) :=
  ⟨rfl, fun b other => by rw [BytePattern.residues, if_neg fun inside => other (contains_one.1 inside)]⟩

theorem OpensWith.seq {x : UInt8} {p : BytePattern} (opens : OpensWith x p) (q : BytePattern) :
    OpensWith x (.seq p q) :=
  ⟨by rw [BytePattern.nullable, opens.nullable, Bool.false_and], fun b other => by
    simp [BytePattern.residues, opens.residues b other, opens.nullable]⟩

theorem OpensWith.alt {x : UInt8} {p q : BytePattern} (left : OpensWith x p) (right : OpensWith x q) :
    OpensWith x (.alt p q) :=
  ⟨by rw [BytePattern.nullable, left.nullable, right.nullable, Bool.or_false], fun b other => by
    rw [BytePattern.residues, left.residues b other, right.residues b other, List.append_nil]⟩

theorem acceptsAny_nil (text : List UInt8) : acceptsAny [] text = false := by
  induction text with
  | nil => rfl
  | cons b bs ih => exact ih

theorem acceptsAny_cons (ps : List BytePattern) (b : UInt8) (bs : List UInt8) :
    acceptsAny ps (b :: bs) = acceptsAny (ps.flatMap (residues b)).eraseDups bs := rfl

theorem OpensWith.exists_of_accepts {x : UInt8} {p : BytePattern} (opens : OpensWith x p)
    {text : List UInt8} (accepted : p.accepts text = true) : ∃ rest, text = x :: rest := by
  cases text with
  | nil => exact absurd accepted (by simp [accepts, acceptsAny, opens.nullable])
  | cons b bs =>
      by_cases same : b = x
      · exact ⟨bs, by rw [same]⟩
      · rw [accepts, acceptsAny_cons, List.flatMap_singleton, opens.residues b same,
          List.eraseDups_nil, acceptsAny_nil] at accepted
        cases accepted

/-- What is left of a byte and a pattern behind it. -/
theorem accepts_exactly_seq {x : UInt8} {q : BytePattern} {bs : List UInt8} :
    (BytePattern.seq (exactly [x]) q).accepts (x :: bs) = q.accepts bs := by
  have inside : (ByteSet.one x).contains x = true := contains_one.2 rfl
  rw [accepts, acceptsAny_cons, List.flatMap_singleton]
  simp [exactly, inOrder, BytePattern.residues, inside, BytePattern.nullable, andThen, accepts,
    List.eraseDups_cons]

end BytePattern

namespace Glob

/-- A token whose text begins with a slash. -/
def OpensWithSlash : GlobToken → Prop
  | .char '/' | .anyMiddle | .anyEnd => True
  | _ => False

theorem opensWith_of_slash {t : GlobToken} (slash : OpensWithSlash t) :
    BytePattern.OpensWith 0x2F (tokenPattern t) := by
  have one := BytePattern.opensWith_byte 0x2F
  unfold OpensWithSlash at slash
  split at slash
  · rw [tokenPattern]
    exact one.seq .empty
  · rw [tokenPattern]
    exact one.alt (one.seq _)
  · rw [tokenPattern]
    exact one.seq _
  · cases slash

/-! ## How a glob that begins with `./` is read -/

/-- The tokens outside all groups so far, backwards. -/
def State.outermost (s : State) : List GlobToken :=
  (s.groups.getLast?.map (·.before)).getD s.branch

/-- Tokens that begin with a dot and a slash, backwards. -/
def BeginsDotted (tokens : List GlobToken) : Prop :=
  ∃ behind slash, OpensWithSlash slash ∧ tokens = behind ++ [slash, .char '.']

theorem BeginsDotted.cons {tokens : List GlobToken} (dotted : BeginsDotted tokens) (t : GlobToken) :
    BeginsDotted (t :: tokens) := by
  obtain ⟨behind, slash, opens, rfl⟩ := dotted
  exact ⟨t :: behind, slash, opens, rfl⟩

namespace State

variable {s : State}

theorem dotted_push (dotted : BeginsDotted s.outermost) (t : GlobToken) (c : Char) :
    BeginsDotted (s.push t c).outermost := by
  unfold outermost at dotted ⊢
  rw [push]
  cases inside : s.groups.getLast? with
  | none => rw [inside] at dotted; exact dotted.cons t
  | some g => rwa [inside] at dotted

theorem outermost_openGroup (s : State) : s.openGroup.outermost = s.outermost := by
  rw [outermost, outermost, openGroup]
  cases inside : s.groups with
  | nil => rfl
  | cons g gs => simp [List.getLast?_cons]

theorem dotted_comma (dotted : BeginsDotted s.outermost) : BeginsDotted s.comma.outermost := by
  unfold comma
  split
  · exact dotted_push dotted _ _
  · rename_i g gs inside
    unfold outermost at dotted ⊢
    rw [inside] at dotted
    cases gs with
    | nil => exact dotted
    | cons h hs => exact dotted

theorem dotted_closeGroup {s' : State} (closes : s.closeGroup = .ok s')
    (dotted : BeginsDotted s.outermost) : BeginsDotted s'.outermost := by
  unfold closeGroup at closes
  split at closes
  · cases closes
  · rename_i g gs inside
    obtain rfl := Except.ok.inj closes
    unfold outermost at dotted ⊢
    rw [inside] at dotted
    cases gs with
    | nil => exact BeginsDotted.cons dotted _
    | cons h hs => exact dotted

/-- Two stars take a slash into themselves, and stand for one then. -/
theorem dotted_crossing (dotted : BeginsDotted s.outermost) (atEnd : Bool) (c : Char) :
    BeginsDotted (s.crossing atEnd c).outermost := by
  unfold crossing
  split
  · exact dotted
  · exact dotted
  · rename_i t before _ _ branch
    unfold outermost at dotted ⊢
    cases inside : s.groups.getLast? with
    | some g => rwa [inside] at dotted
    | none =>
        rw [inside] at dotted
        obtain ⟨behind, slash, opens, tokens⟩ := dotted
        have tokens : t :: before = behind ++ [slash, .char '.'] := branch ▸ tokens
        have crossed : OpensWithSlash (if atEnd then .anyEnd else .anyMiddle) := by
          cases atEnd <;> trivial
        cases behind with
        | nil =>
            obtain ⟨-, rfl⟩ := List.cons.inj tokens
            exact ⟨[], _, crossed, rfl⟩
        | cons u us =>
            obtain ⟨-, rfl⟩ := List.cons.inj tokens
            exact ⟨_ :: us, slash, opens, rfl⟩
  · exact dotted

theorem dotted_doubleStar (dotted : BeginsDotted s.outermost) (rest : List Char) :
    BeginsDotted (s.doubleStar rest).1.outermost := by
  have stars : BeginsDotted s.starStar.outermost := dotted_push (dotted_push dotted _ _) _ _
  unfold doubleStar
  simp only
  repeat' split
  all_goals first
    | exact stars
    | exact dotted_push dotted _ _
    | exact dotted_crossing dotted _ _

end State

theorem dotted_read {s s' : State} {cs : List Char} (reads : read s cs = .ok s')
    (dotted : BeginsDotted s.outermost) : BeginsDotted s'.outermost := by
  fun_induction read s cs with
  | case1 => exact Except.ok.inj reads ▸ dotted
  | case3 s rest _ ih => exact ih reads (State.dotted_doubleStar dotted rest)
  | case9 s rest ih => exact ih reads (s.outermost_openGroup ▸ dotted)
  | case11 s rest t closes ih => exact ih reads (State.dotted_closeGroup closes dotted)
  | case12 s rest ih => exact ih reads (State.dotted_comma dotted)
  | case6 => cases reads
  | case10 => cases reads
  | case13 => cases reads
  | case7 s rest _ _ ih => exact ih reads (State.dotted_push dotted (.char '[') '[')
  | _ =>
      rename_i ih
      exact ih reads (State.dotted_push dotted _ _)

/-- **The tokens of a glob with `./` in front are a dot and what begins with a slash.** -/
theorem exists_of_parse_dotted {glob : List Char} {tokens : List GlobToken}
    (parsed : parse ('.' :: '/' :: glob) = .ok tokens) :
    ∃ slash rest, OpensWithSlash slash ∧ tokens = .char '.' :: slash :: rest := by
  obtain ⟨s, reads, closed⟩ := exists_of_bind parsed
  rw [read, read] at reads
  · have dotted := dotted_read reads ⟨[], .char '/', trivial, rfl⟩
    split at closed
    · rename_i no_group
      rw [State.outermost, no_group] at dotted
      obtain ⟨behind, slash, opens, branch⟩ := dotted
      have branch : s.branch = behind ++ [slash, .char '.'] := branch
      refine ⟨slash, behind.reverse, opens, ?_⟩
      rw [← Except.ok.inj closed, branch]
      simp
    · cases closed
  all_goals simp

/-! ## What a glob that begins with `./` matches -/

/-- A text whose bytes begin with that of an ASCII character begins with the character. -/
theorem exists_of_bytesOf {c : Char} (ascii : c.toNat < 128) {chars : List Char} {rest : List UInt8}
    (bytes : bytesOf chars = c.toNat.toUInt8 :: rest) :
    ∃ more, chars = c :: more ∧ bytesOf more = rest := by
  have whole : c.toNat.toUInt8.toNat = c.toNat := by
    rw [Nat.toUInt8_eq, UInt8.toNat_ofNat']
    omega
  cases chars with
  | nil => cases bytes
  | cons d ds =>
      rw [bytesOf, List.flatMap_cons] at bytes
      rcases first : String.utf8EncodeChar d with _ | ⟨x, xs⟩
      · exact absurd first String.utf8EncodeChar_ne_nil
      · rw [first, List.cons_append] at bytes
        obtain ⟨rfl, behind⟩ := List.cons.inj bytes
        have member : c.toNat.toUInt8 ∈ String.utf8EncodeChar d := first ▸ List.mem_cons_self
        have same : d.toNat = c.toNat :=
          (Text.toNat_of_mem_utf8EncodeChar member (whole.symm ▸ ascii)).trans whole
        obtain rfl : d = c := Char.toNat_inj.1 same
        rw [Text.utf8EncodeChar_ascii ascii] at first
        obtain ⟨-, rfl⟩ := List.cons.inj first
        exact ⟨ds, rfl, behind⟩

theorem eq_nil_of_bytesOf {chars : List Char} (bytes : bytesOf chars = []) : chars = [] := by
  cases chars with
  | nil => rfl
  | cons d ds =>
      rw [bytesOf, List.flatMap_cons] at bytes
      exact absurd (List.append_eq_nil_iff.1 bytes).1 String.utf8EncodeChar_ne_nil

/-- Tokens of a glob that begins with `./`, or is a dot. -/
def IsDotted (tokens : List GlobToken) : Prop :=
  tokens = [.char '.'] ∨ ∃ slash rest, OpensWithSlash slash ∧ tokens = .char '.' :: slash :: rest

/-- Such tokens match a dot only, or what begins with `./`. -/
theorem IsDotted.of_accepts {tokens : List GlobToken} (dotted : IsDotted tokens) {chars : List Char}
    (accepted : accepts tokens chars = true) : chars = ['.'] ∨ ∃ more, chars = '.' :: '/' :: more := by
  obtain ⟨ts, rfl⟩ : ∃ ts, tokens = .char '.' :: ts := by
    rcases dotted with rfl | ⟨slash, rest, -, rfl⟩
    · exact ⟨_, rfl⟩
    · exact ⟨_, rfl⟩
  have matched : (BytePattern.seq (.exactly [0x2E]) (tokensPattern ts)).accepts (bytesOf chars) = true := by
    unfold accepts at accepted
    split at accepted
    · rename_i start
      cases start
    · dsimp only at accepted
      split at accepted
      · cases accepted
      · exact accepted
  have opens := ((BytePattern.opensWith_byte 0x2E).seq .empty).seq (tokensPattern ts)
  obtain ⟨rest, bytes⟩ := opens.exists_of_accepts matched
  obtain ⟨more, rfl, rfl⟩ := exists_of_bytesOf (c := '.') (by decide) bytes
  rw [bytes, BytePattern.accepts_exactly_seq] at matched
  rcases dotted with same | ⟨slash, others, slashed, same⟩
  · obtain ⟨-, rfl⟩ := List.cons.inj same
    refine .inl (congrArg _ (eq_nil_of_bytesOf ?_))
    cases left : bytesOf more with
    | nil => rfl
    | cons b bs =>
        rw [left, tokensPattern, BytePattern.accepts, BytePattern.acceptsAny_cons] at matched
        exact absurd matched (by simp [BytePattern.residues, BytePattern.acceptsAny_nil])
  · obtain ⟨-, rfl⟩ := List.cons.inj same
    rw [tokensPattern] at matched
    obtain ⟨behind, bytes'⟩ := ((opensWith_of_slash slashed).seq _).exists_of_accepts matched
    obtain ⟨left, rfl, -⟩ := exists_of_bytesOf (c := '/') (by decide) bytes'
    exact .inr ⟨left, rfl⟩

end Glob

namespace Rule

/-- Without a slash at its end, a glob that begins with `./` is a dot or begins so still. -/
theorem globOf_dotted (path : List Char) :
    (globOf ('.' :: '/' :: path)).1 = ['.'] ∨
      ∃ more, (globOf ('.' :: '/' :: path)).1 = '.' :: '/' :: more := by
  have deepened (more : List Char) :
      ∃ further, (if ['/', '*', '*'].isSuffixOf ('.' :: '/' :: more) then
        '.' :: '/' :: more ++ ['/', '*'] else '.' :: '/' :: more) = '.' :: '/' :: further := by
    split
    · exact ⟨more ++ ['/', '*'], rfl⟩
    · exact ⟨more, rfl⟩
  cases path with
  | nil => exact .inl (by decide)
  | cons c cs =>
      refine .inr ?_
      unfold globOf
      split
      rename_i glob onlyDirs cut
      split at cut
      · dsimp only at cut
        obtain ⟨rfl, -⟩ := Prod.mk.inj cut
        split
        · rename_i escaped
          cases cs with
          | nil => exact absurd escaped (by simp)
          | cons d ds => exact deepened _
        · exact deepened _
      · obtain ⟨rfl, -⟩ := Prod.mk.inj cut
        exact deepened _

theorem exists_of_trimPattern {front : List Char} {c : Char} (black : Text.isBlank c = false)
    (rest : List Char) : ∃ more, trimPattern (front ++ c :: rest) = front ++ c :: more := by
  rw [trimPattern]
  split
  · exact ⟨rest, rfl⟩
  · rw [Text.trimEnd, List.reverse_append, List.reverse_cons, List.append_assoc, List.dropWhile_append]
    split
    · exact ⟨[], by simp [black]⟩
    · exact ⟨(List.dropWhile Text.isBlank rest.reverse).reverse, by simp⟩

/-- A rule that takes back has the tokens of what stands behind the mark and the slash. -/
theorem parse_of_ofAnchored {pattern body : List Char} {r : Rule}
    (restores : trimPattern pattern = '!' :: body) (reads : ofAnchored pattern = .ok r) :
    Glob.parse (globOf (body.drop 1)).1 = .ok r.tokens := by
  rw [ofAnchored, restores] at reads
  dsimp only at reads
  split at reads
  · rename_i tokens parsed
    obtain rfl := Except.ok.inj reads
    exact parsed
  · cases reads

/-- **A rule that takes back what begins with `./`.** -/
theorem isDotted_of_ofAnchored {path : List Char} {r : Rule}
    (reads : ofAnchored (anchor ('!' :: '.' :: '/' :: path)) = .ok r) : Glob.IsDotted r.tokens := by
  have anchored : anchor ('!' :: '.' :: '/' :: path) = ['!', '/', '.'] ++ '/' :: path := rfl
  obtain ⟨more, trimmed⟩ : ∃ more, trimPattern (['!', '/', '.'] ++ '/' :: path) =
      ['!', '/', '.'] ++ '/' :: more := exists_of_trimPattern rfl path
  rw [anchored] at reads
  have parsed : Glob.parse (globOf ('.' :: '/' :: more)).1 = .ok r.tokens :=
    parse_of_ofAnchored trimmed reads
  rcases globOf_dotted more with dot | ⟨further, glob⟩
  · rw [dot] at parsed
    have alone : Glob.parse ['.'] = .ok [.char '.'] := by
      simp [Glob.parse, Glob.read, bind, Except.bind, Glob.State.push]
    exact .inl (Except.ok.inj (parsed.symm.trans alone))
  · rw [glob] at parsed
    exact .inr (Glob.exists_of_parse_dotted parsed)

open LocalPath

/-- **Such a rule speaks of nothing that names lead to.** -/
theorem applies_dotted {r : Rule} (dotted : Glob.IsDotted r.tokens) {names : List Segment}
    (named : ∀ s ∈ names, Segment.IsName s) (isDir : Bool) : r.applies (way names) isDir = false := by
  cases applied : r.applies (way names) isDir with
  | false => rfl
  | true =>
      have accepted := (Bool.and_eq_true_iff.1 applied).2
      rcases dotted.of_accepts accepted with dot | ⟨more, lead⟩
      · have some_name : names ≠ [] := by
          rintro rfl
          cases dot
        have alone : names = [['.']] := by
          rw [← pieces_glue_names named some_name, show Text.glue '/' names = ['.'] from dot]
          rfl
        exact absurd rfl (named ['.'] (by simp [alone])).2.1
      · have none_there := Ruleset.after?_dot_way named
        rw [lead] at none_there
        cases none_there

end Rule

namespace Ruleset

open LocalPath

theorem root_of_ofPatterns {root : LocalPath} {ps : List String} {s : Ruleset}
    (reads : ofPatterns root ps = .ok s) : s.root = root := by
  obtain ⟨rules, -, same⟩ := exists_of_bind reads
  rw [← Except.ok.inj same]

/-- Rules are read one by one. -/
theorem exists_of_ofPatterns_cons {root : LocalPath} {p : String} {ps : List String} {s : Ruleset}
    (reads : ofPatterns root (p :: ps) = .ok s) :
    ∃ r t, Rule.ofAnchored (anchor p.toList) = .ok r ∧ ofPatterns root ps = .ok t ∧
      s = ⟨root, p :: ps, r :: t.rules⟩ := by
  obtain ⟨rules, all, same⟩ := exists_of_bind reads
  rw [List.mapM_cons] at all
  obtain ⟨r, first, behind⟩ := exists_of_bind all
  obtain ⟨rs, rest, joined⟩ := exists_of_bind behind
  refine ⟨r, ⟨root, ps, rs⟩, first, ?_, ?_⟩
  · rw [ofPatterns, rest]
    rfl
  · rw [← Except.ok.inj same, ← Except.ok.inj joined]

theorem ofPatterns_cons {root : LocalPath} {p : String} {ps : List String} {r : Rule} {t : Ruleset}
    (first : Rule.ofAnchored (anchor p.toList) = .ok r) (rest : ofPatterns root ps = .ok t) :
    ofPatterns root (p :: ps) = .ok ⟨root, p :: ps, r :: t.rules⟩ := by
  obtain ⟨rules, all, same⟩ := exists_of_bind rest
  rw [ofPatterns, List.mapM_cons, first, all, ← Except.ok.inj same]
  rfl

theorem verdict?_cons (r : Rule) (rules : List Rule) (path : LocalPath) (isDir : Bool) :
    verdict? (r :: rules) path isDir =
      (verdict? rules path isDir).or (if r.applies path isDir then some (!r.restores) else none) := by
  rw [verdict?, verdict?, List.reverse_cons, List.find?_append]
  cases rules.reverse.find? (·.applies path isDir) with
  | some r => rfl
  | none => cases applied : r.applies path isDir <;> simp [applied]

/-- A pattern that takes back what begins with `./`. -/
def takesBackDotted (pattern : String) : Bool := ['!', '.', '/'].isPrefixOf pattern.toList

theorem exists_of_takesBackDotted {pattern : String} (dotted : takesBackDotted pattern = true) :
    ∃ path, pattern.toList = '!' :: '.' :: '/' :: path := by
  obtain ⟨path, same⟩ := List.isPrefixOf_iff_prefix.1 dotted
  exact ⟨path, same.symm⟩

/-- Without the patterns that take back what begins with `./`, rules say the same of what names
lead to. -/
theorem exists_without_dotted {root : LocalPath} {ps : List String} {s : Ruleset}
    (reads : ofPatterns root ps = .ok s) :
    ∃ t, ofPatterns root (ps.filter (!takesBackDotted ·)) = .ok t ∧
      ∀ names : List Segment, (∀ n ∈ names, Segment.IsName n) → ∀ isDir,
        verdict? s.rules (way names) isDir = verdict? t.rules (way names) isDir := by
  induction ps generalizing s with
  | nil => exact ⟨s, reads, fun _ _ _ => rfl⟩
  | cons p ps ih =>
      obtain ⟨r, s', first, rest, rfl⟩ := exists_of_ofPatterns_cons reads
      obtain ⟨t, reads', same⟩ := ih rest
      cases dotted : takesBackDotted p with
      | true =>
          refine ⟨t, by rwa [List.filter_cons_of_neg (by simp [dotted])], fun names named isDir => ?_⟩
          obtain ⟨path, pattern⟩ := exists_of_takesBackDotted dotted
          rw [pattern] at first
          have silent := Rule.applies_dotted (Rule.isDotted_of_ofAnchored first) named isDir
          rw [verdict?_cons, silent, ← same names named isDir]
          exact Option.or_none
      | false =>
          refine ⟨_, by rw [List.filter_cons_of_pos (by simp [dotted])]; exact ofPatterns_cons first reads',
            fun names named isDir => ?_⟩
          rw [verdict?_cons, verdict?_cons, same names named isDir]

theorem judges_congr {rules others : List Rule}
    (same : ∀ names : List Segment, (∀ n ∈ names, Segment.IsName n) → ∀ isDir,
      verdict? rules (way names) isDir = verdict? others (way names) isDir)
    {names : List Segment} (named : ∀ n ∈ names, Segment.IsName n) (isDir : Bool) :
    judges rules names isDir = judges others names isDir := by
  have part_named {part : List Segment} (member : part ∈ above names) : ∀ n ∈ part, Segment.IsName n := by
    obtain ⟨k, -, rfl⟩ := mem_above.1 member
    exact fun n inside => named n (List.mem_of_mem_take inside)
  rw [judges, judges, nearest?, nearest?, same names named isDir]
  rw [← List.head?_filterMap, ← List.head?_filterMap, List.filterMap_congr fun part member =>
    same part (part_named member) true]

/-- **A line that takes back what begins with `./` says nothing** of what lies below an absolute
directory without steps up: the rules are those of the other lines. -/
theorem isIgnored_without_dotted {root : LocalPath} (settled : root.Settled) {ps : List String}
    {s : Ruleset} (reads : ofPatterns root ps = .ok s) :
    ∃ t, ofPatterns root (ps.filter (!takesBackDotted ·)) = .ok t ∧
      ∀ names : List Segment, names ≠ [] → (∀ n ∈ names, Segment.IsName n) →
        ∀ p : LocalPath, p.Spells (root.place ++ names) → ∀ isDir,
          s.isIgnored p isDir = t.isIgnored p isDir := by
  obtain ⟨t, reads', same⟩ := exists_without_dotted reads
  obtain rfl := root_of_ofPatterns reads
  have root_eq := root_of_ofPatterns reads'
  refine ⟨t, reads', fun names some_name named p spells isDir => ?_⟩
  rw [isIgnored_of_settled named settled some_name spells isDir,
    isIgnored_of_settled named (root_eq ▸ settled) some_name (root_eq ▸ spells) isDir]
  exact judges_congr same named isDir

end Ruleset

end Ignore

end DevMode
