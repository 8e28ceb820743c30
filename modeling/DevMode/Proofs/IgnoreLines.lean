/-
# DevMode.Proofs.IgnoreLines -- ignore lines with `./` in front

A line of an ignore file names a path, and `./` in front of that should say nothing, behind a `!`
or not.  `plainText` is an ignore file without it.

* `readPatterns_plainText_iff` says which lines are read as they are without their `./`
  (`keepsMeaning`), and `sameAnswers_plainText` that a file of such lines says the same without it.
* The other lines say something else, and `sameAnswers_plainText` says what.  What is behind a `!`
  keeps its `./`, and such a rule speaks of nothing (`Ruleset.isIgnored_without_dotted`); a line of
  `./` only is the directory of the rules (`Ruleset.judges_of_blank`).
-/
import DevMode.Proofs.DottedRules
import Mathlib.Data.List.Basic

namespace DevMode

set_option autoImplicit false

/-- A list is filtered by two functions alike, one of which says nothing where the other does not,
just if they agree on its members. -/
theorem filterMap_eq_filterMap_iff {α β : Type} {f g : α → Option β} {l : List α}
    (fewer : ∀ a ∈ l, f a = none → g a = none) :
    l.filterMap g = l.filterMap f ↔ ∀ a ∈ l, g a = f a := by
  refine ⟨fun same => ?_, fun same => List.filterMap_congr same⟩
  have bound (xs : List α) (fewer : ∀ a ∈ xs, f a = none → g a = none) :
      (xs.filterMap g).length ≤ (xs.filterMap f).length := by
    induction xs with
    | nil => simp
    | cons x xs ih =>
        have behind := ih fun a member => fewer a (List.mem_cons_of_mem x member)
        have here := fewer x List.mem_cons_self
        cases first : f x with
        | none => simpa [first, here first] using behind
        | some b => cases second : g x <;> simp [first, second] <;> omega
  induction l with
  | nil => nofun
  | cons x xs ih =>
      have fewer' : ∀ a ∈ xs, f a = none → g a = none :=
        fun a member => fewer a (List.mem_cons_of_mem x member)
      have shorter := bound xs fewer'
      have here := fewer x List.mem_cons_self
      refine List.forall_mem_cons.2 ?_
      cases first : f x with
      | none =>
          rw [List.filterMap_cons_none first, List.filterMap_cons_none (here first)] at same
          exact ⟨here first, ih fewer' same⟩
      | some b =>
          rw [List.filterMap_cons_some first] at same
          cases second : g x with
          | none =>
              rw [List.filterMap_cons_none second] at same
              have lengths := congrArg List.length same
              rw [List.length_cons] at lengths
              omega
          | some c =>
              rw [List.filterMap_cons_some second] at same
              obtain ⟨rfl, behind⟩ := List.cons.inj same
              exact ⟨rfl, ih fewer' behind⟩

namespace Text

/-! ## Ends of a text -/

theorem trimLead_suffix (lead : List Char) (fuel : Nat) (s : List Char) :
    trimLead lead fuel s <:+ s := by
  induction fuel generalizing s with
  | zero => exact List.suffix_refl s
  | succ fuel ih =>
      rw [trimLead]
      cases found : after? lead s with
      | none => exact List.suffix_refl s
      | some rest =>
          obtain rfl := after?_eq_some_iff.1 found
          exact (ih rest).trans (List.suffix_append lead rest)

theorem dropLeading_suffix (lead s : List Char) : dropLeading lead s <:+ s :=
  trimLead_suffix lead s.length s

theorem dropLeading_of_none {lead s : List Char} (none_there : after? lead s = none) :
    dropLeading lead s = s := by
  rw [dropLeading]
  cases s with
  | nil => rfl
  | cons c cs => simp only [List.length_cons, trimLead, none_there]

/-- Nothing is left of what was dropped. -/
theorem after?_trimLead {lead : List Char} (some_lead : lead ≠ []) {fuel : Nat} {s : List Char}
    (enough : s.length ≤ fuel) : after? lead (trimLead lead fuel s) = none := by
  have short := List.length_pos_iff.2 some_lead
  induction fuel generalizing s with
  | zero =>
      obtain rfl := List.length_eq_zero_iff.1 (Nat.le_zero.1 enough)
      cases found : after? lead [] with
      | none => exact found
      | some rest => simp_all [after?_eq_some_iff]
  | succ fuel ih =>
      rw [trimLead]
      cases found : after? lead s with
      | none => exact found
      | some rest =>
          obtain rfl := after?_eq_some_iff.1 found
          refine ih ?_
          rw [List.length_append] at enough
          omega

theorem after?_dropLeading {lead : List Char} (some_lead : lead ≠ []) (s : List Char) :
    after? lead (dropLeading lead s) = none := after?_trimLead some_lead (Nat.le_refl _)

theorem dropLeading_eq_self_iff {lead : List Char} (some_lead : lead ≠ []) {s : List Char} :
    dropLeading lead s = s ↔ after? lead s = none :=
  ⟨fun same => same ▸ after?_dropLeading some_lead s, dropLeading_of_none⟩

/-- A text with no White_Space at its end, unless it is empty. -/
def EndsSolid (s : List Char) : Prop := ∀ c ∈ s.getLast?, isBlank c = false

theorem endsSolid_of_suffix {s t : List Char} (suffix : t <:+ s) (solid : EndsSolid s) :
    EndsSolid t := by
  obtain ⟨front, rfl⟩ := suffix
  intro c last
  refine solid c ?_
  rw [Option.mem_def] at last ⊢
  rw [List.getLast?_append, last]
  rfl

theorem endsSolid_cons {c : Char} (black : isBlank c = false) {s t : List Char} (suffix : t <:+ s)
    (solid : EndsSolid (c :: s)) : EndsSolid (c :: t) := by
  cases t with
  | nil => exact fun d last => Option.some.inj last ▸ black
  | cons d ds =>
      have behind := endsSolid_of_suffix (suffix.trans (List.suffix_cons c s)) solid
      simpa [EndsSolid] using behind

theorem trimEnd_of_solid {s : List Char} (solid : EndsSolid s) : trimEnd isBlank s = s := by
  rcases List.eq_nil_or_concat s with rfl | ⟨front, last, rfl⟩
  · rfl
  · rw [List.concat_eq_append] at solid ⊢
    exact trimEnd_concat (solid last (by simp)) front

theorem endsSolid_trimEnd (s : List Char) : EndsSolid (trimEnd isBlank s) := by
  intro c last
  rw [trimEnd, List.getLast?_reverse] at last
  have first := List.head?_dropWhile_not isBlank s.reverse
  rw [Option.mem_def.1 last] at first
  simpa using first

theorem endsSolid_trim (s : List Char) : EndsSolid (trim s) := endsSolid_trimEnd _

/-- What is trimmed does not begin with White_Space. -/
theorem trimStart_trim (s : List Char) : trimStart isBlank (trim s) = trim s := by
  obtain ⟨behind, same⟩ := trimEnd_prefix isBlank (trimStart isBlank s)
  cases trimmed : trim s with
  | nil => rfl
  | cons c cs =>
      have first := List.head?_dropWhile_not isBlank s
      rw [← trimStart, ← same, ← trim, trimmed] at first
      have solid : isBlank c = false := by simpa using first
      simp [trimStart, solid]

/-- A line with its ends in place stays as it is. -/
theorem trim_of_solid {s : List Char} (starts : trimStart isBlank s = s) (solid : EndsSolid s) :
    trim s = s := by
  rw [trim, starts, trimEnd_of_solid solid]

theorem trim_cons {c : Char} (black : isBlank c = false) {s : List Char} (solid : EndsSolid (c :: s)) :
    trim (c :: s) = c :: s := trim_of_solid (by simp [trimStart, black]) solid

theorem trim_subset (s : List Char) : trim s ⊆ s := by
  intro c member
  rw [trim, trimEnd, List.mem_reverse] at member
  exact (List.dropWhile_sublist _).subset
    (List.mem_reverse.1 ((List.dropWhile_sublist _).subset member))

/-! ## Lines -/

/-- No line holds a newline. -/
theorem newline_notMem_of_mem_lines {s line : List Char} (member : line ∈ lines s) :
    '\n' ∉ line := by
  have whole : ∀ p ∈ (pieces '\n' s).reverse, '\n' ∉ p :=
    fun p inside => sep_notMem_of_mem_pieces (List.mem_reverse.1 inside)
  have dropped {p : List Char} (free : '\n' ∉ p) : '\n' ∉ dropReturn p := by
    rw [dropReturn]
    split
    · exact fun inside => free (List.dropLast_subset p inside)
    · exact free
  rw [lines] at member
  split at member
  · cases member
  · rename_i last front split_eq
    rw [split_eq] at whole
    rcases List.mem_append.1 member with inside | atEnd
    · obtain ⟨p, before, rfl⟩ := List.mem_map.1 inside
      exact dropped (whole p (List.mem_cons_of_mem last (List.mem_reverse.1 before)))
    · split at atEnd
      · cases atEnd
      · exact List.mem_singleton.1 atEnd ▸ whole last List.mem_cons_self

/-- A line that can stand in a text. -/
structure IsLine (line : List Char) : Prop where
  something : line ≠ []
  whole : '\n' ∉ line
  solid : EndsSolid line

theorem IsLine.dropReturn_eq {line : List Char} (l : IsLine line) : dropReturn line = line := by
  refine if_neg fun last => ?_
  exact absurd (l.solid '\r' last) (by decide)

/-- Lines are read as they were written one below the other. -/
theorem lines_glue {ls : List (List Char)} (each : ∀ line ∈ ls, IsLine line) :
    lines (glue '\n' ls) = ls := by
  rcases List.eq_nil_or_concat ls with rfl | ⟨front, last, rfl⟩
  · rfl
  · rw [List.concat_eq_append] at each ⊢
    have cut : pieces '\n' (glue '\n' (front ++ [last])) = front ++ [last] :=
      pieces_glue (by simp) fun p member => (each p member).whole
    have kept : front.map dropReturn = front :=
      (List.map_congr_left fun p member => (each p (by simp [member])).dropReturn_eq).trans
        (List.map_id' front)
    have some_last : last.isEmpty = false := by
      simpa using (each last (by simp)).something
    simp only [lines, cut, List.reverse_append, List.reverse_cons, List.reverse_nil, List.nil_append,
      List.cons_append, List.reverse_reverse, kept, some_last]
    rfl

end Text

namespace Ignore

/-! ## Lines without `./` in front -/

/-- The lines of an ignore file, without White_Space around them, that are not blank. -/
def contents (text : String) : List (List Char) :=
  ((Text.lines text.toList).map Text.trim).filter (!·.isEmpty)

/-- A line without `./` in front of its path. -/
def plainLine : List Char → List Char
  | '#' :: comment => '#' :: comment
  | '!' :: path => '!' :: Text.dropLeading ['.', '/'] path
  | path => Text.dropLeading ['.', '/'] path

/-- An ignore file without `./` in front of any path, and without the lines that name none. -/
def plainText (text : String) : String :=
  String.ofList (Text.glue '\n' (((contents text).map plainLine).filter (!·.isEmpty)))

/-- Whether a line is read as it is without its `./`: a `!` has none behind it, and what is left of
another path is not empty, and neither a comment nor one with White_Space in front. -/
def keepsMeaning : List Char → Bool
  | '#' :: _ => true
  | '!' :: path => (Text.after? ['.', '/'] path).isNone
  | path => (Text.dropLeading ['.', '/'] path).head?.any fun c => c != '#' && !Text.isBlank c

/-- The pattern of a line, if it has one. -/
def pattern? (line : List Char) : Option String :=
  if !line.isEmpty && line.head? != some '#' then
    some (String.ofList (Text.dropLeading ['.', '/'] line))
  else none

theorem readPatterns_eq (text : String) :
    readPatterns text = ((Text.lines text.toList).map Text.trim).filterMap pattern? := by
  rw [readPatterns, ← List.filterMap_eq_map, List.filterMap_filter]
  rfl

/-- Blank lines have no pattern. -/
theorem readPatterns_eq_contents (text : String) :
    readPatterns text = (contents text).filterMap pattern? := by
  rw [readPatterns_eq, contents, List.filterMap_filter]
  refine List.filterMap_congr fun line _ => ?_
  cases line with
  | nil => rfl
  | cons c cs => rfl

/-- A line of an ignore file that is not blank, without White_Space around it. -/
structure IsContent (line : List Char) : Prop extends Text.IsLine line where
  starts : Text.trimStart Text.isBlank line = line

theorem IsContent.of_mem {text : String} {line : List Char} (member : line ∈ contents text) :
    IsContent line := by
  obtain ⟨inside, some_line⟩ := List.mem_filter.1 member
  obtain ⟨raw, raw_line, rfl⟩ := List.mem_map.1 inside
  refine ⟨⟨by simpa using some_line, fun newline => ?_, Text.endsSolid_trim raw⟩,
    Text.trimStart_trim raw⟩
  exact Text.newline_notMem_of_mem_lines raw_line (Text.trim_subset raw newline)

/-- Without its `./`, a line is an end of what it was, behind the `!` that it may begin with. -/
theorem plainLine_eq (line : List Char) :
    (∃ path, line = '!' :: path ∧ plainLine line = '!' :: Text.dropLeading ['.', '/'] path) ∨
      plainLine line <:+ line := by
  unfold plainLine
  split
  · exact .inr (List.suffix_refl _)
  · exact .inl ⟨_, rfl, rfl⟩
  · exact .inr (Text.dropLeading_suffix _ _)

theorem isLine_plainLine {line : List Char} (l : Text.IsLine line)
    (something : plainLine line ≠ []) : Text.IsLine (plainLine line) := by
  rcases plainLine_eq line with ⟨path, rfl, plain⟩ | suffix
  · have suffix := Text.dropLeading_suffix ['.', '/'] path
    rw [plain] at something ⊢
    exact ⟨something, fun newline => l.whole (List.cons_subset_cons '!' suffix.subset newline),
      Text.endsSolid_cons rfl suffix l.solid⟩
  · exact ⟨something, fun newline => l.whole (suffix.subset newline),
      Text.endsSolid_of_suffix suffix l.solid⟩

/-- The patterns of an ignore file without `./` are those of its lines without `./`. -/
theorem readPatterns_plainText (text : String) :
    readPatterns (plainText text) =
      (contents text).filterMap fun line => pattern? (Text.trim (plainLine line)) := by
  have each : ∀ line ∈ ((contents text).map plainLine).filter (!·.isEmpty), Text.IsLine line := by
    intro line member
    obtain ⟨inside, something⟩ := List.mem_filter.1 member
    obtain ⟨before, content, rfl⟩ := List.mem_map.1 inside
    exact isLine_plainLine (IsContent.of_mem content).toIsLine (by simpa using something)
  rw [readPatterns_eq, plainText, String.toList_ofList, Text.lines_glue each, List.filterMap_map,
    List.filterMap_filter, List.filterMap_map]
  refine List.filterMap_congr fun line _ => ?_
  simp only [Function.comp_apply]
  cases plainLine line with
  | nil => rfl
  | cons c cs => rfl

/-! ## Lines that are read alike -/

theorem pattern?_of_head {c : Char} {cs : List Char} (no_comment : c ≠ '#') :
    pattern? (c :: cs) = some (String.ofList (Text.dropLeading ['.', '/'] (c :: cs))) := by
  simp [pattern?, no_comment]

/-- What has a pattern without its `./` has one with it. -/
theorem pattern?_eq_none_of_content {line : List Char} (l : IsContent line)
    (silent : pattern? line = none) : pattern? (Text.trim (plainLine line)) = none := by
  cases line with
  | nil => rfl
  | cons c cs =>
      have comment : c = '#' := by simpa [pattern?] using silent
      subst comment
      rw [plainLine, Text.trim_cons rfl l.solid, silent]

/-- A pattern with `!` is what stands in its line. -/
theorem pattern?_restoring (path : List Char) :
    pattern? ('!' :: path) = some (String.ofList ('!' :: path)) := by
  rw [pattern?_of_head (by decide), Text.dropLeading_of_none (by rfl)]

section Path

variable {c : Char} {cs : List Char} (no_comment : c ≠ '#') (positive : c ≠ '!')

include no_comment positive

theorem plainLine_of_path : plainLine (c :: cs) = Text.dropLeading ['.', '/'] (c :: cs) := by
  unfold plainLine
  split <;> simp_all

theorem keepsMeaning_of_path :
    keepsMeaning (c :: cs) =
      (Text.dropLeading ['.', '/'] (c :: cs)).head?.any fun d => d != '#' && !Text.isBlank d := by
  unfold keepsMeaning
  split <;> simp_all

end Path

/-- A pattern stands at the end of its line. -/
theorem suffix_of_pattern? {line pattern : List Char}
    (reads : pattern? line = some (String.ofList pattern)) : pattern <:+ line := by
  unfold pattern? at reads
  split at reads
  · rw [← String.ofList_injective (Option.some.inj reads)]
    exact Text.dropLeading_suffix _ _
  · cases reads

/-- A path is read as it is without its `./` if it has no White_Space and no `#` in front then. -/
theorem pattern?_trim_iff {path : List Char} (bare : Text.after? ['.', '/'] path = none)
    (solid : Text.EndsSolid path) :
    pattern? (Text.trim path) = some (String.ofList path) ↔
      (path.head?.any fun d => d != '#' && !Text.isBlank d) = true := by
  cases path with
  | nil => exact iff_of_false nofun nofun
  | cons d ds =>
      cases blank : Text.isBlank d with
      | true =>
          refine iff_of_false (fun reads => ?_) (by simp [blank])
          have shorter : (Text.trim (d :: ds)).length ≤ ds.length := by
            rw [Text.trim, Text.trimStart, List.dropWhile_cons_of_pos blank]
            exact (Text.trimEnd_prefix _ _).length_le.trans (List.dropWhile_sublist _).length_le
          exact absurd ((suffix_of_pattern? reads).length_le.trans shorter) (by simp)
      | false =>
          rw [Text.trim_cons blank solid]
          by_cases comment : d = '#'
          · subst comment
            exact iff_of_false nofun nofun
          · rw [pattern?_of_head comment, Text.dropLeading_of_none bare]
            exact iff_of_true rfl (by simp [comment, blank])

/-- **Which lines are read alike without their `./`.** -/
theorem pattern?_plainLine_iff {line : List Char} (l : IsContent line) :
    pattern? (Text.trim (plainLine line)) = pattern? line ↔ keepsMeaning line = true := by
  cases line with
  | nil => exact absurd rfl l.something
  | cons c cs =>
      by_cases comment : c = '#'
      · subst comment
        rw [plainLine, Text.trim_cons rfl l.solid]
        exact iff_of_true rfl rfl
      by_cases restoring : c = '!'
      · subst restoring
        have solid := Text.endsSolid_cons rfl (Text.dropLeading_suffix ['.', '/'] cs) l.solid
        rw [plainLine, Text.trim_cons rfl solid, pattern?_restoring, pattern?_restoring, keepsMeaning,
          Option.isNone_iff_eq_none, ← Text.dropLeading_eq_self_iff (List.cons_ne_nil _ _)]
        simp [String.ofList_inj]
      · rw [plainLine_of_path comment restoring, keepsMeaning_of_path comment restoring,
          pattern?_of_head comment]
        exact pattern?_trim_iff (Text.after?_dropLeading (List.cons_ne_nil _ _) _)
          (Text.endsSolid_of_suffix (Text.dropLeading_suffix _ _) l.solid)

/-! ## Files that are read alike -/

/-- **An ignore file has the same patterns without its `./` just if every line is read as it is
without its own.** -/
theorem readPatterns_plainText_iff (text : String) :
    readPatterns (plainText text) = readPatterns text ↔
      ∀ line ∈ contents text, keepsMeaning line = true := by
  rw [readPatterns_plainText, readPatterns_eq_contents, filterMap_eq_filterMap_iff fun line member =>
    pattern?_eq_none_of_content (IsContent.of_mem member)]
  exact forall₂_congr fun line member => pattern?_plainLine_iff (IsContent.of_mem member)

/-- Two lists of patterns are refused both, or their rules say the same of every path. -/
def SameAnswers (root : LocalPath) (ps qs : List String) : Prop :=
  match Ruleset.ofPatterns root ps, Ruleset.ofPatterns root qs with
  | .ok s, .ok t => ∀ path isDir, s.isIgnored path isDir = t.isIgnored path isDir
  | .error _, .error _ => True
  | _, _ => False

theorem SameAnswers.refl (root : LocalPath) (ps : List String) : SameAnswers root ps ps := by
  unfold SameAnswers
  cases Ruleset.ofPatterns root ps with
  | ok s => exact fun _ _ => rfl
  | error e => trivial

namespace Ruleset

open LocalPath

/-- An empty pattern excludes the directory of the rules itself. -/
theorem applies_blank {r : Rule} (reads : Rule.ofAnchored (anchor []) = .ok r) :
    r.applies (way []) true = true := by
  have trimmed : trimPattern ['/'] = ['/'] := by decide
  have nothing : Rule.globOf [] = ([], false) := by decide
  have blank : Rule.ofAnchored (anchor []) = .ok ⟨false, false, []⟩ := by
    simp [Rule.ofAnchored, anchor, trimmed, nothing, Glob.parse, Glob.read, bind, Except.bind]
  rw [← Except.ok.inj (blank.symm.trans reads)]
  decide

theorem exists_rule_of_mem {root : LocalPath} {ps : List String} {s : Ruleset}
    (reads : ofPatterns root ps = .ok s) {p : String} (member : p ∈ ps) :
    ∃ r ∈ s.rules, Rule.ofAnchored (anchor p.toList) = .ok r := by
  induction ps generalizing s with
  | nil => cases member
  | cons q qs ih =>
      obtain ⟨r, t, first, rest, rfl⟩ := exists_of_ofPatterns_cons reads
      rcases List.mem_cons.1 member with rfl | behind
      · exact ⟨r, List.mem_cons_self, first⟩
      · obtain ⟨r', inside, reads'⟩ := ih rest behind
        exact ⟨r', List.mem_cons_of_mem r inside, reads'⟩

/-- **With a line of `./` only, all below the directory of the rules is excluded**, unless a rule
takes something back. -/
theorem judges_of_blank {root : LocalPath} {ps : List String} {s : Ruleset}
    (reads : ofPatterns root ps = .ok s) (blank : "" ∈ ps)
    (plain : ∀ r ∈ s.rules, r.restores = false) {names : List Segment} (some_name : names ≠ [])
    (isDir : Bool) : judges s.rules names isDir = true := by
  obtain ⟨r, member, empty⟩ := exists_rule_of_mem reads blank
  have here : [] ∈ above names := mem_above.2 ⟨0, List.length_pos_iff.2 some_name, rfl⟩
  refine (judges_iff_of_plain plain).2 (.inr ⟨[], here, ?_⟩)
  have some_rule : (s.rules.reverse.find? (·.applies (way []) true)).isSome :=
    List.find?_isSome.2 ⟨r, List.mem_reverse.2 member, applies_blank empty⟩
  obtain ⟨found, first⟩ := Option.isSome_iff_exists.1 some_rule
  exact ⟨!found.restores, by rw [verdict?, first]; rfl⟩

end Ruleset

/-! ### What a file says without `./` -/

/-- A line that names no path without its `./` is an empty pattern. -/
theorem pattern?_of_plainLine_eq_nil {line : List Char} (l : IsContent line)
    (none_left : plainLine line = []) : pattern? line = some "" := by
  cases line with
  | nil => exact absurd rfl l.something
  | cons c cs =>
      have no_comment : c ≠ '#' := by
        rintro rfl
        cases none_left
      have positive : c ≠ '!' := by
        rintro rfl
        cases none_left
      rw [pattern?_of_head no_comment, ← plainLine_of_path no_comment positive, none_left]

theorem blank_mem_readPatterns {text : String} (blank : ∃ line ∈ contents text, plainLine line = []) :
    "" ∈ readPatterns text := by
  obtain ⟨line, member, none_left⟩ := blank
  rw [readPatterns_eq_contents]
  exact List.mem_filterMap.2
    ⟨line, member, pattern?_of_plainLine_eq_nil (IsContent.of_mem member) none_left⟩

/-- **What an ignore file says of `./` in front of its paths.**  It says the same without it if every
line does; it has the same patterns then, and only then.  Of the lines that do not, those that take
back what begins with `./` say nothing of what lies below the directory of the rules, and one of
`./` only excludes all of it, if none of the others takes something back. -/
theorem sameAnswers_plainText (text : String) :
    (readPatterns (plainText text) = readPatterns text ↔
      ∀ line ∈ contents text, keepsMeaning line = true) ∧
    ((∀ line ∈ contents text, keepsMeaning line = true) →
      ∀ root, SameAnswers root (readPatterns text) (readPatterns (plainText text))) ∧
    ∀ (root : LocalPath) (s : Ruleset), root.Settled →
      Ruleset.ofPatterns root (readPatterns text) = .ok s →
        ∃ t, Ruleset.ofPatterns root
            ((readPatterns text).filter (!Ruleset.takesBackDotted ·)) = .ok t ∧
          ∀ names : List Segment, names ≠ [] → (∀ n ∈ names, Segment.IsName n) →
            ∀ path : LocalPath, path.Spells (root.place ++ names) → ∀ isDir,
              s.isIgnored path isDir = t.isIgnored path isDir ∧
                ((∃ line ∈ contents text, plainLine line = []) →
                  (∀ r ∈ t.rules, r.restores = false) → s.isIgnored path isDir = true) := by
  refine ⟨readPatterns_plainText_iff text, fun each root => ?_, fun root s settled reads => ?_⟩
  · rw [(readPatterns_plainText_iff text).2 each]
    exact SameAnswers.refl root _
  · obtain ⟨t, reads', same⟩ := Ruleset.isIgnored_without_dotted settled reads
    refine ⟨t, reads', fun names some_name named path spells isDir => ?_⟩
    have alike := same names some_name named path spells isDir
    refine ⟨alike, fun blank plain => ?_⟩
    have still_blank : "" ∈ (readPatterns text).filter (!Ruleset.takesBackDotted ·) :=
      List.mem_filter.2 ⟨blank_mem_readPatterns blank, rfl⟩
    have root_eq := Ruleset.root_of_ofPatterns reads'
    rw [alike, Ruleset.isIgnored_of_settled named (root_eq ▸ settled) some_name (root_eq ▸ spells)]
    exact Ruleset.judges_of_blank reads' still_blank plain some_name isDir

/-- A comment, a path and one that is taken back. -/
def scratchRules : String := "# scratch\n./tmp\n  !tmp/keep\n"

/-- The directory itself, and a file in it that is not taken back. -/
def wholeRules : String := "./\n!./a\n"

/-- `./` says nothing in front of a path; alone, it is all that is in the directory, whatever is
taken back behind `!./`. -/
theorem sameAnswers_scratchRules :
    plainText scratchRules = "# scratch\ntmp\n!tmp/keep" ∧
      (∀ line ∈ contents scratchRules, keepsMeaning line = true) ∧
      SameAnswers (.ofString "/app") (readPatterns scratchRules)
        (readPatterns (plainText scratchRules)) ∧
      ∃ s, Ruleset.ofPatterns (.ofString "/app") (readPatterns wholeRules) = .ok s ∧
        s.isIgnored (.ofString "/app/a") false = true := by
  have each : ∀ line ∈ contents scratchRules, keepsMeaning line = true := by decide +kernel
  refine ⟨by decide +kernel, each,
    (sameAnswers_plainText scratchRules).2.1 each (.ofString "/app"), ?_⟩
  let rules := Ruleset.ofPatterns (.ofString "/app") (readPatterns wholeRules)
  obtain ⟨s, reads⟩ : ∃ s, rules = .ok s := by
    have some_rules : rules.isOk = true := by decide +kernel
    cases first : rules with
    | ok s => exact ⟨s, rfl⟩
    | error e => rw [first] at some_rules; cases some_rules
  obtain ⟨t, reads', law⟩ := (sameAnswers_plainText wholeRules).2.2 _ s ⟨by decide, by decide, by decide⟩ reads
  obtain ⟨-, excluded⟩ := law [['a']] (by decide) (by decide) (.ofString "/app/a") (.inl rfl) false
  refine ⟨s, reads, excluded ⟨['.', '/'], by decide +kernel, by decide⟩ ?_⟩
  have plain : ((Ruleset.ofPatterns (.ofString "/app")
      ((readPatterns wholeRules).filter (!Ruleset.takesBackDotted ·))).toOption.all
        (·.rules.all (!·.restores))) = true := by
    decide +kernel
  rw [reads'] at plain
  simpa [Except.toOption] using plain

/-- Whether rules below `/app` exclude a file there. -/
def excludesThere (text file : String) : Except RuleError Bool :=
  (Ruleset.ofPatterns (.ofString "/app") (readPatterns text)).map
    (·.isIgnored (.ofString ("/app/" ++ file)) false)

theorem SameAnswers.excludesThere_eq {text other : String}
    (same : SameAnswers (.ofString "/app") (readPatterns text) (readPatterns other)) (file : String) :
    (excludesThere text file).toOption = (excludesThere other file).toOption := by
  unfold SameAnswers at same
  unfold excludesThere
  split at same
  · rename_i s t reads reads'
    rw [reads, reads']
    exact congrArg some (same _ _)
  · rename_i reads reads'
    rw [reads, reads']
    rfl
  · cases same

/-- **Behind a `!`, `./` is not dropped**, and the line takes nothing back; a line of `./` only
is the directory of the rules. -/
theorem dotted_lines_differ :
    plainText "*\n!./a" = "*\n!a" ∧
      excludesThere "*\n!./a" "a" = .ok true ∧ excludesThere "*\n!a" "a" = .ok false ∧
      ¬ SameAnswers (.ofString "/app") (readPatterns "*\n!./a") (readPatterns (plainText "*\n!./a")) ∧
    plainText "./" = "" ∧
      excludesThere "./" "a" = .ok true ∧ excludesThere "" "a" = .ok false ∧
      ¬ SameAnswers (.ofString "/app") (readPatterns "./") (readPatterns (plainText "./")) := by
  have plain : plainText "*\n!./a" = "*\n!a" := by decide +kernel
  have excluded : excludesThere "*\n!./a" "a" = .ok true := by decide +kernel
  have back : excludesThere "*\n!a" "a" = .ok false := by decide +kernel
  have plain' : plainText "./" = "" := by decide +kernel
  have excluded' : excludesThere "./" "a" = .ok true := by decide +kernel
  have back' : excludesThere "" "a" = .ok false := by decide +kernel
  refine ⟨plain, excluded, back, fun same => ?_, plain', excluded', back', fun same => ?_⟩
  · have answers := same.excludesThere_eq "a"
    rw [plain, excluded, back] at answers
    cases answers
  · have answers := same.excludesThere_eq "a"
    rw [plain', excluded', back'] at answers
    cases answers

end Ignore

end DevMode
