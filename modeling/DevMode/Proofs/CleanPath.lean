/-
# DevMode.Proofs.CleanPath -- absolute paths by the names that lead to them

By its text alone, an absolute path leads down from the root through names: its
`LocalPath.place`.  Cleaning a path spells just these names (`clean_eq`), and joining walks
on from the place of a directory (`parse_join`), so what is known of locations carries over to
clean paths.

* `ofNames` and `way` spell names from the root and from a directory on; `Spells` allows a slash
  at the end.
* `relativeTo?_of_split` cuts off a directory, in whatever way it is spelled without steps up,
  and `relativeTo?_eq_none` says that one with steps up, or a relative one, is never cut off.
-/
import DevMode.Proofs.LocalPath

namespace DevMode

set_option autoImplicit false

namespace Location

/-- Walking from an absolute location stays absolute and below the root. -/
theorem WellFormed.eq_of_absolute {l : Location} (wf : l.WellFormed) (absolute : l.absolute = true) :
    l = ⟨true, 0, l.names⟩ := by
  obtain ⟨a, up, names⟩ := l
  cases absolute
  rw [show up = 0 from wf.root rfl]

/-- What one more segment means for the names that lead to a place. -/
theorem step_place (names : List Segment) (s : Segment) :
    (⟨true, 0, names⟩ : Location).step s =
      ⟨true, 0, match Component.ofSegment? s with
        | none => names
        | some .parent => names.dropLast
        | some c => names ++ [c.chars]⟩ := by
  unfold step Component.ofSegment?
  split
  · rfl
  · split
    · cases names <;> rfl
    · rfl

end Location

namespace LocalPath

open Component

/-! ## The place of a path -/

/-- The names that lead to an absolute path from the root, by its text alone. -/
def place (p : LocalPath) : List Segment := (Location.parse p.chars).names

/-- The absolute path that names lead to. -/
def ofNames (names : List Segment) : LocalPath := ⟨'/' :: Text.glue '/' names⟩

theorem place_isName (p : LocalPath) : ∀ s ∈ p.place, Segment.IsName s :=
  (Location.wellFormed_parse p.chars).names

theorem parse_eq_place {p : LocalPath} (absolute : p.isAbsolute = true) :
    Location.parse p.chars = ⟨true, 0, p.place⟩ :=
  (Location.wellFormed_parse p.chars).eq_of_absolute
    ((Location.parse_absolute p.chars).trans absolute)

/-- One component further, from a place on. -/
theorem cleanStep_parent (names : List Segment) :
    cleanStep (.root :: names.map .name) .parent = .root :: names.dropLast.map .name := by
  rcases List.eq_nil_or_concat names with rfl | ⟨front, last, rfl⟩
  · rfl
  · have text : Component.root :: (front.concat last).map .name =
        (.root :: front.map .name) ++ [.name last] := by simp
    rw [text, cleanStep, List.getLast?_concat]
    simp only [List.dropLast_concat, List.concat_eq_append]

/-- Components are cleaned as segments are walked. -/
theorem foldl_cleanStep (ss : List Segment) :
    ∀ names : List Segment,
      (ofSegments ss).foldl cleanStep (.root :: names.map .name) =
        .root :: ((⟨true, 0, names⟩ : Location).walk ss).names.map .name := by
  induction ss with
  | nil => exact fun names => rfl
  | cons s ss ih =>
      intro names
      rw [Location.walk_cons, Location.step_place]
      cases means : ofSegment? s with
      | none => rw [ofSegments_cons_none means, ih]
      | some c =>
          rw [ofSegments_cons_some means, List.foldl_cons]
          rcases ofSegment?_eq_some means with rfl | ⟨rfl, -⟩
          · rw [cleanStep_parent, ih]
          · have further : cleanStep (.root :: names.map .name) (.name s) =
                .root :: (names ++ [s]).map .name := by simp [cleanStep]
            rw [further, ih]
            rfl

/-- Without a step up, segments lead down through what they mean. -/
theorem names_walk_level {ss : List Segment} (level : Component.parent ∉ ofSegments ss) :
    ∀ names : List Segment,
      ((⟨true, 0, names⟩ : Location).walk ss).names.map .name = names.map .name ++ ofSegments ss := by
  induction ss with
  | nil => simp
  | cons s ss ih =>
      intro names
      rw [Location.walk_cons, Location.step_place]
      cases means : ofSegment? s with
      | none =>
          rw [ofSegments_cons_none means] at level ⊢
          exact ih level names
      | some c =>
          rw [ofSegments_cons_some means] at level ⊢
          have later := ih fun climb => level (List.mem_cons_of_mem c climb)
          rcases ofSegment?_eq_some means with rfl | ⟨rfl, -⟩
          · exact absurd List.mem_cons_self level
          · rw [later]
            simp [Component.chars]

theorem place_slash (y : List Char) :
    (⟨'/' :: y⟩ : LocalPath).place =
      ((⟨true, 0, []⟩ : Location).walk (Text.pieces '/' y)).names := by
  rw [place, Location.parse, Text.pieces, if_pos rfl]
  rfl

theorem components_of_level {p : LocalPath} (absolute : p.isAbsolute = true)
    (level : Component.parent ∉ p.components) : p.components = .root :: p.place.map .name := by
  obtain ⟨y, rfl⟩ := exists_slash absolute
  rw [components_slash] at level ⊢
  rw [place_slash, names_walk_level fun climb => level (List.mem_cons_of_mem _ climb)]
  rfl

/-- **Cleaning spells the place of a path.** -/
theorem clean_eq {p : LocalPath} (absolute : p.isAbsolute = true) : p.clean = ofNames p.place := by
  obtain ⟨y, rfl⟩ := exists_slash absolute
  have steps := foldl_cleanStep (Text.pieces '/' y) []
  have start : cleanStep [] .root = .root :: ([] : List Segment).map .name := rfl
  rw [clean, components_slash, place_slash, List.foldl_cons, start, steps]
  have spelled (names : List Segment) : (names.map Component.name).map Component.chars = names := by
    rw [List.map_map]
    exact List.map_id names
  simp only [ofComponents, ofNames, spelled]

/-- One place lies at or beneath another as its names begin with those of the other. -/
theorem components_prefix_iff {names names' : List Segment} :
    Component.root :: names.map .name <+: .root :: names'.map .name ↔ names <+: names' := by
  rw [List.cons_prefix_cons, and_iff_right rfl,
    List.prefix_map_iff_of_injective fun _ _ => Component.name.inj]

/-! ## Joining -/

theorem asDirectory_asDirectory (p : LocalPath) : p.asDirectory.asDirectory = p.asDirectory := by
  unfold asDirectory
  split <;> simp [*]

theorem getLast?_asDirectory (p : LocalPath) : p.asDirectory.chars.getLast? = some '/' := by
  unfold asDirectory
  split
  · assumption
  · exact List.getLast?_concat

theorem isAbsolute_asDirectory {p : LocalPath} (absolute : p.isAbsolute = true) :
    p.asDirectory.isAbsolute = true := by
  obtain ⟨y, rfl⟩ := exists_slash absolute
  unfold asDirectory
  split <;> rfl

/-- A relative path is written behind the directory. -/
theorem join_eq {p q : LocalPath} (some_p : p.chars ≠ []) (relative : q.isAbsolute = false) :
    p.join q = ⟨p.asDirectory.chars ++ q.chars⟩ := by
  rw [join, relative, asDirectory]
  simp only [Bool.false_eq_true, if_false]
  split
  · rename_i none_last
    exact absurd (List.getLast?_eq_none_iff.1 none_last) some_p
  · rename_i slash
    rw [if_pos slash]
  · rename_i other no_slash last
    rw [last, if_neg fun same => no_slash (Option.some.inj same), List.append_assoc]
    rfl

theorem isAbsolute_join {p : LocalPath} (absolute : p.isAbsolute = true) (q : LocalPath) :
    (p.join q).isAbsolute = true := by
  obtain ⟨y, rfl⟩ := exists_slash absolute
  unfold join
  split
  · assumption
  · split
    · rename_i none_last
      simp at none_last
    · rfl
    · rfl

theorem isAbsolute_against (p : LocalPath) {dir : LocalPath} (absolute : dir.isAbsolute = true) :
    (p.against dir).isAbsolute = true := by
  unfold LocalPath.against
  split
  · assumption
  · exact isAbsolute_join absolute p

theorem against_of_isAbsolute {p : LocalPath} (absolute : p.isAbsolute = true) (dir : LocalPath) :
    p.against dir = p := if_pos absolute

theorem isAbsolute.ne_nil {p : LocalPath} (absolute : p.isAbsolute = true) : p.chars ≠ [] := by
  obtain ⟨y, rfl⟩ := exists_slash absolute
  exact List.cons_ne_nil _ _

/-- A slash at the end of a path leads nowhere. -/
theorem parse_append_slash {x : List Char} (some_x : x ≠ []) :
    Location.parse (x ++ ['/']) = Location.parse x := by
  rw [Location.parse_append some_x []]
  exact Location.step_idle _ (Or.inl rfl)

theorem parse_join_relative {p q : LocalPath} (some_p : p.chars ≠ [])
    (relative : q.isAbsolute = false) :
    Location.parse (p.join q).chars = (Location.parse p.chars).walk (Text.pieces '/' q.chars) := by
  rw [join_eq some_p relative, asDirectory]
  split
  · rename_i slash
    obtain ⟨x⟩ := p
    obtain ⟨front, rfl⟩ := List.getLast?_eq_some_iff.1 slash
    by_cases root : front = []
    · subst root
      rfl
    · simp only [List.append_assoc, List.singleton_append]
      rw [Location.parse_append root, parse_append_slash root]
  · rw [List.append_assoc]
    exact Location.parse_append some_p _

/-- **A path joined to a directory leads where it leads to from there.** -/
theorem parse_join {p : LocalPath} (some_p : p.chars ≠ []) (q : LocalPath) :
    Location.parse (p.join q).chars =
      (Location.parse q.chars).against (Location.parse p.chars) := by
  have lead : (Location.parse q.chars).absolute = q.isAbsolute := Location.parse_absolute q.chars
  rw [Location.against, lead]
  split
  · rename_i absolute
    rw [join, if_pos absolute]
  · rename_i relative
    rw [Bool.not_eq_true] at relative
    have way : Location.parse q.chars = (Location.origin false).walk (Text.pieces '/' q.chars) :=
      Location.parse_relative (by simpa [isAbsolute] using relative)
    have whole : ∀ s ∈ Text.pieces '/' q.chars, '/' ∉ s :=
      fun _ member => Text.sep_notMem_of_mem_pieces member
    rw [parse_join_relative some_p relative, way,
      Location.walk_walk_segments _ rfl (Location.wellFormed_origin false) whole]
    rfl

/-! ## Spelling names -/

/-- The relative path that leads down through names. -/
def way (names : List Segment) : LocalPath := ⟨Text.glue '/' names⟩

/-- The clean spellings of a place, of which that with a slash at the end is for a directory. -/
def Spells (p : LocalPath) (names : List Segment) : Prop :=
  p = ofNames names ∨ p = (ofNames names).asDirectory

theorem glue_append {xs ys : List Segment} (some_x : xs ≠ []) (some_y : ys ≠ []) :
    Text.glue '/' (xs ++ ys) = Text.glue '/' xs ++ '/' :: Text.glue '/' ys := by
  induction xs with
  | nil => exact absurd rfl some_x
  | cons x xs ih =>
      cases xs with
      | nil =>
          obtain ⟨y, ys, rfl⟩ := List.exists_cons_of_ne_nil some_y
          rfl
      | cons x' xs =>
          have rest := ih (List.cons_ne_nil x' xs)
          simp only [List.cons_append, Text.glue] at rest ⊢
          rw [rest, List.append_assoc, List.cons_append]

/-- A segment that means something wherever it stands: a name or a step up. -/
def IsBusy (s : Segment) : Prop := isIdle s = false ∧ '/' ∉ s

theorem isBusy_of_isName {s : Segment} (named : Segment.IsName s) : IsBusy s := by
  obtain ⟨solid, moves, no_climb, whole⟩ := named
  exact ⟨by simp [isIdle, ofSegment?, solid, moves, no_climb], whole⟩

theorem IsBusy.ne_nil {s : Segment} (busy : IsBusy s) : s ≠ [] := by
  rintro rfl
  cases busy.1

/-- A way that does not begin with an idle segment has no lead. -/
theorem split_way_of_head {ss : List Segment} (whole : ∀ s ∈ ss, '/' ∉ s)
    (busy : ∀ s, ss.head? = some s → isIdle s = false) : (way ss).split = (none, ss) := by
  cases ss with
  | nil => rfl
  | cons s ss =>
      have moves := busy s rfl
      rw [split, way, Text.pieces_glue (List.cons_ne_nil s ss) whole]
      split <;> simp_all [isIdle, ofSegment?]

section Busy

variable {ss : List Segment} (busy : ∀ s ∈ ss, IsBusy s)

include busy

theorem split_way_busy : (way ss).split = (none, ss) :=
  split_way_of_head (fun s member => (busy s member).2)
    fun s first => (busy s (List.mem_of_mem_head? first)).1

/-- Idle segments behind busy ones are left out. -/
theorem dropIdleEnd_busy {tail : List Segment} (tail_idle : ∀ s ∈ tail, isIdle s = true) :
    dropIdleEnd (ss ++ tail) = ss := by
  have back : ∀ s ∈ tail.reverse, isIdle s = true :=
    fun s member => tail_idle s (List.mem_reverse.1 member)
  rw [dropIdleEnd, List.reverse_append, List.dropWhile_append_of_pos back]
  rcases List.eq_nil_or_concat ss with rfl | ⟨front, last, rfl⟩
  · rfl
  · have moves : ¬ isIdle last = true := by simp [(busy last (by simp)).1]
    rw [List.concat_eq_append, List.reverse_concat, List.dropWhile_cons_of_neg moves,
      ← List.reverse_concat, List.reverse_reverse]

theorem dropIdleEnd_of_busy : dropIdleEnd ss = ss := by
  have alone := dropIdleEnd_busy busy (List.forall_mem_nil (isIdle · = true))
  rwa [List.append_nil] at alone

theorem parent?_way_busy {last : Segment} (last_busy : IsBusy last) :
    (way (ss ++ [last])).parent? = some (way ss) := by
  have all_busy : ∀ s ∈ ss ++ [last], IsBusy s :=
    List.forall_mem_append.2 ⟨busy, by simpa using last_busy⟩
  have moves : ¬ isIdle last = true := by simp [last_busy.1]
  have dropped : dropLastComponent (ss ++ [last]) = some ss := by
    rw [dropLastComponent, List.reverse_concat, List.dropWhile_cons_of_neg moves]
    simp only [List.reverse_reverse, dropIdleEnd_of_busy busy]
  simp only [parent?, split_way_busy all_busy, dropped]
  rfl

/-- Busy segments are spelled with at least a character each. -/
theorem length_le_glue_busy : ss.length ≤ (Text.glue '/' ss).length := by
  induction ss with
  | nil => exact Nat.zero_le _
  | cons s ss ih =>
      have later := ih fun t member => busy t (List.mem_cons_of_mem s member)
      have solid := List.length_pos_iff.2 (busy s (by simp)).ne_nil
      cases ss with
      | nil => exact solid
      | cons t ts =>
          simp only [Text.glue, List.length_append, List.length_cons] at later ⊢
          omega

end Busy

section Names

variable {names : List Segment} (named : ∀ s ∈ names, Segment.IsName s)

include named

theorem ofSegments_names : ofSegments names = names.map .name := by
  induction names with
  | nil => rfl
  | cons s ss ih =>
      obtain ⟨solid, moves, no_climb, -⟩ := named s (by simp)
      have means : ofSegment? s = some (.name s) := by simp [ofSegment?, solid, moves, no_climb]
      rw [ofSegments_cons_some means, ih fun t member => named t (List.mem_cons_of_mem s member)]
      rfl

theorem names_busy : ∀ s ∈ names, IsBusy s := fun s member => isBusy_of_isName (named s member)

theorem not_isIdle_of_mem {s : Segment} (member : s ∈ names) : isIdle s = false :=
  (names_busy named s member).1

theorem pieces_glue_names (some_name : names ≠ []) :
    Text.pieces '/' (Text.glue '/' names) = names :=
  Text.pieces_glue some_name fun s member => (named s member).2.2.2

/-- Names are told apart by how they are spelled. -/
theorem glue_inj (some_name : names ≠ []) {names' : List Segment}
    (named' : ∀ s ∈ names', Segment.IsName s) (some_name' : names' ≠ [])
    (same : Text.glue '/' names = Text.glue '/' names') : names = names' := by
  rw [← pieces_glue_names named some_name, same, pieces_glue_names named' some_name']

/-- Names are spelled with at least a character each. -/
theorem length_le_glue : names.length ≤ (Text.glue '/' names).length :=
  length_le_glue_busy (names_busy named)

theorem glue_ne_nil (some_name : names ≠ []) : Text.glue '/' names ≠ [] :=
  Text.glue_ne_nil (fun s member => (named s member).1) some_name

theorem isAbsolute_way : (way names).isAbsolute = false := by
  have solid : ∀ s ∈ names, s ≠ [] := fun s member => (named s member).1
  have whole : ∀ s ∈ names, '/' ∉ s := fun s member => (named s member).2.2.2
  simpa [isAbsolute, way] using Location.head?_glue solid whole

/-- No name ends with a slash. -/
theorem getLast?_glue_ne_slash : (Text.glue '/' names).getLast? ≠ some '/' := by
  rcases List.eq_nil_or_concat names with rfl | ⟨front, last, rfl⟩
  · simp [Text.glue]
  · obtain ⟨solid, -, -, whole⟩ := named last (by simp)
    have text : (Text.glue '/' (front ++ [last])).getLast? = last.getLast? := by
      by_cases alone : front = []
      · rw [alone]
        rfl
      · have behind : ('/' :: Text.glue '/' [last]).getLast? = some (last.getLast solid) :=
          (List.getLast?_cons_of_ne_nil solid).trans (List.getLast?_eq_some_getLast solid)
        rw [glue_append alone (List.cons_ne_nil last []), List.getLast?_append, behind,
          List.getLast?_eq_some_getLast solid]
        rfl
    rw [List.concat_eq_append, text]
    exact fun slash => whole (List.mem_of_getLast? slash)

theorem split_way : (way names).split = (none, names) := split_way_busy (names_busy named)

theorem place_ofNames : (ofNames names).place = names := by
  have wf : (⟨true, 0, names⟩ : Location).WellFormed := ⟨named, fun _ => rfl⟩
  have text : (ofNames names).chars = (⟨true, 0, names⟩ : Location).render := rfl
  rw [place, text, Location.parse_render wf]

theorem split_ofNames (some_name : names ≠ []) :
    (ofNames names).split = (some .root, names) := by
  rw [ofNames, split_slash, pieces_glue_names named some_name]

omit named in
theorem Spells.isAbsolute {p : LocalPath} (spells : p.Spells names) : p.isAbsolute = true := by
  rcases spells with rfl | rfl
  · rfl
  · exact isAbsolute_asDirectory rfl

/-- Only the root is spelled with a slash at the end from the start. -/
theorem getLast?_ofNames_ne_slash (some_name : names ≠ []) :
    (ofNames names).chars.getLast? ≠ some '/' := by
  rw [ofNames, List.getLast?_cons_of_ne_nil (glue_ne_nil named some_name)]
  exact getLast?_glue_ne_slash named

theorem asDirectory_ofNames (some_name : names ≠ []) :
    (ofNames names).asDirectory = ⟨(ofNames names).chars ++ ['/']⟩ := by
  rw [asDirectory, if_neg (getLast?_ofNames_ne_slash named some_name)]

/-- Behind the root stand the names, and nothing else that means anything. -/
theorem Spells.split_eq {p : LocalPath} (spells : p.Spells names) :
    ∃ tail, (∀ s ∈ tail, isIdle s = true) ∧ p.split = (some .root, names ++ tail) := by
  have idle : ∀ s ∈ [([] : Segment)], isIdle s = true := by simp [isIdle, ofSegment?]
  by_cases empty : names = []
  · subst empty
    rcases spells with rfl | rfl <;> exact ⟨[[]], idle, rfl⟩
  · rcases spells with rfl | rfl
    · exact ⟨[], by simp, by rw [split_ofNames named empty, List.append_nil]⟩
    · refine ⟨[[]], idle, ?_⟩
      rw [asDirectory_ofNames named empty, ofNames, List.cons_append, split_slash,
        Text.pieces_append_sep, pieces_glue_names named empty]
      rfl

theorem Spells.components {p : LocalPath} (spells : p.Spells names) :
    p.components = .root :: names.map .name := by
  obtain ⟨tail, all_idle, split⟩ := spells.split_eq named
  have nothing : ofSegments tail = [] := List.filterMap_eq_nil_iff.2 fun s member =>
    isIdle_iff.1 (all_idle s member)
  rw [LocalPath.components, split]
  change .root :: ofSegments (names ++ tail) = _
  rw [ofSegments_append, ofSegments_names named, nothing, List.append_nil]

theorem Spells.place_eq {p : LocalPath} (spells : p.Spells names) : p.place = names := by
  rcases spells with rfl | rfl
  · exact place_ofNames named
  · by_cases empty : names = []
    · subst empty
      rfl
    · rw [asDirectory_ofNames named empty, place, parse_append_slash (isAbsolute.ne_nil rfl)]
      exact place_ofNames named

/-- Behind a place, names are spelled cleanly too. -/
theorem Spells.join {p : LocalPath} (spells : p.Spells names) {below : List Segment}
    (named_below : ∀ s ∈ below, Segment.IsName s) (some_below : below ≠ []) :
    p.join (way below) = ofNames (names ++ below) := by
  have solid : p.chars ≠ [] := isAbsolute.ne_nil spells.isAbsolute
  have directory : p.asDirectory = (ofNames names).asDirectory := by
    rcases spells with rfl | rfl
    · rfl
    · exact asDirectory_asDirectory _
  rw [join_eq solid (isAbsolute_way named_below), directory]
  by_cases empty : names = []
  · subst empty
    rfl
  · rw [asDirectory_ofNames named empty, ofNames, ofNames, glue_append empty some_below]
    simp [way]

/-- Where what lies below a place is, by what is left of its path. -/
theorem Spells.localPath {p : LocalPath} (spells : p.Spells names) {below : List Segment}
    (named_below : ∀ s ∈ below, Segment.IsName s) :
    (if (way below).chars = [] then p else p.join (way below)).Spells (names ++ below) := by
  by_cases none_below : below = []
  · have nowhere : (way below).chars = [] := by rw [none_below]; rfl
    rwa [if_pos nowhere, none_below, List.append_nil]
  · have somewhere : (way below).chars ≠ [] := glue_ne_nil named_below none_below
    rw [if_neg somewhere]
    exact .inl (spells.join named named_below none_below)

end Names

/-! ## Cutting off a directory -/

/-- Only the empty path means nothing. -/
theorem components_ne_nil {p : LocalPath} (some_p : p.chars ≠ []) : p.components ≠ [] := by
  have text := Text.glue_pieces '/' p.chars
  unfold components split
  split
  · rename_i none_left
    exact absurd none_left (Text.pieces_ne_nil '/' p.chars)
  · rename_i empty
    rw [empty] at text
    exact absurd text.symm some_p
  · exact List.cons_ne_nil _ _
  · exact List.cons_ne_nil _ _
  · rename_i none_left no_text no_root no_current
    obtain ⟨s, ss, first⟩ := List.exists_cons_of_ne_nil none_left
    have solid : s ≠ [] := fun empty => no_root ss (by rw [first, empty])
    have moves : s ≠ ['.'] := fun still => no_current ss (by rw [first, still])
    obtain ⟨c, means⟩ : ∃ c, ofSegment? s = some c := by
      rw [ofSegment?, if_neg (not_or.2 ⟨solid, moves⟩)]
      split <;> exact ⟨_, rfl⟩
    rw [first]
    simp [means]

/-- Behind a path, a relative one goes on with its segments. -/
theorem split_join {p q : LocalPath} (some_p : p.chars ≠ []) (relative : q.isAbsolute = false) :
    ∃ front, p.components = p.split.1.toList ++ ofSegments front ∧
      (p.join q).split = (p.split.1, front ++ Text.pieces '/' q.chars) := by
  rw [join_eq some_p relative, asDirectory]
  split
  · rename_i slash
    obtain ⟨chars⟩ := p
    obtain ⟨x, rfl⟩ := List.getLast?_eq_some_iff.1 slash
    by_cases root : x = []
    · subst root
      exact ⟨[], rfl, split_slash q.chars⟩
    · refine ⟨(split ⟨x⟩).2, ?_, ?_⟩
      · rw [components_append_slash root, split_append root]
        exact List.append_nil _
      · rw [split_append root, List.append_assoc]
        exact split_append root q.chars
  · rw [List.append_assoc]
    exact ⟨p.split.2, rfl, split_append some_p q.chars⟩

/-- What some segments mean is dropped with them, up to idle ones at their end. -/
theorem dropComponents_ofSegments (front rest : List Segment) :
    ∃ idle, (∀ s ∈ idle, isIdle s = true) ∧
      dropComponents (ofSegments front) (front ++ rest) = some (idle ++ rest) := by
  induction front with
  | nil => exact ⟨[], by simp, rfl⟩
  | cons s front ih =>
      obtain ⟨idle, all_idle, dropped⟩ := ih
      cases means : ofSegment? s with
      | none =>
          rw [ofSegments_cons_none means]
          cases meant : ofSegments front with
          | nil =>
              rw [meant] at dropped
              refine ⟨s :: idle, ?_, ?_⟩
              · exact List.forall_mem_cons.2 ⟨isIdle_iff.2 means, all_idle⟩
              · rw [List.cons_append, List.cons_append, ← Option.some.inj dropped]
                rfl
          | cons c cs =>
              refine ⟨idle, all_idle, ?_⟩
              rw [meant] at dropped
              rw [← dropped, List.cons_append, dropComponents, dropComponents, dropComponent, means]
      | some c =>
          refine ⟨idle, all_idle, ?_⟩
          simp only [ofSegments_cons_some means, List.cons_append, dropComponents, dropComponent,
            means, if_true, Option.bind_some, dropped]

section Names

variable {names : List Segment} (named : ∀ s ∈ names, Segment.IsName s)

include named

/-- Idle segments behind names are left out. -/
theorem dropIdleEnd_append {tail : List Segment} (tail_idle : ∀ s ∈ tail, isIdle s = true) :
    dropIdleEnd (names ++ tail) = names :=
  dropIdleEnd_busy (names_busy named) tail_idle

theorem dropIdleEnd_names : dropIdleEnd names = names := dropIdleEnd_of_busy (names_busy named)

/-- Idle segments on both sides of names are left out. -/
theorem trim_names {front tail : List Segment} (front_idle : ∀ s ∈ front, isIdle s = true)
    (tail_idle : ∀ s ∈ tail, isIdle s = true) :
    dropIdleEnd ((front ++ (names ++ tail)).dropWhile isIdle) = names := by
  rw [List.dropWhile_append_of_pos front_idle]
  cases names with
  | nil =>
      have nothing : (tail ++ []).dropWhile isIdle = [] := List.dropWhile_append_of_pos tail_idle
      rw [List.append_nil] at nothing
      rw [List.nil_append, nothing]
      rfl
  | cons s ss =>
      rw [List.cons_append,
        List.dropWhile_cons_of_neg (by simp [not_isIdle_of_mem named List.mem_cons_self])]
      exact dropIdleEnd_append named tail_idle

/-- **A directory is cut off by what its segments mean**, however they are written. -/
theorem relativeTo?_of_split {p base : LocalPath} {lead : Option Component}
    {front tail : List Segment} (tail_idle : ∀ s ∈ tail, isIdle s = true)
    (split : p.split = (lead, front ++ (names ++ tail)))
    (directory : base.components = lead.toList ++ ofSegments front)
    (some_base : base.chars ≠ []) : p.relativeTo? base = some (way names) := by
  obtain ⟨idle, all_idle, dropped⟩ := dropComponents_ofSegments front (names ++ tail)
  have means := components_ne_nil some_base
  cases lead with
  | some l =>
      simp only [relativeTo?, split, directory, Option.toList_some, List.singleton_append, if_true,
        dropped, Option.map_some, trim_names named all_idle tail_idle]
      rfl
  | none =>
      rw [directory, Option.toList_none, List.nil_append] at means
      obtain ⟨c, cs, starts⟩ := List.exists_cons_of_ne_nil means
      rw [starts] at dropped
      simp only [relativeTo?, split, directory, Option.toList_none, List.nil_append, starts,
        dropped, Option.map_some, trim_names named all_idle tail_idle]
      rfl

/-- **What a directory is joined with is what is left below it.** -/
theorem relativeTo?_join (p : LocalPath) (some_name : names ≠ []) :
    (p.join (way names)).relativeTo? p = some (way names) := by
  by_cases empty : p.chars = []
  · obtain ⟨chars⟩ := p
    subst empty
    have alone : join ⟨[]⟩ (way names) = way names := by simp [join]
    rw [alone, relativeTo?, split_way named]
    exact congrArg (fun segments => some (build none segments)) (dropIdleEnd_names named)
  · obtain ⟨front, directory, split⟩ := split_join empty (isAbsolute_way named)
    rw [way, pieces_glue_names named some_name] at split
    rw [← List.append_nil names] at split
    have nothing : ∀ s ∈ ([] : List Segment), isIdle s = true := by simp
    have joined := relativeTo?_of_split named nothing split directory empty
    rwa [List.append_nil] at joined

/-- Names below a directory are joined one after another. -/
theorem join_join_way (p : LocalPath) (some_name : names ≠ []) {below : List Segment}
    (named_below : ∀ s ∈ below, Segment.IsName s) (some_below : below ≠ []) :
    (p.join (way names)).join (way below) = p.join (way (names ++ below)) := by
  have joined (front : List Char) :
      (⟨front ++ Text.glue '/' names⟩ : LocalPath).join (way below) =
        ⟨front ++ Text.glue '/' (names ++ below)⟩ := by
    have solid := glue_ne_nil named some_name
    have last : (front ++ Text.glue '/' names).getLast? ≠ some '/' := by
      rw [List.getLast?_append, List.getLast?_eq_some_getLast solid, Option.some_or,
        ← List.getLast?_eq_some_getLast solid]
      exact getLast?_glue_ne_slash named
    rw [join_eq (by simp [solid]) (isAbsolute_way named_below), asDirectory, if_neg last,
      glue_append some_name some_below]
    simp [way]
  have all_named : ∀ s ∈ names ++ below, Segment.IsName s :=
    List.forall_mem_append.2 ⟨named, named_below⟩
  by_cases empty : p.chars = []
  · obtain ⟨chars⟩ := p
    subst empty
    have alone (q : LocalPath) : join ⟨[]⟩ q = q := by simp [join]
    rw [alone, alone]
    exact joined []
  · rw [join_eq empty (isAbsolute_way named), join_eq empty (isAbsolute_way all_named)]
    exact joined _

end Names

theorem relativeTo?_self (p : LocalPath) : p.relativeTo? p = some (way []) := by
  by_cases empty : p.chars = []
  · obtain ⟨chars⟩ := p
    subst empty
    rfl
  · have nothing : ∀ s ∈ ([] : List Segment), Segment.IsName s := by simp
    have split : p.split = (p.split.1, p.split.2 ++ ([] ++ [])) := by simp
    exact relativeTo?_of_split nothing (by simp) split rfl empty

theorem root_notMem_components {p : LocalPath} (relative : p.isAbsolute = false) :
    Component.root ∉ p.components := by
  intro root
  rcases List.mem_append.1 root with lead | behind
  · have absolute := isAbsolute_of_lead (Option.mem_toList.1 lead)
    rw [relative] at absolute
    cases absolute
  · obtain ⟨s, -, means⟩ := List.mem_filterMap.1 behind
    rcases ofSegment?_eq_some means with climb | ⟨name, -⟩
    · cases climb
    · cases name

theorem settled_of_level {p : LocalPath} (absolute : p.isAbsolute = true)
    (level : Component.parent ∉ p.components) : p.Settled := by
  refine ⟨absolute, ?_, level⟩
  rw [components_of_level absolute level]
  simp

/-- **A directory that is relative, or that climbs, is never cut off** from a path that does
not climb, even if it leads there. -/
theorem relativeTo?_eq_none {p base : LocalPath} (absolute : p.isAbsolute = true)
    (level : Component.parent ∉ p.components) (some_base : base.chars ≠ [])
    (odd : base.isAbsolute = false ∨ .parent ∈ base.components) : p.relativeTo? base = none := by
  cases lead : base.isAbsolute with
  | false =>
      obtain ⟨y, rfl⟩ := exists_slash absolute
      obtain ⟨c, cs, starts⟩ := List.exists_cons_of_ne_nil (components_ne_nil some_base)
      have other : ¬ Component.root = c := by
        rintro rfl
        exact root_notMem_components lead (by simp [starts])
      simp only [relativeTo?, split_slash, starts, if_neg other]
  | true =>
      have climbs := odd.resolve_left (by simp [lead])
      cases found : p.relativeTo? base with
      | none => rfl
      | some rel =>
          have below := (components_of_relativeTo? lead found).2
          exact absurd (below ▸ List.mem_append_left _ climbs) level

end LocalPath

end DevMode
