/-
# DevMode.Proofs.LocalPath -- local paths by their components

Two local paths that are spelled differently may have the same components, and it is
those that joining, cutting off a prefix and comparing are about:

* `components_join`: joining a path of names puts the components behind one another;
* `components_of_relativeTo?` and `relativeTo?_of_prefix`: what is left of a path below
  a base is spelled by the components behind those of the base, and there is something
  left exactly if the base is a prefix.

`LocalPath.Named` are the paths below a directory, and `LocalPath.Settled` those that
stand on their own: absolute, and nothing in them stands still or climbs.
-/
import DevMode.Change
import DevMode.Proofs.Location

namespace DevMode

set_option autoImplicit false

/-! ## Segments as components -/

namespace Component

/-- What segments behind the lead of a path mean. -/
def ofSegments (segments : List Segment) : List Component := segments.filterMap ofSegment?

@[simp] theorem ofSegments_nil : ofSegments [] = [] := rfl

@[simp] theorem ofSegments_append (xs ys : List Segment) :
    ofSegments (xs ++ ys) = ofSegments xs ++ ofSegments ys := List.filterMap_append

theorem ofSegments_cons_none {s : Segment} (idle : ofSegment? s = none) (ss : List Segment) :
    ofSegments (s :: ss) = ofSegments ss := List.filterMap_cons_none idle

theorem ofSegments_cons_some {s : Segment} {c : Component} (means : ofSegment? s = some c)
    (ss : List Segment) : ofSegments (s :: ss) = c :: ofSegments ss :=
  List.filterMap_cons_some means

theorem ofSegment?_eq_some {s : Segment} {c : Component} (means : ofSegment? s = some c) :
    c = .parent ∨ (c = .name s ∧ s ≠ [] ∧ s ≠ ['.'] ∧ s ≠ ['.', '.']) := by
  unfold ofSegment? at means
  split at means
  · simp at means
  · rename_i moves
    rw [not_or] at moves
    split at means
    · exact Or.inl (Option.some.inj means).symm
    · rename_i no_climb
      exact Or.inr ⟨(Option.some.inj means).symm, moves.1, moves.2, no_climb⟩

theorem mem_ofSegments {ss : List Segment} (whole : ∀ s ∈ ss, '/' ∉ s) {c : Component}
    (member : c ∈ ofSegments ss) : c = .parent ∨ ∃ s, c = .name s ∧ Segment.IsName s := by
  obtain ⟨s, from_here, means⟩ := List.mem_filterMap.1 member
  rcases ofSegment?_eq_some means with climb | ⟨named, solid, moves, no_climb⟩
  · exact Or.inl climb
  · exact Or.inr ⟨s, named, solid, moves, no_climb, whole s from_here⟩

end Component

namespace LocalPath

open Component

/-! ## Leads -/

/-- Behind a slash, a path goes on with more segments behind the same lead. -/
theorem split_append {x : List Char} (some_x : x ≠ []) (y : List Char) :
    split ⟨x ++ '/' :: y⟩ = ((split ⟨x⟩).1, (split ⟨x⟩).2 ++ Text.pieces '/' y) := by
  have whole_x := Text.glue_pieces '/' x
  unfold split
  rw [Text.pieces_append_sep]
  rcases pieces_x : Text.pieces '/' x with _ | ⟨s, ss⟩
  · exact absurd pieces_x (Text.pieces_ne_nil '/' x)
  · rw [pieces_x] at whole_x
    rcases pieces_y : Text.pieces '/' y with _ | ⟨t, ts⟩
    · exact absurd pieces_y (Text.pieces_ne_nil '/' y)
    · rcases s with _ | ⟨c, cs⟩
      · cases ss with
        | nil => exact absurd whole_x.symm some_x
        | cons s' ss => rfl
      · simp only [List.cons_append]
        split <;> simp_all

theorem components_append_slash {x : List Char} (some_x : x ≠ []) (y : List Char) :
    components ⟨x ++ '/' :: y⟩ = components ⟨x⟩ ++ ofSegments (Text.pieces '/' y) := by
  simp only [components, split_append some_x y, List.filterMap_append, List.append_assoc]
  rfl

theorem split_slash (y : List Char) : split ⟨'/' :: y⟩ = (some .root, Text.pieces '/' y) := by
  unfold split
  rw [Text.pieces, if_pos rfl]
  rcases pieces_y : Text.pieces '/' y with _ | ⟨t, ts⟩
  · exact absurd pieces_y (Text.pieces_ne_nil '/' y)
  · rfl

theorem components_slash (y : List Char) :
    components ⟨'/' :: y⟩ = .root :: ofSegments (Text.pieces '/' y) := by
  rw [components, split_slash]
  rfl

theorem exists_slash {p : LocalPath} (absolute : p.isAbsolute = true) : ∃ y, p = ⟨'/' :: y⟩ := by
  obtain ⟨chars⟩ := p
  cases chars with
  | nil => simp [isAbsolute] at absolute
  | cons c cs =>
      have slash : c = '/' := by simpa [isAbsolute] using absolute
      exact ⟨cs, by rw [slash]⟩

theorem isAbsolute_of_lead {p : LocalPath} (lead : p.split.1 = some .root) : p.isAbsolute = true := by
  obtain ⟨chars⟩ := p
  cases chars with
  | nil => simp [split, Text.pieces] at lead
  | cons c cs =>
      by_cases slash : c = '/'
      · simp [isAbsolute, slash]
      · have first : ∀ rest, Text.pieces '/' (c :: cs) ≠ [] :: rest := by
          intro rest same
          rw [Text.pieces, if_neg slash] at same
          split at same <;> simp at same
        unfold split at lead
        split at lead <;> simp_all

/-! ## Paths of names -/

/-- A path that leads down through names only. -/
def Named (p : LocalPath) : Prop := ∀ c ∈ p.components, ∃ s, c = .name s

/-- A path that stands on its own: absolute, and free of `.` and `..`. -/
structure Settled (p : LocalPath) : Prop where
  absolute : p.isAbsolute = true
  still : Component.current ∉ p.components
  level : Component.parent ∉ p.components

/-- Without a lead, every segment counts. -/
theorem components_of_leadless {p : LocalPath} (leadless : p.split.1 = none) :
    p.components = ofSegments (Text.pieces '/' p.chars) := by
  unfold components
  rw [leadless, Option.toList_none, List.nil_append]
  unfold split at leadless ⊢
  split <;> simp_all [ofSegments, ofSegment?]

theorem Named.leadless {p : LocalPath} (named : p.Named) : p.split.1 = none := by
  cases lead : p.split.1 with
  | none => rfl
  | some l =>
      obtain ⟨s, name⟩ := named l (by simp [components, lead])
      subst name
      unfold split at lead
      split at lead <;> simp at lead

theorem Named.components_eq {p : LocalPath} (named : p.Named) :
    p.components = ofSegments (Text.pieces '/' p.chars) :=
  components_of_leadless named.leadless

theorem Named.relative {p : LocalPath} (named : p.Named) : p.isAbsolute = false := by
  cases absolute : p.isAbsolute with
  | false => rfl
  | true =>
      obtain ⟨y, rfl⟩ := exists_slash absolute
      obtain ⟨s, name⟩ := named .root (by simp [components_slash])
      simp at name

/-! ## Joining -/

/-- **Joining a path of names puts the components behind one another.** -/
theorem components_join (p : LocalPath) {q : LocalPath} (named : q.Named) :
    (p.join q).components = p.components ++ q.components := by
  obtain ⟨x⟩ := p
  rw [named.components_eq, join, named.relative]
  simp only [Bool.false_eq_true, if_false]
  rcases List.eq_nil_or_concat x with empty | ⟨front, last, rfl⟩
  · subst empty
    simpa [components, split, Text.pieces] using named.components_eq
  · simp only [List.concat_eq_append, List.getLast?_append, List.getLast?_singleton, Option.some_or]
    by_cases slash : last = '/'
    · subst slash
      simp only [List.append_assoc, List.singleton_append]
      by_cases empty : front = []
      · subst empty
        simp only [List.nil_append, components_slash]
        rfl
      · rw [components_append_slash empty, components_append_slash empty]
        simp [Text.pieces, ofSegments, ofSegment?]
    · have some_x : front ++ [last] ≠ [] := by simp
      split
      · rename_i same
        exact absurd same (by simp)
      · rename_i same
        exact absurd (Option.some.inj same) slash
      · exact components_append_slash some_x _

theorem Named.join {p q : LocalPath} (left : p.Named) (right : q.Named) : (p.join q).Named := by
  intro c member
  rw [components_join p right] at member
  rcases List.mem_append.1 member with front | back
  · exact left c front
  · exact right c back

/-- The segments that the components of a path are written as. -/
def names (p : LocalPath) : List Segment := p.components.map Component.chars

theorem names_join (p : LocalPath) {q : LocalPath} (named : q.Named) :
    (p.join q).names = p.names ++ q.names := by
  simp [names, components_join p named]

theorem Named.isName {p : LocalPath} (named : p.Named) {s : Segment} (member : s ∈ p.names) :
    Segment.IsName s := by
  obtain ⟨c, inside, rfl⟩ := List.mem_map.1 member
  obtain ⟨t, rfl⟩ := named c inside
  rw [named.components_eq] at inside
  rcases mem_ofSegments (fun _ => Text.sep_notMem_of_mem_pieces) inside with climb | ⟨u, same, name⟩
  · simp at climb
  · obtain rfl := Component.name.inj same
    exact name

theorem Named.whole {p : LocalPath} (named : p.Named) : ∀ s ∈ p.names, '/' ∉ s :=
  fun _ member => (named.isName member).2.2.2

/-- Where a changed file lies, by components. -/
theorem components_localPath (base : LocalPath) {path : LocalPath} (named : path.Named)
    (kind : ChangeKind) :
    (Change.localPath ⟨base, path, kind⟩).components = base.components ++ path.components := by
  unfold Change.localPath
  split
  · rename_i empty
    have none_below : path.components = [] := by
      rw [named.components_eq, empty]
      rfl
    rw [none_below, List.append_nil]
  · exact components_join base named

/-! ## Below a base -/

theorem ofSegments_of_dropComponent {c : Component} {ss rest : List Segment}
    (found : dropComponent c ss = some rest) :
    ofSegments ss = c :: ofSegments rest ∧ rest ⊆ ss := by
  induction ss with
  | nil => simp [dropComponent] at found
  | cons s ss ih =>
      simp only [dropComponent] at found
      split at found
      · rename_i idle
        obtain ⟨same, inside⟩ := ih found
        exact ⟨(ofSegments_cons_none idle ss).trans same, fun t member => .tail s (inside member)⟩
      · rename_i d means
        split at found
        · rename_i hit
          subst hit
          obtain rfl := Option.some.inj found
          exact ⟨ofSegments_cons_some means ss, fun t member => .tail s member⟩
        · simp at found

theorem exists_dropComponent {c : Component} {cs : List Component} {ss : List Segment}
    (starts : ofSegments ss = c :: cs) :
    ∃ rest, dropComponent c ss = some rest ∧ ofSegments rest = cs := by
  induction ss with
  | nil => simp at starts
  | cons s ss ih =>
      simp only [dropComponent]
      cases means : ofSegment? s with
      | none =>
          rw [ofSegments_cons_none means] at starts
          exact ih starts
      | some d =>
          rw [ofSegments_cons_some means] at starts
          obtain ⟨rfl, same⟩ := List.cons.inj starts
          exact ⟨ss, if_pos rfl, same⟩

theorem ofSegments_of_dropComponents {cs : List Component} {ss rest : List Segment}
    (found : dropComponents cs ss = some rest) :
    ofSegments ss = cs ++ ofSegments rest ∧ rest ⊆ ss := by
  induction cs generalizing ss with
  | nil =>
      obtain rfl := Option.some.inj found
      exact ⟨rfl, fun _ member => member⟩
  | cons c cs ih =>
      obtain ⟨next, first, later⟩ := Option.bind_eq_some_iff.1 found
      obtain ⟨same, inside⟩ := ofSegments_of_dropComponent first
      obtain ⟨same', inside'⟩ := ih later
      exact ⟨by rw [same, same']; rfl, fun _ member => inside (inside' member)⟩

theorem exists_dropComponents {cs : List Component} {ss : List Segment} {ds : List Component}
    (starts : ofSegments ss = cs ++ ds) : ∃ rest, dropComponents cs ss = some rest := by
  induction cs generalizing ss with
  | nil => exact ⟨ss, rfl⟩
  | cons c cs ih =>
      obtain ⟨next, first, same⟩ := exists_dropComponent starts
      obtain ⟨rest, later⟩ := ih same
      exact ⟨rest, by rw [dropComponents, first]; exact later⟩

theorem isIdle_iff {s : Segment} : isIdle s = true ↔ ofSegment? s = none := by
  simp [isIdle]

theorem ofSegments_dropWhile_isIdle (ss : List Segment) :
    ofSegments (ss.dropWhile isIdle) = ofSegments ss := by
  induction ss with
  | nil => rfl
  | cons s ss ih =>
      rw [List.dropWhile_cons]
      split
      · rename_i idle
        rw [ih, ofSegments_cons_none (isIdle_iff.1 idle)]
      · rfl

theorem ofSegments_dropIdleEnd (ss : List Segment) :
    ofSegments (dropIdleEnd ss) = ofSegments ss := by
  have back := ofSegments_dropWhile_isIdle ss.reverse
  simp only [ofSegments, List.filterMap_reverse] at back
  simp only [dropIdleEnd, ofSegments, List.filterMap_reverse, back, List.reverse_reverse]

/-- Segments without idle ones in front spell a path without a lead. -/
theorem components_build_none {ss : List Segment} (whole : ∀ s ∈ ss, '/' ∉ s)
    (busy : ∀ s, ss.head? = some s → isIdle s = false) :
    (build none ss).components = ofSegments ss := by
  cases ss with
  | nil => rfl
  | cons s ss =>
      have pieces := Text.pieces_glue (List.cons_ne_nil s ss) whole
      have moves := busy s rfl
      have leadless : (build none (s :: ss)).split.1 = none := by
        simp only [build, split, pieces]
        split <;> simp_all [isIdle, ofSegment?]
      rw [components_of_leadless leadless]
      simp only [build, pieces]

theorem dropIdleEnd_isPrefix (ss : List Segment) : dropIdleEnd ss <+: ss := by
  have back := List.dropWhile_suffix isIdle (l := ss.reverse)
  simpa [dropIdleEnd] using List.reverse_prefix.2 back

/-- What is left when idle segments are dropped at both ends does not begin with one. -/
theorem head_trimmed {ss : List Segment} {s : Segment}
    (first : (dropIdleEnd (ss.dropWhile isIdle)).head? = some s) : isIdle s = false := by
  obtain ⟨rest, text⟩ := dropIdleEnd_isPrefix (ss.dropWhile isIdle)
  have head := List.head?_dropWhile_not isIdle ss
  cases kept : dropIdleEnd (ss.dropWhile isIdle) with
  | nil => simp [kept] at first
  | cons t ts =>
      rw [kept] at first text
      rw [← text] at head
      obtain rfl := Option.some.inj first
      simpa using head

theorem trimmed_subset (ss : List Segment) : dropIdleEnd (ss.dropWhile isIdle) ⊆ ss :=
  fun _ member => (List.dropWhile_suffix isIdle).subset ((dropIdleEnd_isPrefix _).subset member)

/-- The idle segments at both ends mean nothing. -/
theorem components_build_trimmed {ss : List Segment} (whole : ∀ s ∈ ss, '/' ∉ s) :
    (build none (dropIdleEnd (ss.dropWhile isIdle))).components = ofSegments ss := by
  rw [components_build_none, ofSegments_dropIdleEnd, ofSegments_dropWhile_isIdle]
  · exact fun s member => whole s (trimmed_subset ss member)
  · exact fun s first => head_trimmed first

section Below

variable {p base rel : LocalPath}

/-- What is left of a path below a base is what is written behind it, without the idle segments at
both ends. -/
theorem exists_segments_of_relativeTo? (absolute : base.isAbsolute = true)
    (found : p.relativeTo? base = some rel) :
    p.isAbsolute = true ∧ ∃ rest, rel = build none (dropIdleEnd (rest.dropWhile isIdle)) ∧
      (∀ s ∈ rest, '/' ∉ s) ∧ p.components = base.components ++ ofSegments rest := by
  obtain ⟨y, rfl⟩ := exists_slash absolute
  simp only [relativeTo?, components_slash] at found ⊢
  cases lead : p.split.1 with
  | none =>
      -- No segment means the root, so the base is never behind a missing lead.
      simp only [lead] at found
      obtain ⟨rest, cut, -⟩ := Option.map_eq_some_iff.1 found
      obtain ⟨same, -⟩ := ofSegments_of_dropComponents cut
      have root : Component.root ∈ ofSegments p.split.2 := by simp [same]
      obtain ⟨s, -, means⟩ := List.mem_filterMap.1 root
      rcases ofSegment?_eq_some means with climb | ⟨name, -⟩
      · simp at climb
      · simp at name
  | some l =>
      simp only [lead] at found
      split at found
      · rename_i same_lead
        subst same_lead
        obtain ⟨rest, cut, rfl⟩ := Option.map_eq_some_iff.1 found
        obtain ⟨z, rfl⟩ := exists_slash (isAbsolute_of_lead lead)
        rw [split_slash] at cut
        obtain ⟨same, inside⟩ := ofSegments_of_dropComponents cut
        refine ⟨rfl, rest, rfl, fun s member => Text.sep_notMem_of_mem_pieces (inside member), ?_⟩
        rw [components_slash, same, List.cons_append]
      · simp at found

/-- **What is left of a path below a base is spelled by the components behind those of
the base.** -/
theorem components_of_relativeTo? (absolute : base.isAbsolute = true)
    (found : p.relativeTo? base = some rel) :
    p.isAbsolute = true ∧ p.components = base.components ++ rel.components := by
  obtain ⟨rooted, rest, rfl, whole, same⟩ := exists_segments_of_relativeTo? absolute found
  exact ⟨rooted, by rw [components_build_trimmed whole, same]⟩

/-- Something is left of a path below every prefix of it. -/
theorem relativeTo?_of_prefix (absolute : p.isAbsolute = true) (base_absolute : base.isAbsolute = true)
    (below : base.components <+: p.components) : ∃ rel, p.relativeTo? base = some rel := by
  obtain ⟨z, rfl⟩ := exists_slash absolute
  obtain ⟨y, rfl⟩ := exists_slash base_absolute
  obtain ⟨ds, text⟩ := below
  rw [components_slash, components_slash] at text
  obtain ⟨rest, cut⟩ := exists_dropComponents (List.cons.inj text).2.symm
  refine ⟨build none (dropIdleEnd (rest.dropWhile isIdle)), ?_⟩
  simp only [relativeTo?, split_slash, components_slash, if_true, cut, Option.map_some]

/-- Below an absolute base, a settled path leads down through names. -/
theorem Settled.named_below (settled : p.Settled) (absolute : base.isAbsolute = true)
    (below : p.components = base.components ++ rel.components) : rel.Named := by
  intro c member
  have inside : c ∈ p.components := by simp [below, member]
  obtain ⟨y, rfl⟩ := exists_slash absolute
  obtain ⟨z, rfl⟩ := exists_slash settled.absolute
  rw [components_slash, components_slash] at below
  have behind : c ∈ ofSegments (Text.pieces '/' z) := by
    rw [(List.cons.inj below).2]
    exact List.mem_append_right _ member
  rcases mem_ofSegments (fun _ => Text.sep_notMem_of_mem_pieces) behind with climb | ⟨s, name, -⟩
  · exact absurd (climb ▸ inside) settled.level
  · exact ⟨s, name⟩

end Below

end LocalPath

end DevMode
