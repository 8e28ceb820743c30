/-
# DevMode.Proofs.Location -- what a remote path names, and how names compose

Many paths name one location, and the shortest of them is the one that is written.
What a path names depends on nothing else about it, so the laws here are laws of
locations, and a statement about texts is carried over by two of them:

* `parse_render`: the shortest path to a location names that location;
* `parse_append`: behind a slash, a path goes on from where the first one led.

From these follow the laws of the operations on paths:

* `parse_clean`, `parse_join` and `parse_against` say what the results name;
* `walk_walk_segments`: the shortest way leads from anywhere to where the whole way
  leads, so a path may be cleaned before it is taken against a directory;
* `walk_against`: going further down commutes with being taken against a directory;
* `against_relative`: a relative path leads on from the directory it is taken against;
* `parse_of_relative?`: the way down from one path to another really leads there.
-/
import DevMode.RemotePath

namespace DevMode

set_option autoImplicit false

/-! ## Names -/

/-- A segment that neither stands still nor climbs. -/
def Segment.IsName (s : Segment) : Prop := s ≠ [] ∧ s ≠ ['.'] ∧ s ≠ ['.', '.'] ∧ '/' ∉ s

instance (s : Segment) : Decidable s.IsName :=
  inferInstanceAs (Decidable (s ≠ [] ∧ s ≠ ['.'] ∧ s ≠ ['.', '.'] ∧ '/' ∉ s))

namespace Location

/-- The locations that paths name: down through names only, and nothing above the root. -/
structure WellFormed (l : Location) : Prop where
  names : ∀ s ∈ l.names, Segment.IsName s
  root : l.absolute = true → l.up = 0

/-! ## Walking -/

theorem step_idle (l : Location) {s : Segment} (idle : s = [] ∨ s = ['.']) : l.step s = l := by
  rw [step, if_pos idle]

theorem step_name (l : Location) {s : Segment} (named : Segment.IsName s) :
    l.step s = { l with names := l.names ++ [s] } := by
  have idle : ¬ (s = [] ∨ s = ['.']) := fun h => h.elim named.1 named.2.1
  rw [step, if_neg idle, if_neg named.2.2.1]

/-- A step up takes back the last name, if there is one. -/
theorem step_up (l : Location) (some_down : l.names ≠ []) :
    l.step ['.', '.'] = { l with names := l.names.dropLast } := by
  rw [step, if_neg (by decide), if_pos rfl]
  split
  · rename_i none_down
    exact absurd none_down some_down
  · rfl

theorem walk_names (l : Location) {ss : List Segment} (named : ∀ s ∈ ss, Segment.IsName s) :
    l.walk ss = { l with names := l.names ++ ss } := by
  induction ss generalizing l with
  | nil => simp
  | cons s ss ih =>
      rw [walk_cons, step_name l (named s (by simp)),
        ih _ fun t member => named t (List.mem_cons_of_mem s member)]
      simp

theorem wellFormed_origin (absolute : Bool) : (origin absolute).WellFormed :=
  ⟨by simp [origin], fun _ => rfl⟩

theorem WellFormed.step {l : Location} (wf : l.WellFormed) {s : Segment} (whole : '/' ∉ s) :
    (l.step s).WellFormed := by
  simp only [Location.step]
  split
  · exact wf
  · rename_i moves
    rw [not_or] at moves
    split
    · split
      · split
        · exact wf
        · rename_i relative
          exact ⟨wf.names, fun absolute => absurd absolute relative⟩
      · exact ⟨fun t member => wf.names t (List.dropLast_subset _ member), wf.root⟩
    · rename_i no_climb
      refine ⟨fun t member => ?_, wf.root⟩
      rcases List.mem_append.1 member with old | new
      · exact wf.names t old
      · rw [List.mem_singleton.1 new]
        exact ⟨moves.1, moves.2, no_climb, whole⟩

theorem WellFormed.walk {l : Location} (wf : l.WellFormed) {ss : List Segment}
    (whole : ∀ s ∈ ss, '/' ∉ s) : (l.walk ss).WellFormed := by
  induction ss generalizing l with
  | nil => exact wf
  | cons s ss ih =>
      exact ih (wf.step (whole s (by simp))) fun t member => whole t (List.mem_cons_of_mem s member)

theorem WellFormed.walk_pieces {l : Location} (wf : l.WellFormed) (path : List Char) :
    (l.walk (Text.pieces '/' path)).WellFormed :=
  wf.walk fun _ member => Text.sep_notMem_of_mem_pieces member

theorem wellFormed_parse (path : List Char) : (parse path).WellFormed :=
  (wellFormed_origin _).walk_pieces path

@[simp] theorem parse_absolute (path : List Char) :
    (parse path).absolute = (path.head? == some '/') := by
  simp [parse, origin]

theorem parse_relative {path : List Char} (relative : path.head? ≠ some '/') :
    parse path = (origin false).walk (Text.pieces '/' path) := by
  rw [parse, beq_eq_false_iff_ne.2 relative]

/-- Glued segments are walked one by one; nothing at all is one idle piece. -/
theorem walk_pieces_glue (l : Location) {ss : List Segment} (whole : ∀ s ∈ ss, '/' ∉ s) :
    l.walk (Text.pieces '/' (Text.glue '/' ss)) = l.walk ss := by
  by_cases none_left : ss = []
  · subst none_left
    exact l.step_idle (Or.inl rfl)
  · rw [Text.pieces_glue none_left whole]

/-! ## The shortest path -/

theorem WellFormed.whole {l : Location} (wf : l.WellFormed) : ∀ s ∈ l.segments, '/' ∉ s := by
  intro s member
  rcases List.mem_append.1 member with climb | named
  · rw [List.eq_of_mem_replicate climb]
    decide
  · exact (wf.names s named).2.2.2

theorem WellFormed.ne_nil {l : Location} (wf : l.WellFormed) : ∀ s ∈ l.segments, s ≠ [] := by
  intro s member
  rcases List.mem_append.1 member with climb | named
  · rw [List.eq_of_mem_replicate climb]
    decide
  · exact (wf.names s named).1

theorem walk_replicate_up (n : Nat) :
    ∀ k, (⟨false, k, []⟩ : Location).walk (List.replicate n ['.', '.']) = ⟨false, k + n, []⟩ := by
  induction n with
  | zero => intro k; rfl
  | succ n ih =>
      intro k
      have climb : (⟨false, k, []⟩ : Location).step ['.', '.'] = ⟨false, k + 1, []⟩ := by
        simp [Location.step]
      rw [List.replicate_succ, walk_cons, climb, ih, Nat.add_assoc, Nat.add_comm 1 n]

/-- The shortest way to a location leads there. -/
theorem walk_segments {l : Location} (wf : l.WellFormed) :
    (origin l.absolute).walk l.segments = l := by
  obtain ⟨absolute, up, names⟩ := l
  have climb : (origin absolute).walk (List.replicate up ['.', '.']) = ⟨absolute, up, []⟩ := by
    cases absolute with
    | true =>
        have none_up : up = 0 := wf.root rfl
        subst none_up
        rfl
    | false => simpa [origin] using walk_replicate_up up 0
  rw [segments, walk_append, climb, walk_names _ wf.names, List.nil_append]

theorem head?_glue {ss : List Segment} (solid : ∀ s ∈ ss, s ≠ []) (whole : ∀ s ∈ ss, '/' ∉ s) :
    (Text.glue '/' ss).head? ≠ some '/' := by
  cases ss with
  | nil => simp [Text.glue]
  | cons s ss =>
      have first := solid s (by simp)
      cases s with
      | nil => exact absurd rfl first
      | cons c cs =>
          have other : c ≠ '/' := fun h => whole (c :: cs) (by simp) (by simp [h])
          cases ss <;> simpa [Text.glue] using other

theorem head?_render {l : Location} (wf : l.WellFormed) :
    (l.render.head? == some '/') = l.absolute := by
  unfold render
  split
  · simp_all
  · rename_i relative
    rw [Bool.not_eq_true] at relative
    split
    · simp [relative]
    · rw [relative, beq_eq_false_iff_ne]
      exact head?_glue wf.ne_nil wf.whole

theorem render_ne_nil {l : Location} (wf : l.WellFormed) : l.render ≠ [] := by
  unfold render
  split
  · simp
  · split
    · simp
    · rename_i moves
      exact Text.glue_ne_nil wf.ne_nil moves

/-- The shortest path to a location names it. -/
theorem parse_render {l : Location} (wf : l.WellFormed) : parse l.render = l := by
  have start : parse l.render = (origin l.absolute).walk (Text.pieces '/' l.render) := by
    rw [parse, head?_render wf]
  have way : (origin l.absolute).walk (Text.pieces '/' l.render) =
      (origin l.absolute).walk l.segments := by
    unfold render
    split
    · rw [Text.pieces, if_pos rfl, walk_cons, step_idle _ (Or.inl rfl), walk_pieces_glue _ wf.whole]
    · split
      · rename_i still
        rw [still]
        exact step_idle _ (Or.inr rfl)
      · rw [walk_pieces_glue _ wf.whole]
  rw [start, way, walk_segments wf]

theorem render_injective {l m : Location} (wl : l.WellFormed) (wm : m.WellFormed)
    (same : l.render = m.render) : l = m := by
  rw [← parse_render wl, same, parse_render wm]

/-! ## Paths behind paths -/

theorem parse_append {base : List Char} (some_base : base ≠ []) (rel : List Char) :
    parse (base ++ '/' :: rel) = (parse base).walk (Text.pieces '/' rel) := by
  have lead : (base ++ '/' :: rel).head? = base.head? := by
    cases base with
    | nil => exact absurd rfl some_base
    | cons c cs => rfl
  rw [parse, parse, lead, Text.pieces_append_sep, walk_append]

/-- One more segment, from anywhere, after the shortest way or after the whole way. -/
theorem walk_segments_step (l : Location) {m : Location} (relative : m.absolute = false)
    (named : ∀ s ∈ m.names, Segment.IsName s) (s : Segment) :
    l.walk (m.step s).segments = (l.walk m.segments).step s := by
  by_cases idle : s = [] ∨ s = ['.']
  · rw [step_idle m idle, step_idle _ idle]
  by_cases climb : s = ['.', '.']
  · subst climb
    obtain ⟨absolute, up, names⟩ := m
    cases relative
    rcases List.eq_nil_or_concat names with none_down | ⟨front, last, rfl⟩
    · subst none_down
      have one_up : (⟨false, up, []⟩ : Location).step ['.', '.'] = ⟨false, up + 1, []⟩ := by
        simp [Location.step]
      rw [one_up]
      simp only [segments, List.append_nil, List.replicate_succ', walk_append, walk_cons, walk_nil]
    · -- The last name and the step back over it cancel out, wherever the way started.
      have back : ∀ n : Location, (n.step last).step ['.', '.'] = n := by
        intro n
        rw [step_name n (named last (by simp)), step_up _ (by simp)]
        simp
      rw [step_up _ (by simp)]
      simp only [segments, List.concat_eq_append, List.dropLast_concat, ← List.append_assoc,
        walk_append, walk_cons, walk_nil, back]
  · have further : ∀ n : Location, n.step s = { n with names := n.names ++ [s] } := by
      intro n
      rw [Location.step, if_neg idle, if_neg climb]
    rw [further m]
    simp only [segments, ← List.append_assoc, walk_append, walk_cons, walk_nil]

/-- **The shortest way leads from anywhere to where the whole way leads.** -/
theorem walk_walk_segments (l : Location) {m : Location} (relative : m.absolute = false)
    (wf : m.WellFormed) {ss : List Segment} (whole : ∀ s ∈ ss, '/' ∉ s) :
    l.walk (m.walk ss).segments = (l.walk m.segments).walk ss := by
  induction ss generalizing m with
  | nil => rfl
  | cons s ss ih =>
      have next := wf.step (whole s (by simp))
      rw [walk_cons, ih (by simp [relative]) next fun t member => whole t (List.mem_cons_of_mem s member),
        walk_segments_step l relative wf.names, walk_cons]

/-- The location of `l` where relative ones are taken against `dir`. -/
def against (l dir : Location) : Location := if l.absolute then l else dir.walk l.segments

theorem against_of_absolute {l : Location} (absolute : l.absolute = true) (dir : Location) :
    l.against dir = l := if_pos absolute

theorem against_of_relative {l : Location} (relative : l.absolute = false) (dir : Location) :
    l.against dir = dir.walk l.segments := by
  rw [against, relative, if_neg Bool.false_ne_true]

theorem absolute_against (l dir : Location) :
    (l.against dir).absolute = (l.absolute || dir.absolute) := by
  cases kind : l.absolute with
  | true => rw [against_of_absolute kind, kind, Bool.true_or]
  | false => rw [against_of_relative kind, walk_absolute, Bool.false_or]

/-- Going down from a location commutes with taking it against a directory. -/
theorem walk_against {l : Location} (wf : l.WellFormed) (dir : Location) {ss : List Segment}
    (whole : ∀ s ∈ ss, '/' ∉ s) : (l.walk ss).against dir = (l.against dir).walk ss := by
  simp only [against, walk_absolute]
  split
  · rfl
  · rename_i relative
    exact walk_walk_segments dir (Bool.not_eq_true _ ▸ relative) wf whole

theorem WellFormed.against {l dir : Location} (wf : l.WellFormed) (wd : dir.WellFormed) :
    (l.against dir).WellFormed := by
  unfold Location.against
  split
  · exact wf
  · exact wd.walk wf.whole

end Location

/-! ## The operations on paths -/

namespace RemotePath

open Location

theorem toList_ne_nil {path : String} (some_path : path ≠ "") : path.toList ≠ [] := by
  simpa using some_path

@[simp] theorem parse_clean (path : String) : parse (clean path).toList = parse path.toList := by
  rw [clean, String.toList_ofList, parse_render (wellFormed_parse _)]

theorem ne_empty_of_render {path : String} {l : Location} (wf : l.WellFormed)
    (text : path = String.ofList l.render) : path ≠ "" := by
  rintro rfl
  have none_written := congrArg String.toList text
  simp [render_ne_nil wf] at none_written

theorem isAbsolute_render {l : Location} (wf : l.WellFormed) :
    isAbsolute (String.ofList l.render) = l.absolute := by
  rw [isAbsolute, String.toList_ofList, head?_render wf]

/-- A shortest path is left as it is. -/
theorem clean_render {l : Location} (wf : l.WellFormed) :
    clean (String.ofList l.render) = String.ofList l.render := by
  rw [clean, String.toList_ofList, parse_render wf]

theorem clean_ne_empty (path : String) : clean path ≠ "" :=
  ne_empty_of_render (wellFormed_parse path.toList) rfl

@[simp] theorem isAbsolute_clean (path : String) : isAbsolute (clean path) = isAbsolute path :=
  (isAbsolute_render (wellFormed_parse path.toList)).trans (parse_absolute path.toList)

/-- What a path joined to another one is. -/
theorem join_eq {base : String} (some_base : base ≠ "") (rel : String) :
    join base rel =
      String.ofList ((parse base.toList).walk (Text.pieces '/' rel.toList)).render := by
  have base_given : base.isEmpty = false := by simpa using some_base
  by_cases none_added : rel = ""
  · subst none_added
    simp only [join, base_given, clean]
    rfl
  · have rel_given : rel.isEmpty = false := by simpa using none_added
    have text : (base ++ "/" ++ rel).toList = base.toList ++ '/' :: rel.toList := by simp
    simp only [join, base_given, rel_given, Bool.false_eq_true, if_false, clean, text,
      parse_append (toList_ne_nil some_base)]

theorem parse_join {base : String} (some_base : base ≠ "") (rel : String) :
    parse (join base rel).toList = (parse base.toList).walk (Text.pieces '/' rel.toList) := by
  rw [join_eq some_base, String.toList_ofList, parse_render ((wellFormed_parse _).walk_pieces _)]

/-! ## Paths against a directory -/

/-- A relative path leads from where it is taken against, however it is spelled. -/
theorem against_relative {path : List Char} (relative : path.head? ≠ some '/') (dir : Location) :
    (parse path).against dir = dir.walk (Text.pieces '/' path) := by
  have whole : ∀ s ∈ Text.pieces '/' path, '/' ∉ s := fun _ => Text.sep_notMem_of_mem_pieces
  have start := parse_relative relative
  rw [Location.against, parse_absolute, beq_eq_false_iff_ne.2 relative, start,
    walk_walk_segments _ rfl (wellFormed_origin false) whole]
  rfl

theorem against_absolute {path : List Char} (absolute : path.head? = some '/') (dir : Location) :
    (parse path).against dir = parse path :=
  against_of_absolute (by rw [parse_absolute, absolute, BEq.rfl]) dir

/-- Against nothing known, a path names what it names by itself. -/
theorem against_origin (path : List Char) : (parse path).against (origin false) = parse path := by
  by_cases absolute : path.head? = some '/'
  · exact against_absolute absolute _
  · rw [against_relative absolute, parse_relative absolute]

theorem isAbsolute_iff (path : String) : isAbsolute path = true ↔ path.toList.head? = some '/' := by
  simp [isAbsolute]

theorem isAbsolute_eq_false_iff (path : String) :
    isAbsolute path = false ↔ path.toList.head? ≠ some '/' := by
  simp [isAbsolute]

/-- The directory that `path` leads to in a process that stands in `dir`. -/
def against (path dir : String) : String := if isAbsolute path then clean path else join dir path

theorem against_eq {dir : String} (some_dir : dir ≠ "") (path : String) :
    against path dir =
      String.ofList ((parse path.toList).against (parse dir.toList)).render := by
  unfold against
  split
  · rename_i absolute
    rw [against_absolute ((isAbsolute_iff path).1 absolute)]
    rfl
  · rename_i relative
    rw [join_eq some_dir, against_relative fun absolute => relative ((isAbsolute_iff path).2 absolute)]

theorem parse_against {dir : String} (some_dir : dir ≠ "") (path : String) :
    parse (against path dir).toList = (parse path.toList).against (parse dir.toList) := by
  rw [against_eq some_dir, String.toList_ofList,
    parse_render ((wellFormed_parse _).against (wellFormed_parse _))]

/-! ## Ways down -/

/-- **A way down leads where it says.** -/
theorem parse_of_relative? {base target way : String} (found : relative? base target = some way) :
    parse target.toList = (parse base.toList).walk (Text.pieces '/' way.toList) := by
  have wb := wellFormed_parse base.toList
  have wt := wellFormed_parse target.toList
  -- Each branch spells the target behind the base, so reading the text again settles it.
  simp only [relative?] at found
  split at found
  · rename_i same
    obtain rfl := Option.some.inj found
    rw [render_injective wb wt same]
    exact (step_idle _ (Or.inr rfl)).symm
  split at found
  · simp at found
  rename_i alike
  split at found
  · rename_i root
    obtain ⟨rest, cut, rfl⟩ := Option.map_eq_some_iff.1 found
    have text := Text.after?_eq_some_iff.1 cut
    rw [← parse_render wt, text, ← parse_render wb, root, String.toList_ofList]
    rfl
  split at found
  · rename_i still
    split at found
    · simp at found
    · obtain rfl := Option.some.inj found
      have relative : (parse target.toList).render.head? ≠ some '/' := by
        simpa [still] using alike
      have text := parse_relative relative
      rw [parse_render wt] at text
      have start : parse base.toList = origin false := by
        rw [← parse_render wb, still]
        rfl
      rw [String.toList_ofList, start, ← text]
  · obtain ⟨rest, cut, rfl⟩ := Option.map_eq_some_iff.1 found
    have text := Text.after?_eq_some_iff.1 cut
    rw [← parse_render wt, text, List.append_assoc, List.singleton_append,
      parse_append (render_ne_nil wb), parse_render wb, String.toList_ofList]

theorem relative?_of_parse_eq {base target : String}
    (same : parse base.toList = parse target.toList) : relative? base target = some "." := by
  simp [relative?, same]

end RemotePath

end DevMode
