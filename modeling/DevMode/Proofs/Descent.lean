/-
# DevMode.Proofs.Descent -- when there is a way down, and what it is

`RemotePath.relative?` compares texts.  What it finds is a matter of locations: the shortest way to
the target goes on where that to the base ends, and the segments behind it are the way
(`relative?_eq_some_iff`).  There are two oddities.  Further steps up count as a way down from a
base that ends in steps up, and from `.` no way is found that starts with two dots, be it a step up
or a name.

Ways compose (`Location.Descends.trans`) as their texts are put together, and no two ways have one
text (`written_injective`).
-/
import DevMode.Proofs.CleanPath
import DevMode.Source

namespace DevMode

set_option autoImplicit false

/-! ## Ways -/

/-- A segment of a shortest path: a name, or a step up. -/
def Segment.IsStep (s : Segment) : Prop := s ≠ [] ∧ s ≠ ['.'] ∧ '/' ∉ s

namespace RemotePath

/-- How a way down is written. -/
def written (ss : List Segment) : String :=
  if ss = [] then "." else String.ofList (Text.glue '/' ss)

theorem glue_ne_dot {ss : List Segment} (steps : ∀ s ∈ ss, Segment.IsStep s) (some_step : ss ≠ []) :
    Text.glue '/' ss ≠ ['.'] := by
  intro dot
  have pieces := Text.pieces_glue some_step fun s member => (steps s member).2.2
  rw [dot] at pieces
  have lone : ['.'] ∈ ss := by
    rw [← pieces]
    decide
  exact (steps _ lone).2.1 rfl

/-- Ways are told apart by their texts. -/
theorem written_injective {ss ts : List Segment} (steps : ∀ s ∈ ss, Segment.IsStep s)
    (steps' : ∀ s ∈ ts, Segment.IsStep s) (same : written ss = written ts) : ss = ts := by
  have dot : "." = String.ofList ['.'] := rfl
  unfold written at same
  rw [dot] at same
  split at same <;> split at same
  · rename_i none_left none_left'
    rw [none_left, none_left']
  · rename_i some_left
    exact absurd (String.ofList_inj.1 same).symm (glue_ne_dot steps' some_left)
  · rename_i some_left _
    exact absurd (String.ofList_inj.1 same) (glue_ne_dot steps some_left)
  · rename_i some_left some_left'
    rw [← Text.pieces_glue some_left fun s member => (steps s member).2.2, String.ofList_inj.1 same,
      Text.pieces_glue some_left' fun s member => (steps' s member).2.2]

end RemotePath

/-- An offset is written as the way of its components. -/
theorem Source.offset_eq_written {rel : LocalPath} (steps : ∀ s ∈ rel.names, Segment.IsStep s) :
    Source.offset rel = RemotePath.written rel.names := by
  have empty : rel.posix.isEmpty = true ↔ rel.names = [] := by
    rw [String.isEmpty_iff, LocalPath.posix, ← LocalPath.names]
    constructor
    · intro no_text
      have glued : Text.glue '/' rel.names = [] := by simpa using no_text
      refine Classical.byContradiction fun some_name => ?_
      exact Text.glue_ne_nil (fun s member => (steps s member).1) some_name glued
    · intro none_below
      rw [none_below]
      rfl
  unfold Source.offset RemotePath.written
  simp only [empty]
  rfl

/-! ## Ways between locations -/

namespace Location

theorem WellFormed.steps {l : Location} (wf : l.WellFormed) : ∀ s ∈ l.segments, Segment.IsStep s := by
  intro s member
  refine ⟨wf.ne_nil s member, ?_, wf.whole s member⟩
  rcases List.mem_append.1 member with climb | named
  · rw [List.eq_of_mem_replicate climb]
    decide
  · exact (wf.names s named).2.1

/-- A location is told by whether it is absolute and by the shortest way to it. -/
theorem WellFormed.ext {l m : Location} (wl : l.WellFormed) (wm : m.WellFormed)
    (alike : l.absolute = m.absolute) (same : l.segments = m.segments) : l = m := by
  rw [← walk_segments wl, alike, same, walk_segments wm]

/-- `ss` is found as the way down from `b` to `t`. -/
structure Descends (b t : Location) (ss : List Segment) : Prop where
  alike : b.absolute = t.absolute
  behind : t.segments = b.segments ++ ss
  /-- From where one stands, two dots are taken for a step up. -/
  undotted : b = origin false → ∀ s, ss.head? = some s → ¬ ['.', '.'] <+: s

variable {b t u : Location} {ss ts : List Segment}

theorem Descends.refl (l : Location) : l.Descends l [] :=
  ⟨rfl, (List.append_nil _).symm, fun _ _ first => by cases first⟩

theorem Descends.steps (down : b.Descends t ss) (wf : t.WellFormed) :
    ∀ s ∈ ss, Segment.IsStep s := by
  intro s member
  apply wf.steps
  rw [down.behind]
  exact List.mem_append_right _ member

/-- **Ways compose.** -/
theorem Descends.trans (wb : b.WellFormed) (wt : t.WellFormed) (first : b.Descends t ss)
    (second : t.Descends u ts) : b.Descends u (ss ++ ts) := by
  refine ⟨first.alike.trans second.alike, ?_, ?_⟩
  · rw [second.behind, first.behind, List.append_assoc]
  · intro here s head
    cases ss with
    | nil =>
        have same : b = t := wb.ext wt first.alike (by simp [first.behind])
        exact second.undotted (same ▸ here) s head
    | cons s' ss => exact first.undotted here s head

theorem Descends.eq (wb : b.WellFormed) (wt : t.WellFormed) (down : b.Descends t []) : b = t :=
  wb.ext wt down.alike (by simp [down.behind])

end Location

namespace RemotePath

open Location

variable {b t : Location}

/-- The text of a location goes on behind a slash where that of another one ends. -/
theorem render_eq_append_slash_iff (wb : b.WellFormed) (wt : t.WellFormed)
    (alike : b.absolute = t.absolute) (below : b.segments ≠ []) {rest : List Char} :
    t.render = b.render ++ '/' :: rest ↔ t.segments = b.segments ++ Text.pieces '/' rest := by
  have glued : Text.glue '/' (b.segments ++ Text.pieces '/' rest) =
      Text.glue '/' b.segments ++ '/' :: rest := by
    rw [LocalPath.glue_append below (Text.pieces_ne_nil '/' rest), Text.glue_pieces]
  by_cases none_there : t.segments = []
  · have lone : '/' ∉ t.render.tail := by
      simp only [render, none_there]
      split <;> simp [Text.glue]
    have solid := render_ne_nil wb
    constructor
    · intro same
      rw [same, List.tail_append_of_ne_nil solid] at lone
      simp at lone
    · intro same
      simp [none_there, below] at same
  · have cut : Text.glue '/' t.segments = Text.glue '/' b.segments ++ '/' :: rest ↔
        t.segments = b.segments ++ Text.pieces '/' rest := by
      rw [← glued]
      refine ⟨fun same => ?_, congrArg _⟩
      have whole : ∀ s ∈ b.segments ++ Text.pieces '/' rest, '/' ∉ s := by
        intro s member
        rcases List.mem_append.1 member with front | back
        · exact wb.whole s front
        · exact Text.sep_notMem_of_mem_pieces back
      rw [← Text.pieces_glue none_there wt.whole, same, Text.pieces_glue (by simp [below]) whole]
    rw [← cut]
    cases absolute : t.absolute <;> simp [render, alike, absolute, none_there, below]

theorem render_eq_root_iff (wf : b.WellFormed) : b.render = ['/'] ↔ b = origin true :=
  ⟨fun same => render_injective wf (wellFormed_origin true) same, fun same => same ▸ rfl⟩

theorem render_eq_dot_iff (wf : b.WellFormed) : b.render = ['.'] ↔ b = origin false :=
  ⟨fun same => render_injective wf (wellFormed_origin false) same, fun same => same ▸ rfl⟩

/-- A text of steps starts with two dots as its first step does. -/
theorem dots_prefix_glue_iff {s : Segment} (step : Segment.IsStep s) (ss : List Segment) :
    ['.', '.'] <+: Text.glue '/' (s :: ss) ↔ ['.', '.'] <+: s := by
  obtain ⟨solid, moves, whole⟩ := step
  rcases s with _ | ⟨c, _ | ⟨d, s⟩⟩
  · exact absurd rfl solid
  · cases ss <;> simp_all [Text.glue]
  · cases ss <;> simp [Text.glue]

/-- From where a path starts, the way down is all of it. -/
theorem descends_origin_iff (wt : t.WellFormed) {ss : List Segment} :
    (origin t.absolute).Descends t ss ↔
      ss = t.segments ∧ (t.absolute = false → ¬ ['.', '.'] <+: Text.glue '/' t.segments) := by
  have dots (s : Segment) (rest : List Segment) (text : t.segments = s :: rest) :
      ['.', '.'] <+: Text.glue '/' t.segments ↔ ['.', '.'] <+: s := by
    rw [text, dots_prefix_glue_iff (wt.steps s (by simp [text]))]
  constructor
  · rintro ⟨-, behind, undotted⟩
    obtain rfl : ss = t.segments := behind.symm
    refine ⟨rfl, fun relative => ?_⟩
    cases text : t.segments with
    | nil => simp [Text.glue]
    | cons s rest =>
        rw [← text, dots s rest text]
        exact undotted (by rw [relative]) s (by simp [text])
  · rintro ⟨rfl, undotted⟩
    refine ⟨rfl, rfl, fun here s first => ?_⟩
    obtain ⟨rest, text⟩ := List.head?_eq_some_iff.1 first
    rw [← dots s rest text]
    exact undotted (congrArg Location.absolute here)

section Apart

variable {base target way : String} (apart : parse base.toList ≠ parse target.toList)

include apart

/-- The texts that are compared for paths that do not name one location. -/
theorem relative?_of_apart :
    relative? base target =
      if (parse base.toList).absolute ≠ (parse target.toList).absolute then none
      else if (parse base.toList).render = ['/'] then
        (Text.after? ['/'] (parse target.toList).render).map String.ofList
      else if (parse base.toList).render = ['.'] then
        if ['.', '.'] <+: (parse target.toList).render then none
        else some (String.ofList (parse target.toList).render)
      else (Text.after? ((parse base.toList).render ++ ['/']) (parse target.toList).render).map
        String.ofList := by
  have wb := wellFormed_parse base.toList
  have wt := wellFormed_parse target.toList
  have unlike_text : (parse base.toList).render ≠ (parse target.toList).render :=
    fun text => apart (render_injective wb wt text)
  simp only [relative?, if_neg unlike_text, head?_render wb, head?_render wt, bne_iff_ne,
    List.isPrefixOf_iff_prefix]

variable (alike : (parse base.toList).absolute = (parse target.toList).absolute)

include alike

/-- From where a path starts, all of the target is the way. -/
theorem relative?_from_origin (top : (parse base.toList).segments = []) :
    relative? base target = some way ↔
      ∃ ss, (parse base.toList).Descends (parse target.toList) ss ∧ way = written ss := by
  have wt := wellFormed_parse target.toList
  have here : parse base.toList = origin (parse target.toList).absolute :=
    (wellFormed_parse base.toList).ext (wellFormed_origin _) alike top
  rw [relative?_of_apart apart, if_neg fun unlike => unlike alike]
  rw [here] at apart ⊢
  generalize parse target.toList = t at *
  have some_left : t.segments ≠ [] := by
    intro none_left
    exact apart ((wellFormed_origin _).ext wt rfl none_left.symm)
  simp only [descends_origin_iff wt, and_assoc, exists_eq_left, written, if_neg some_left]
  cases absolute : t.absolute with
  | true =>
      have text : t.render = ['/'] ++ Text.glue '/' t.segments := by simp [render, absolute]
      have root : (origin true).render = ['/'] := rfl
      rw [if_pos root, Text.after?_eq_some_iff.2 text]
      simp [eq_comm]
  | false =>
      have text : t.render = Text.glue '/' t.segments := by simp [render, absolute, some_left]
      have dot : (origin false).render = ['.'] := rfl
      rw [if_neg (by decide), if_pos dot, text, Option.ite_none_left_eq_some, Option.some.injEq]
      constructor
      · rintro ⟨undotted, same⟩
        exact ⟨fun _ => undotted, same.symm⟩
      · rintro ⟨undotted, same⟩
        exact ⟨undotted rfl, same.symm⟩

/-- From below, the way is what stands behind the base and a slash. -/
theorem relative?_from_below (below : (parse base.toList).segments ≠ []) :
    relative? base target = some way ↔
      ∃ ss, (parse base.toList).Descends (parse target.toList) ss ∧ way = written ss := by
  have wb := wellFormed_parse base.toList
  have wt := wellFormed_parse target.toList
  rw [relative?_of_apart apart, if_neg fun unlike => unlike alike]
  generalize parse base.toList = b at *
  generalize parse target.toList = t at *
  have no_origin (absolute : Bool) : b ≠ origin absolute := fun here => below (here ▸ rfl)
  have no_root : b.render ≠ ['/'] := fun root => no_origin true ((render_eq_root_iff wb).1 root)
  have no_dot : b.render ≠ ['.'] := fun dot => no_origin false ((render_eq_dot_iff wb).1 dot)
  simp only [if_neg no_root, if_neg no_dot, Option.map_eq_some_iff, Text.after?_eq_some_iff,
    List.append_assoc, List.singleton_append, render_eq_append_slash_iff wb wt alike below]
  constructor
  · rintro ⟨rest, behind, rfl⟩
    refine ⟨Text.pieces '/' rest, ⟨alike, behind, fun here => absurd here (no_origin false)⟩, ?_⟩
    rw [written, if_neg (Text.pieces_ne_nil '/' rest), Text.glue_pieces]
  · rintro ⟨ss, down, rfl⟩
    have some_way : ss ≠ [] := by
      rintro rfl
      exact apart (down.eq wb wt)
    refine ⟨Text.glue '/' ss, ?_, (if_neg some_way).symm⟩
    rw [Text.pieces_glue some_way fun s member => (down.steps wt s member).2.2, down.behind]

end Apart

/-- **When there is a way down, and what it is.** -/
theorem relative?_eq_some_iff {base target way : String} :
    relative? base target = some way ↔
      ∃ ss, (parse base.toList).Descends (parse target.toList) ss ∧ way = written ss := by
  by_cases same : parse base.toList = parse target.toList
  · rw [relative?_of_parse_eq same, same]
    constructor
    · intro still
      exact ⟨[], Descends.refl _, (Option.some.inj still).symm⟩
    · rintro ⟨ss, down, rfl⟩
      obtain rfl := List.self_eq_append_right.1 down.behind
      rfl
  by_cases alike : (parse base.toList).absolute = (parse target.toList).absolute
  · by_cases top : (parse base.toList).segments = []
    · exact relative?_from_origin same alike top
    · exact relative?_from_below same alike top
  · rw [relative?_of_apart same, if_pos alike]
    constructor
    · intro found
      cases found
    · rintro ⟨ss, down, -⟩
      exact absurd down.alike alike

end RemotePath

end DevMode
