/-
# DevMode.Proofs.Canonical -- the one text for each location

A path that is clean is known by its text: what stands between its slashes are steps up, which only
a relative path has, and then names (`IsClean`).  Cleaning makes each path one of these and leaves
them as they are (`clean_eq_self_iff`), so there is one of them for each location.

Where a relative path leads from a directory depends on the two locations only (`clean_behind`), so
both may be cleaned before.  The other way round, a relative location is known by where it leads
from absolute directories (`eq_of_against`): the root, which absorbs all steps up, gives its names
away, and a directory deep enough the number of steps.
-/
import DevMode.Proofs.Descent
import Mathlib.Data.List.TakeWhile

namespace DevMode

set_option autoImplicit false

namespace Location

/-! ## Steps up -/

theorem WellFormed.climb_notMem {l : Location} (wf : l.WellFormed) : ['.', '.'] ∉ l.names :=
  fun member => (wf.names _ member).2.2.1 rfl

/-- Only relative locations have steps up. -/
theorem WellFormed.relative_of_climb {l : Location} (wf : l.WellFormed)
    (climbs : ['.', '.'] ∈ l.segments) : l.absolute = false := by
  refine Bool.eq_false_iff.2 fun absolute => wf.climb_notMem ?_
  rwa [segments, wf.root absolute, List.replicate_zero, List.nil_append] at climbs

/-! ## Known by where it leads -/

/-- Steps up take back names, as long as there are any. -/
theorem length_names_climb (k : Nat) :
    ∀ names : List Segment,
      ((⟨true, 0, names⟩ : Location).walk (List.replicate k ['.', '.'])).names.length =
        names.length - k := by
  induction k with
  | zero => exact fun names => rfl
  | succ k ih =>
      intro names
      have back : (⟨true, 0, names⟩ : Location).step ['.', '.'] = ⟨true, 0, names.dropLast⟩ :=
        step_place names ['.', '.']
      rw [List.replicate_succ, walk_cons, back, ih, List.length_dropLast, Nat.sub_sub, Nat.add_comm 1]

/-- A relative location adds its names to those that its steps up leave of a directory. -/
theorem names_against {l : Location} (wf : l.WellFormed) (relative : l.absolute = false)
    (dir : Location) :
    (l.against dir).names = (dir.walk (List.replicate l.up ['.', '.'])).names ++ l.names := by
  rw [against_of_relative relative, segments, walk_append, walk_names _ wf.names]

/-- **A relative location is known by where it leads.** -/
theorem eq_of_against {l m : Location} (wl : l.WellFormed) (wm : m.WellFormed)
    (relative_l : l.absolute = false) (relative_m : m.absolute = false)
    (same : ∀ names : List Segment, (∀ s ∈ names, Segment.IsName s) →
      l.against ⟨true, 0, names⟩ = m.against ⟨true, 0, names⟩) : l = m := by
  have added (names : List Segment) (named : ∀ s ∈ names, Segment.IsName s) :
      ((⟨true, 0, names⟩ : Location).walk (List.replicate l.up ['.', '.'])).names ++ l.names =
        ((⟨true, 0, names⟩ : Location).walk (List.replicate m.up ['.', '.'])).names ++ m.names := by
    rw [← names_against wl relative_l, ← names_against wm relative_m, same names named]
  -- The root absorbs the steps up, and only the names are left.
  have from_root : l.names = m.names := by
    refine List.append_inj_right (added [] (List.forall_mem_nil _)) ?_
    simp only [length_names_climb, List.length_nil, Nat.zero_sub]
  -- Deep enough below it no step up is lost, and one more of them leaves one name less.
  have from_below : l.up = m.up := by
    have deep := added (List.replicate (l.up + m.up) ['x']) fun s member => by
      rw [List.eq_of_mem_replicate member]
      decide
    have counted := congrArg List.length deep
    simp only [List.length_append, length_names_climb, List.length_replicate, from_root] at counted
    omega
  refine wl.ext wm (relative_l.trans relative_m.symm) ?_
  rw [segments, segments, from_below, from_root]

end Location

namespace RemotePath

open Location

/-! ## The text of a clean path -/

/-- What stands between the slashes of a path, one in front left aside; `.` and `/` have no steps. -/
def steps (path : String) : List Segment :=
  if path = "." ∨ path = "/" then []
  else Text.pieces '/' (if isAbsolute path then path.toList.tail else path.toList)

/-- Between the slashes of a clean path stand steps up, if it is relative, and then names. -/
structure IsClean (path : String) : Prop where
  solid : ∀ s ∈ steps path, s ≠ [] ∧ s ≠ ['.']
  climbs_first : ['.', '.'] ∉ (steps path).dropWhile (· = ['.', '.'])
  rooted : isAbsolute path = true → ['.', '.'] ∉ steps path

theorem sep_notMem_of_mem_steps {path : String} {s : Segment} (member : s ∈ steps path) : '/' ∉ s := by
  unfold steps at member
  split at member
  · cases member
  · exact Text.sep_notMem_of_mem_pieces member

/-- The steps of a shortest path are its segments. -/
theorem steps_render {l : Location} (wf : l.WellFormed) :
    steps (String.ofList l.render) = l.segments := by
  have dot : "." = String.ofList ['.'] := rfl
  have slash : "/" = String.ofList ['/'] := rfl
  simp only [steps, isAbsolute_render wf, String.toList_ofList, dot, slash, String.ofList_inj]
  by_cases none_left : l.segments = []
  · have alone : l.render = ['.'] ∨ l.render = ['/'] := by
      unfold render
      cases l.absolute <;> simp [none_left, Text.glue]
    rw [if_pos alone, none_left]
  · have solid : Text.glue '/' l.segments ≠ [] := Text.glue_ne_nil wf.ne_nil none_left
    have no_slash : Text.glue '/' l.segments ≠ ['/'] := by
      intro same
      exact head?_glue wf.ne_nil wf.whole (by rw [same]; rfl)
    have moves : ¬ (l.render = ['.'] ∨ l.render = ['/']) := by
      unfold render
      cases l.absolute <;> simp [none_left, solid, no_slash, glue_ne_dot wf.steps none_left]
    have text : (if l.absolute then l.render.tail else l.render) = Text.glue '/' l.segments := by
      unfold render
      cases l.absolute <;> simp [none_left]
    rw [if_neg moves, text, Text.pieces_glue none_left wf.whole]

/-- A location with the steps of a path is spelled as that path. -/
theorem render_eq_of_steps {path : String} {l : Location} (alike : l.absolute = isAbsolute path)
    (way : l.segments = steps path) : String.ofList l.render = path := by
  rw [render, alike, way]
  by_cases dot : path = "."
  · subst dot
    rfl
  by_cases slash : path = "/"
  · subst slash
    rfl
  have some_piece (text : List Char) := Text.pieces_ne_nil '/' text
  simp only [steps, dot, slash, or_self, if_false, some_piece, Text.glue_pieces]
  split
  · rename_i absolute
    obtain ⟨rest, text⟩ := List.head?_eq_some_iff.1 ((isAbsolute_iff path).1 absolute)
    rw [text, List.tail_cons, ← text, String.ofList_toList]
  · exact String.ofList_toList

theorem isClean_render {l : Location} (wf : l.WellFormed) : IsClean (String.ofList l.render) := by
  refine ⟨?_, ?_, ?_⟩
  · rw [steps_render wf]
    exact fun s member => ⟨(wf.steps s member).1, (wf.steps s member).2.1⟩
  · rw [steps_render wf, segments, List.dropWhile_append_of_pos (by simp)]
    exact fun member => wf.climb_notMem ((List.dropWhile_sublist _).subset member)
  · rw [isAbsolute_render wf, steps_render wf]
    intro absolute climbs
    rw [wf.relative_of_climb climbs] at absolute
    cases absolute

/-- The location that the steps of a path spell, those that climb first. -/
def spelled (path : String) : Location :=
  ⟨isAbsolute path, ((steps path).takeWhile (· = ['.', '.'])).length,
    (steps path).dropWhile (· = ['.', '.'])⟩

theorem eq_climb_of_mem {path : String} {s : Segment}
    (member : s ∈ (steps path).takeWhile (· = ['.', '.'])) : s = ['.', '.'] := by
  simpa using List.mem_takeWhile_imp member

theorem segments_spelled (path : String) : (spelled path).segments = steps path := by
  rw [segments, spelled, ← List.eq_replicate_of_mem fun s => eq_climb_of_mem,
    List.takeWhile_append_dropWhile]

theorem IsClean.wellFormed {path : String} (clear : IsClean path) : (spelled path).WellFormed := by
  refine ⟨fun s member => ?_, fun absolute => ?_⟩
  · have step := (List.dropWhile_sublist _).subset member
    refine ⟨(clear.solid s step).1, (clear.solid s step).2, ?_, sep_notMem_of_mem_steps step⟩
    rintro rfl
    exact clear.climbs_first member
  · have none_up : (steps path).takeWhile (· = ['.', '.']) = [] := by
      refine List.eq_nil_iff_forall_not_mem.2 fun s member => clear.rooted absolute ?_
      rw [← eq_climb_of_mem member]
      exact (List.takeWhile_sublist _).subset member
    exact congrArg List.length none_up

theorem IsClean.clean_eq {path : String} (clear : IsClean path) : clean path = path := by
  rw [← render_eq_of_steps rfl (segments_spelled path)]
  exact clean_render clear.wellFormed

/-- **The texts that cleaning leaves alone.** -/
theorem clean_eq_self_iff {path : String} : clean path = path ↔ IsClean path :=
  ⟨fun fixed => fixed ▸ isClean_render (wellFormed_parse path.toList), IsClean.clean_eq⟩

/-! ## Paths behind a directory -/

/-- What a relative path behind a directory comes to. -/
theorem clean_behind {base path : String} (some_base : base ≠ "")
    (relative : isAbsolute path = false) :
    clean (base ++ "/" ++ path) =
      String.ofList ((parse path.toList).against (parse base.toList)).render := by
  have text : (base ++ "/" ++ path).toList = base.toList ++ '/' :: path.toList := by simp
  rw [clean, text, parse_append (toList_ne_nil some_base),
    against_relative ((isAbsolute_eq_false_iff path).1 relative)]

/-- Relative paths that come to the same behind every absolute directory have one clean form. -/
theorem clean_eq_of_behind {path other : String} (relative : isAbsolute path = false)
    (relative' : isAbsolute other = false)
    (same : ∀ base, isAbsolute base = true →
      clean (base ++ "/" ++ path) = clean (base ++ "/" ++ other)) : clean path = clean other := by
  have wf := wellFormed_parse path.toList
  have wf' := wellFormed_parse other.toList
  have one : parse path.toList = parse other.toList := by
    refine eq_of_against wf wf' ((parse_absolute _).trans relative) ((parse_absolute _).trans relative')
      fun names named => ?_
    have dir : (⟨true, 0, names⟩ : Location).WellFormed := ⟨named, fun _ => rfl⟩
    have absolute : isAbsolute (String.ofList (⟨true, 0, names⟩ : Location).render) = true :=
      isAbsolute_render dir
    have agree := same _ absolute
    have some_base := ne_empty_of_render dir rfl
    rw [clean_behind some_base relative, clean_behind some_base relative', String.toList_ofList,
      parse_render dir] at agree
    exact render_injective (wf.against dir) (wf'.against dir) (String.ofList_inj.1 agree)
  rw [clean, clean, one]

/-- **Cleaning gives the one text for each location.** -/
theorem clean_canonical :
    (∀ path, clean path ≠ "" ∧ isAbsolute (clean path) = isAbsolute path ∧
      clean (clean path) = clean path ∧ IsClean (clean path)) ∧
    (∀ path, clean path = path ↔ IsClean path) ∧
    (∀ base path, base ≠ "" → isAbsolute path = false →
      clean (base ++ "/" ++ path) = clean (base ++ "/" ++ clean path) ∧
      clean (base ++ "/" ++ path) = clean (clean base ++ "/" ++ path)) ∧
    ∀ path other, isAbsolute path = false → isAbsolute other = false →
      (clean path = clean other ↔ ∀ base, isAbsolute base = true →
        clean (base ++ "/" ++ path) = clean (base ++ "/" ++ other)) := by
  refine ⟨fun path => ?_, fun path => clean_eq_self_iff,
    fun base path some_base relative => ⟨?_, ?_⟩,
    fun path other relative relative' => ⟨fun one base absolute => ?_, ?_⟩⟩
  · have wf := wellFormed_parse path.toList
    exact ⟨clean_ne_empty path, isAbsolute_clean path, clean_render wf, isClean_render wf⟩
  · rw [clean_behind some_base relative, clean_behind some_base ((isAbsolute_clean path).trans relative),
      parse_clean]
  · rw [clean_behind some_base relative, clean_behind (clean_ne_empty base) relative, parse_clean]
  · have some_base : base ≠ "" := by
      rintro rfl
      cases absolute
    rw [clean_behind some_base relative, clean_behind some_base relative', ← parse_clean path, one,
      parse_clean]
  · exact clean_eq_of_behind relative relative'

/-- A step down and back up is lost on every directory. -/
theorem clean_canonical_back_up :
    "srv//a" ≠ "" ∧ isAbsolute "../x/.." = false ∧ isAbsolute ".." = false ∧
      clean "../x/.." = clean ".." ∧
      clean ("srv//a" ++ "/" ++ "../x/..") = clean ("srv//a" ++ "/" ++ "..") ∧
      ∀ base, isAbsolute base = true →
        clean (base ++ "/" ++ "../x/..") = clean (base ++ "/" ++ "..") := by
  obtain ⟨-, -, behind, everywhere⟩ := clean_canonical
  have relative : isAbsolute "../x/.." = false := rfl
  have cleaned : clean "../x/.." = ".." := rfl
  have one : clean "../x/.." = clean ".." := rfl
  refine ⟨by decide, relative, rfl, one, ?_, (everywhere "../x/.." ".." relative rfl).1 one⟩
  rw [(behind "srv//a" "../x/.." (by decide) relative).1, cleaned]

end RemotePath

end DevMode
