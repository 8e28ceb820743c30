/-
# DevMode.Proofs.Grouping -- paths joined in any grouping

Being taken against directories one after the other is being taken against the directory that they
lead to (`Location.against_against`).  Joining does this to the locations of its two paths
(`join_eq_against`), and gives the empty text only for two empty ones (`join_eq_empty_iff`).  So it is
associative (`join_assoc`), and however a row of paths is grouped, it comes to what joining them from
the left comes to (`Grouping.text_eq_foldl`).

That is what a recipe does with its lines: each relative change of directory leads where joining one
more path does (`Recipe.State.parse_foldl_enter`), and the target of a copy is joined last.  So
`Recipe.follow_grouped` may take the directory, the changes and the target in any grouping.
-/
import DevMode.Proofs.Instructions

namespace DevMode

set_option autoImplicit false

/-! ## One directory after the other -/

namespace Location

/-- **One directory after the other is taken against as what they lead to.** -/
theorem against_against {l m : Location} (wl : l.WellFormed) (wm : m.WellFormed) (dir : Location) :
    (l.against m).against dir = l.against (m.against dir) := by
  cases kind : l.absolute with
  | true => rw [against_of_absolute kind, against_of_absolute kind, against_of_absolute kind]
  | false =>
      rw [against_of_relative kind, against_of_relative kind]
      exact walk_against wm dir wl.whole

end Location

/-! ## Joining two paths, and more -/

namespace RemotePath

open Location

theorem join_eq_empty_iff (base path : String) : join base path = "" ↔ base = "" ∧ path = "" := by
  unfold join
  cases some_base : base.isEmpty <;> cases some_path : path.isEmpty <;>
    simp_all [clean_ne_empty]

/-- Of two paths that are not both empty, joining takes the second against the first. -/
theorem join_eq_against {base path : String} (some_given : ¬ (base = "" ∧ path = ""))
    (relative : isAbsolute path = false) :
    join base path = String.ofList ((parse path.toList).against (parse base.toList)).render := by
  by_cases none_before : base = ""
  · subst none_before
    have alone : join "" path = clean path := by simp_all [join]
    rw [alone]
    exact congrArg (String.ofList ·.render) (against_origin path.toList).symm
  · rw [join_eq none_before, against_relative ((isAbsolute_eq_false_iff path).1 relative)]

section

variable {path : String} (relative : isAbsolute path = false) (base : String)

include relative

theorem parse_join_against :
    parse (join base path).toList = (parse path.toList).against (parse base.toList) := by
  by_cases nothing : base = "" ∧ path = ""
  · obtain ⟨rfl, rfl⟩ := nothing
    rfl
  · rw [join_eq_against nothing relative, String.toList_ofList,
      parse_render ((wellFormed_parse _).against (wellFormed_parse _))]

theorem isAbsolute_join : isAbsolute (join base path) = isAbsolute base := by
  have kind := congrArg Location.absolute (parse_join_against relative base)
  have second : (parse path.toList).absolute = false := (parse_absolute _).trans relative
  rwa [absolute_against, second, Bool.false_or, parse_absolute, parse_absolute] at kind

end

/-- **Joining relative paths is associative.** -/
theorem join_assoc (a : String) {b c : String} (relative_b : isAbsolute b = false)
    (relative_c : isAbsolute c = false) : join (join a b) c = join a (join b c) := by
  have relative_bc : isAbsolute (join b c) = false := (isAbsolute_join relative_c b).trans relative_b
  by_cases nothing : a = "" ∧ b = "" ∧ c = ""
  · obtain ⟨rfl, rfl, rfl⟩ := nothing
    rfl
  · rw [join_eq_against (by rwa [join_eq_empty_iff, and_assoc]) relative_c,
      join_eq_against (by rwa [join_eq_empty_iff]) relative_bc, parse_join_against relative_b,
      parse_join_against relative_c, against_against (wellFormed_parse _) (wellFormed_parse _)]

/-- What is joined behind a path may be joined first. -/
theorem join_foldl (base : String) {first : String} {rest : List String}
    (relative_first : isAbsolute first = false) (relative : ∀ p ∈ rest, isAbsolute p = false) :
    join base (rest.foldl join first) = rest.foldl join (join base first) := by
  induction rest generalizing first with
  | nil => rfl
  | cons next rest ih =>
      have relative_next := relative next List.mem_cons_self
      rw [List.foldl_cons, ih ((isAbsolute_join relative_next first).trans relative_first)
        fun p member => relative p (List.mem_cons_of_mem next member),
        List.foldl_cons, join_assoc base relative_first relative_next]

end RemotePath

/-! ## Groupings -/

/-- Paths in a row, grouped for joining them two by two. -/
inductive Grouping where
  | path (text : String)
  | joined (front back : Grouping)

namespace Grouping

open RemotePath

/-- The paths from left to right. -/
def paths : Grouping → List String
  | path text => [text]
  | joined front back => front.paths ++ back.paths

/-- What the paths come to. -/
def text : Grouping → String
  | path text => text
  | joined front back => RemotePath.join front.text back.text

theorem exists_paths (g : Grouping) : ∃ first rest, g.paths = first :: rest := by
  induction g with
  | path text => exact ⟨text, [], rfl⟩
  | joined front back ih _ =>
      obtain ⟨first, rest, row⟩ := ih
      exact ⟨first, rest ++ back.paths, by rw [paths, row, List.cons_append]⟩

/-- **However a row of paths is grouped, it comes to what it comes to from the left.** -/
theorem text_eq_foldl {g : Grouping} {first : String} {rest : List String}
    (row : g.paths = first :: rest) (relative : ∀ p ∈ rest, isAbsolute p = false) :
    g.text = rest.foldl join first := by
  induction g generalizing first rest with
  | path text =>
      obtain ⟨rfl, rfl⟩ := List.cons_eq_cons.1 row
      rfl
  | joined front back ih ih' =>
      obtain ⟨f, fs, front_row⟩ := front.exists_paths
      obtain ⟨b, bs, back_row⟩ := back.exists_paths
      rw [paths, front_row, back_row, List.cons_append] at row
      obtain ⟨rfl, rfl⟩ := List.cons_eq_cons.1 row
      obtain ⟨relative_front, relative_back⟩ := List.forall_mem_append.1 relative
      obtain ⟨relative_b, relative_bs⟩ := List.forall_mem_cons.1 relative_back
      rw [text, ih front_row relative_front, ih' back_row relative_bs, List.foldl_append,
        List.foldl_cons, join_foldl _ relative_b relative_bs]

end Grouping

/-! ## The lines of a recipe -/

namespace Recipe

open Location RemotePath

namespace State

/-- A target is spelled as short as can be. -/
theorem clean_targetOf (s : State) (target : String) :
    RemotePath.clean (s.targetOf target) = s.targetOf target := by
  unfold targetOf
  split
  · rename_i behind
    have given : s.workDir ≠ "" := by
      rintro unknown
      simp [unknown] at behind
    rw [join_eq given]
    exact clean_render ((wellFormed_parse _).walk_pieces _)
  · split
    · rename_i open_end
      rw [open_end]
      rfl
    · exact clean_render (wellFormed_parse _)

/-- Changes of directory leave all else as it is. -/
theorem foldl_enter (dirs : List Word) (s : State) :
    (dirs.foldl enter s).expand = s.expand ∧ (dirs.foldl enter s).pending = s.pending := by
  induction dirs generalizing s with
  | nil => exact ⟨rfl, rfl⟩
  | cons d dirs ih =>
      have later := ih (s.enter d)
      rw [expand_enter, enter_pending] at later
      rwa [List.foldl_cons]

/-- Relative changes of directory lead where joining them does, one by one. -/
theorem parse_foldl_enter {s : State} {base : String} {dirs : List Word}
    (same : parse s.workDir.toList = parse base.toList)
    (relative : ∀ d ∈ dirs, isAbsolute (s.expand d) = false) :
    parse (dirs.foldl enter s).workDir.toList =
      parse ((dirs.map s.expand).foldl RemotePath.join base).toList := by
  induction dirs generalizing s base with
  | nil => exact same
  | cons d dirs ih =>
      have next : parse (s.enter d).workDir.toList =
          parse (RemotePath.join base (s.expand d)).toList := by
        rw [parse_enter, parse_join_against (relative d List.mem_cons_self), same]
      have later := ih next fun e member => by
        rw [expand_enter]
        exact relative e (List.mem_cons_of_mem d member)
      rw [expand_enter] at later
      rwa [List.foldl_cons, List.map_cons, List.foldl_cons]

end State

variable {inspector : Inspector} {buildDir : LocalPath}

theorem follow_workdirs (s : State) (dirs : List Word) (rest : List Instruction) :
    follow inspector buildDir s (dirs.map .workdir ++ rest) =
      follow inspector buildDir (dirs.foldl State.enter s) rest := by
  induction dirs generalizing s with
  | nil => rfl
  | cons d dirs ih =>
      rw [List.map_cons, List.cons_append, follow_cons, List.foldl_cons, ← ih]
      simp only [State.effect]

/-- What is copied behind relative changes of directory goes where any grouping leads. -/
theorem follow_grouped {s : State} {dirs sources : List Word} {target : Word} {g : Grouping}
    (relative : ∀ w ∈ dirs ++ [target], isAbsolute (s.expand w) = false)
    (row : g.paths = s.workDir :: (dirs ++ [target]).map s.expand) :
    ∃ t, follow inspector buildDir s (dirs.map .workdir ++ [.copy sources target]) = .ok t ∧
      t.pending = s.pending ++ (sources.filter (!Instruction.isUrl ·)).map fun w =>
        ⟨buildDir.join ⟨w⟩, RemotePath.clean g.text,
          State.namesDirectory (s.expand target) || decide (1 < sources.length)⟩ := by
  obtain ⟨relative_dirs, relative_target⟩ := List.forall_mem_append.1 relative
  have from_left := Grouping.text_eq_foldl row (List.forall_mem_map.2 relative)
  rw [List.map_append, List.foldl_append] at from_left
  obtain ⟨expand_kept, pending_kept⟩ := State.foldl_enter dirs s
  have leads : parse ((dirs.foldl State.enter s).targetOf (s.expand target)).toList =
      parse g.text.toList := by
    rw [State.parse_targetOf, State.parse_foldl_enter rfl relative_dirs, from_left]
    exact (parse_join_against (relative_target target List.mem_cons_self) _).symm
  have remote : (dirs.foldl State.enter s).targetOf (s.expand target) = RemotePath.clean g.text := by
    rw [← State.clean_targetOf, RemotePath.clean, leads, RemotePath.clean]
  refine ⟨(dirs.foldl State.enter s).copy buildDir sources target, ?_, ?_⟩
  · rw [follow_workdirs, follow_cons]
    rfl
  · simp only [State.copy, expand_kept, remote, pending_kept]

/-- **Joining relative paths is associative, so the lines of a recipe may be joined in any
grouping.** -/
theorem joins_regroup :
    (∀ a b c : String, isAbsolute b = false → isAbsolute c = false →
      join (join a b) c = join a (join b c)) ∧
    (∀ g h : Grouping, g.paths = h.paths → (∀ p ∈ g.paths.tail, isAbsolute p = false) →
      g.text = h.text) ∧
    ∀ (inspector : Inspector) (buildDir : LocalPath) (s : State) (dirs sources : List Word)
      (target : Word) (g : Grouping),
      (∀ w ∈ dirs ++ [target], isAbsolute (s.expand w) = false) →
      g.paths = s.workDir :: (dirs ++ [target]).map s.expand →
      ∃ t, follow inspector buildDir s (dirs.map .workdir ++ [.copy sources target]) = .ok t ∧
        t.pending = s.pending ++ (sources.filter (!Instruction.isUrl ·)).map fun w =>
          ⟨buildDir.join ⟨w⟩, RemotePath.clean g.text,
            State.namesDirectory (s.expand target) || decide (1 < sources.length)⟩ := by
  refine ⟨fun a _ _ relative_b relative_c => join_assoc a relative_b relative_c,
    fun g h same relative => ?_, fun _ _ _ _ _ _ _ relative row => follow_grouped relative row⟩
  obtain ⟨first, rest, row⟩ := g.exists_paths
  rw [row] at relative
  rw [Grouping.text_eq_foldl row relative, Grouping.text_eq_foldl (same.symm.trans row) relative]

/-- Two relative changes of directory and a target, joined among themselves first. -/
theorem joins_regroup_climbing :
    let s : State := ⟨[("D", "lib")], "/usr/src/app", []⟩
    let dirs : List Word := ["../$D".toList, ".//x/".toList]
    let target : Word := "../../y".toList
    let g : Grouping := .joined (.path "/usr/src/app")
      (.joined (.path "../lib") (.joined (.path ".//x/") (.path "../../y")))
    let h : Grouping := .joined (.joined (.path "/usr/src/app") (.path "../lib"))
      (.joined (.path ".//x/") (.path "../../y"))
    isAbsolute "" = false ∧ isAbsolute "../y" = false ∧
      join (join "." "") "../y" = join "." (join "" "../y") ∧
      g.paths = h.paths ∧ (∀ p ∈ g.paths.tail, isAbsolute p = false) ∧ g.text = h.text ∧
      (∀ w ∈ dirs ++ [target], isAbsolute (s.expand w) = false) ∧
      g.paths = s.workDir :: (dirs ++ [target]).map s.expand ∧
      ∃ t, follow ⟨fun _ => .ok [], fun _ => .ok ""⟩ ⟨"/src".toList⟩ s
          (dirs.map .workdir ++ [.copy ["main.c".toList] target]) = .ok t ∧
        t.pending.map (·.remote) = ["/usr/src/y"] := by
  intro s dirs target g h
  have relative : ∀ w ∈ dirs ++ [target], isAbsolute (s.expand w) = false := by decide
  have row : g.paths = s.workDir :: (dirs ++ [target]).map s.expand := by decide
  have tail : ∀ p ∈ g.paths.tail, isAbsolute p = false := by decide
  obtain ⟨associative, grouped, recorded⟩ := joins_regroup
  obtain ⟨t, went, pending⟩ := recorded ⟨fun _ => .ok [], fun _ => .ok ""⟩ ⟨"/src".toList⟩ s dirs
    ["main.c".toList] target g relative row
  have same : g.paths = h.paths := by decide
  have place : RemotePath.clean g.text = "/usr/src/y" := by decide
  have regrouped : g.text = h.text := grouped g h same tail
  refine ⟨by decide, by decide, associative "." "" "../y" (by decide) (by decide), same, tail,
    regrouped, relative, row, t, went, ?_⟩
  rw [pending, place]
  rfl

end Recipe

end DevMode
