/-
# DevMode.Proofs.Resolved -- the form that resolved sources have

A local path that was resolved is absolute, has no dots, and ends with a slash just if it leads to a
directory (`Recipe.Pending.settle_formed`).  A remote path may stay relative; but once an image has
given a directory, all that a recipe does with remote paths keeps them `Rooted`: absolute, and spelled
as short as can be.

* `isRooted_clean` and `isRooted_join` say this of the operations on paths, whatever text they get.
* `Recipe.State.Rooted.step` has one case for each instruction, `Recipe.State.Rooted.follow` is the
  whole recipe.
* `Service.sources_formed` puts both together for the sources of a service.
-/
import DevMode.Proofs.Containment
import DevMode.Proofs.Destinations

namespace DevMode

set_option autoImplicit false

/-! ## Remote paths from the root -/

namespace RemotePath

open Location

/-- A path is absolute and spelled as short as can be. -/
structure IsRooted (path : String) : Prop where
  absolute : isAbsolute path = true
  fixed : clean path = path

theorem isRooted_render {l : Location} (wf : l.WellFormed) (absolute : l.absolute = true) :
    IsRooted (String.ofList l.render) :=
  ⟨(isAbsolute_render wf).trans absolute, clean_render wf⟩

theorem isRooted_clean {path : String} (absolute : isAbsolute path = true) :
    IsRooted (clean path) := by
  refine isRooted_render (wellFormed_parse path.toList) ?_
  rw [parse_absolute]
  exact absolute

theorem IsRooted.ne_empty {path : String} (rooted : IsRooted path) : path ≠ "" := by
  rintro rfl
  cases rooted.absolute

theorem IsRooted.ne_dot {path : String} (rooted : IsRooted path) : path ≠ "." := by
  rintro rfl
  cases rooted.absolute

/-- Whatever is joined to a rooted path, the empty text and steps up included, the whole is rooted. -/
theorem isRooted_join {base : String} (rooted : IsRooted base) (rel : String) :
    IsRooted (join base rel) := by
  rw [join_eq rooted.ne_empty]
  refine isRooted_render ((wellFormed_parse _).walk_pieces _) ?_
  rw [walk_absolute, parse_absolute]
  exact rooted.absolute

end RemotePath

namespace Recipe

open RemotePath

/-! ## States of a recipe -/

namespace State

/-- The directory of a state and all targets it has recorded are rooted. -/
structure Rooted (s : State) : Prop where
  workDir : IsRooted s.workDir
  pending : ∀ p ∈ s.pending, IsRooted p.remote

theorem isRooted_targetOf {s : State} (rooted : IsRooted s.workDir) (target : String) :
    IsRooted (s.targetOf target) := by
  have given : s.workDir.isEmpty = false := by simpa using rooted.ne_empty
  unfold targetOf
  rw [given]
  cases absolute : isAbsolute target with
  | false => exact isRooted_join rooted target
  | true =>
      have moves : target ≠ "." := by
        rintro rfl
        cases absolute
      simp only [Bool.not_false, Bool.not_true, Bool.and_false, Bool.false_eq_true, if_false, moves]
      exact isRooted_clean absolute

namespace Rooted

variable {s : State}

theorem settings (rooted : s.Rooted) (settings : List (Word × Word)) :
    (settings.foldl setting s).Rooted := by
  obtain ⟨dir, pending⟩ := foldl_setting settings s
  refine ⟨?_, ?_⟩
  · rw [dir]
    exact rooted.workDir
  · rw [pending]
    exact rooted.pending

theorem enter (rooted : s.Rooted) (dir : Word) : (s.enter dir).Rooted := by
  refine ⟨?_, by rw [enter_pending]; exact rooted.pending⟩
  unfold State.enter
  dsimp only
  split
  · rename_i alone
    have absolute := alone.resolve_right (by simpa using rooted.workDir.ne_empty)
    exact isRooted_clean absolute
  · exact isRooted_join rooted.workDir _

theorem copy (rooted : s.Rooted) (buildDir : LocalPath) (sources : List Word) (target : Word) :
    (s.copy buildDir sources target).Rooted := by
  refine ⟨rooted.workDir, fun p member => ?_⟩
  rcases List.mem_append.1 member with before | new
  · exact rooted.pending p before
  · obtain ⟨w, -, rfl⟩ := List.mem_map.1 new
    exact isRooted_targetOf rooted.workDir _

theorem based (pending : ∀ p ∈ s.pending, IsRooted p.remote) (entries : List String) {dir : String}
    (directory : IsRooted dir) : (s.based (some (entries, dir))).Rooted :=
  ⟨directory, pending⟩

end Rooted

end State

/-- All images that a recipe builds on and that can be inspected have a rooted directory. -/
def Inspector.Roots (inspector : Inspector) (is : List Instruction) : Prop :=
  ∀ image entries dir, Instruction.from_ image ∈ is →
    inspector.look image = .ok (some (entries, dir)) → IsRooted dir

theorem Inspector.Roots.mono {inspector : Inspector} {few many : List Instruction} (part : few ⊆ many)
    (roots : inspector.Roots many) : inspector.Roots few :=
  fun image entries dir member looked => roots image entries dir (part member) looked

namespace State.Rooted

variable {inspector : Inspector} {buildDir : LocalPath} {s s' : State}

/-- **One instruction keeps all rooted.** -/
theorem step (rooted : s.Rooted) {i : Instruction} (roots : inspector.Roots [i])
    (stepped : s.step inspector buildDir i = .ok s') : s'.Rooted := by
  cases i with
  | from_ image =>
      rw [State.step, from_eq] at stepped
      cases looked : inspector.look image with
      | error e => rw [looked] at stepped; cases stepped
      | ok found =>
          rw [looked] at stepped
          obtain rfl := Except.ok.inj stepped
          cases found with
          | none => exact rooted
          | some image_has =>
              obtain ⟨entries, dir⟩ := image_has
              have directory := roots image entries dir (List.mem_singleton_self _) looked
              exact based rooted.pending entries directory
  | env settings =>
      obtain rfl := Except.ok.inj stepped
      exact rooted.settings settings
  | workdir dir =>
      obtain rfl := Except.ok.inj stepped
      exact rooted.enter dir
  | copy sources target =>
      obtain rfl := Except.ok.inj stepped
      exact rooted.copy buildDir sources target

/-- **So does a whole recipe.** -/
theorem follow (rooted : s.Rooted) {is : List Instruction} (roots : inspector.Roots is)
    (followed : Recipe.follow inspector buildDir s is = .ok s') : s'.Rooted := by
  induction is generalizing s with
  | nil =>
      obtain rfl := Except.ok.inj followed
      exact rooted
  | cons i rest ih =>
      obtain ⟨next, stepped, later⟩ := exists_of_bind followed
      have here : next.Rooted := rooted.step (roots.mono (by simp)) stepped
      exact ih here (roots.mono (List.subset_cons_self i rest)) later

/-- An image with a rooted directory roots all that comes behind it. -/
theorem follow_from {image : Word} {rest : List Instruction} {entries : List String} {dir : String}
    (looked : inspector.look image = .ok (some (entries, dir)))
    (roots : inspector.Roots (.from_ image :: rest))
    (followed : Recipe.follow inspector buildDir .start (.from_ image :: rest) = .ok s') :
    s'.Rooted := by
  obtain ⟨next, stepped, later⟩ := exists_of_bind followed
  rw [State.step, from_eq, looked] at stepped
  obtain rfl := Except.ok.inj stepped
  have directory := roots image entries dir List.mem_cons_self looked
  have here : (State.start.based (some (entries, dir))).Rooted :=
    based (fun p member => absurd member List.not_mem_nil) entries directory
  exact here.follow (roots.mono (List.subset_cons_self _ rest)) later

end State.Rooted

/-- A recipe that runs through does so up to any of its instructions. -/
theorem exists_follow_of_append {inspector : Inspector} {buildDir : LocalPath} {s s' : State}
    {before after : List Instruction}
    (followed : follow inspector buildDir s (before ++ after) = .ok s') :
    ∃ t, follow inspector buildDir s before = .ok t := by
  induction before generalizing s with
  | nil => exact ⟨s, rfl⟩
  | cons i before ih =>
      obtain ⟨next, stepped, later⟩ := exists_of_bind followed
      obtain ⟨t, went⟩ := ih later
      refine ⟨t, ?_⟩
      rw [follow, stepped]
      exact went

/-! ## Settled sources -/

theorem stat_root (tree : FileTree) : tree.stat (LocalPath.ofNames []) = .ok .dir := rfl

/-- What a settled source has for its local path. -/
theorem Pending.settle_formed {p : Pending} {tree : FileTree} {workDir : String} {source : Source}
    (absolute : (p.path.against tree.current).isAbsolute = true)
    (settled : p.settle tree workDir = .ok source) :
    source.path.isAbsolute = true ∧ .current ∉ source.path.components ∧
      .parent ∉ source.path.components ∧
      (source.path.chars.getLast? = some '/' ↔ tree.stat source.path.clean = .ok .dir) := by
  have named := LocalPath.place_isName (p.path.against tree.current)
  have clean := LocalPath.clean_eq absolute
  have spells := settle_spells absolute settled
  generalize (p.path.against tree.current).place = names at named clean spells
  have same : source.path.clean = LocalPath.ofNames names := by
    rw [LocalPath.clean_eq spells.isAbsolute, spells.place_eq named]
  refine ⟨spells.isAbsolute, ?_, ?_, ?_⟩
  · rw [spells.components named]
    simp
  · rw [spells.components named]
    simp
  · rw [same]
    have cases_of := settle_ok settled
    rw [clean] at cases_of
    rcases cases_of with ⟨dir, path, -⟩ | ⟨no_dir, path, -⟩
    · rw [path]
      exact iff_of_true (LocalPath.getLast?_asDirectory _) dir
    · have below : names ≠ [] := by
        rintro rfl
        exact no_dir (stat_root tree)
      rw [path]
      exact iff_of_false (LocalPath.getLast?_ofNames_ne_slash named below) no_dir

/-- **A source is settled with a rooted remote path**, if all that was recorded is rooted. -/
theorem Pending.settle_rooted {p : Pending} {tree : FileTree} {workDir : String} {source : Source}
    (rooted : IsRooted p.remote) (settled : p.settle tree workDir = .ok source) :
    IsRooted source.remote := by
  unfold Pending.settle at settled
  rw [if_neg rooted.ne_dot] at settled
  dsimp only at settled
  split at settled
  · cases settled
  · obtain rfl := Except.ok.inj settled
    exact rooted
  · split at settled
    · obtain rfl := Except.ok.inj settled
      exact isRooted_join rooted _
    · obtain rfl := Except.ok.inj settled
      exact rooted

end Recipe

namespace Service

open Recipe RemotePath

/-- **The form of resolved sources.**  When the sources of a service are resolved, each local path is
absolute, without dots, and ends with a slash just if it leads to a directory.  If besides the recipe
begins with an image that can be inspected, and each image that can be has a directory that is absolute
and spelled as short as can be, then so are the directory and all recorded targets behind any
instruction, and all remote paths of the sources. -/
theorem sources_formed {s : Service} {tree : FileTree} {root : LocalPath} {inspector : Inspector}
    {found : List Source} (cwd : tree.current.isAbsolute = true)
    (resolved : s.sources tree root inspector = .ok found) :
    (∀ source ∈ found, source.path.isAbsolute = true ∧ .current ∉ source.path.components ∧
      .parent ∉ source.path.components ∧
      (source.path.chars.getLast? = some '/' ↔ tree.stat source.path.clean = .ok .dir)) ∧
    ∀ text image rest entries dir, tree.readText (s.recipe tree root) = .ok text →
      instructions text = .from_ image :: rest →
      inspector.look image = .ok (some (entries, dir)) → inspector.Roots (instructions text) →
      (∀ before after, before ≠ [] → instructions text = before ++ after →
        (s.isSourceBuilt = true →
          ∃ state, follow inspector (s.absoluteDir tree root) .start before = .ok state) ∧
        ∀ state, follow inspector (s.absoluteDir tree root) .start before = .ok state →
          IsRooted state.workDir ∧ ∀ p ∈ state.pending, IsRooted p.remote) ∧
      ∀ source ∈ found, IsRooted source.remote := by
  refine ⟨fun source member => ?_, fun text image rest entries dir read starts looked roots => ?_⟩
  · obtain ⟨text, state, pending, -, -, -, came⟩ := exists_pending_of_mem_sources resolved member
    exact Pending.settle_formed (LocalPath.isAbsolute_against _ cwd) came
  · refine ⟨fun before after some_before cut => ⟨fun built => ?_, fun state followed => ?_⟩, ?_⟩
    · obtain ⟨text', state, all, read', analyzed, -, -⟩ := exists_state_of_sources built resolved
      obtain rfl : text = text' := Except.ok.inj (read.symm.trans read')
      rw [analyze, cut] at analyzed
      exact exists_follow_of_append analyzed
    · obtain ⟨i, more, rfl⟩ := List.exists_cons_of_ne_nil some_before
      obtain ⟨rfl, -⟩ := List.cons.inj (starts.symm.trans cut)
      have part : .from_ image :: more ⊆ instructions text := cut ▸ List.subset_append_left _ after
      have rooted := State.Rooted.follow_from looked (roots.mono part) followed
      exact ⟨rooted.workDir, rooted.pending⟩
    · intro source member
      obtain ⟨text', state, pending, read', analyzed, recorded, came⟩ :=
        exists_pending_of_mem_sources resolved member
      obtain rfl : text = text' := Except.ok.inj (read.symm.trans read')
      rw [analyze, starts] at analyzed
      rw [starts] at roots
      have rooted := State.Rooted.follow_from looked roots analyzed
      exact Pending.settle_rooted (rooted.pending pending recorded) came

/-- A recipe that stands still with an empty value, copies to it, and climbs. -/
def stillRecipe : String := "FROM node\nENV D=\nWORKDIR $D\nCOPY src $D\nCOPY Dockerfile ../\n"

/-- Empty values and steps up leave all in form. -/
theorem sources_formed_of_still :
    let tree := neighbours stillRecipe
    let root := LocalPath.ofString "/app"
    let found : List Source :=
      [⟨.ofString "/app/src/", "/usr/src/app"⟩, ⟨.ofString "/app/Dockerfile", "/usr/src/Dockerfile"⟩]
    web.sources tree root plainImages = .ok found ∧
      (∀ source ∈ found, source.path.chars.getLast? = some '/' ↔
        tree.stat source.path.clean = .ok .dir) ∧
      (∀ before after, before ≠ [] → instructions stillRecipe = before ++ after →
        ∃ state, follow plainImages (web.absoluteDir tree root) .start before = .ok state ∧
          IsRooted state.workDir) ∧
      ∀ source ∈ found, IsRooted source.remote := by
  intro tree root found
  have resolved : web.sources tree root plainImages = .ok found := by decide +kernel
  have read : tree.readText (web.recipe tree root) = .ok stillRecipe := by decide +kernel
  have starts : ∃ rest, instructions stillRecipe = .from_ "node".toList :: rest :=
    ⟨(instructions stillRecipe).tail, by decide +kernel⟩
  have directory : IsRooted "/usr/src/app" := ⟨by decide, by decide +kernel⟩
  have trimmed : String.ofList (Text.trim "/usr/src/app".toList) = "/usr/src/app" := by decide +kernel
  have looked (image : Word) : plainImages.look image = .ok (some ([], "/usr/src/app")) := by
    show Except.ok (some ([], String.ofList (Text.trim "/usr/src/app".toList))) = _
    rw [trimmed]
  have roots : plainImages.Roots (instructions stillRecipe) := by
    intro image entries dir _ other
    rw [looked] at other
    obtain ⟨-, rfl⟩ := Prod.mk.inj (Option.some.inj (Except.ok.inj other))
    exact directory
  obtain ⟨rest, starts⟩ := starts
  obtain ⟨locals, remotes⟩ := sources_formed (s := web) rfl resolved
  obtain ⟨states, rooted⟩ := remotes _ _ rest _ _ read starts (looked _) roots
  refine ⟨resolved, fun source member => (locals source member).2.2.2, ?_, rooted⟩
  intro before after some_before cut
  obtain ⟨runs, holds⟩ := states before after some_before cut
  obtain ⟨state, followed⟩ := runs rfl
  exact ⟨state, followed, (holds state followed).1⟩

end Service

end DevMode
