/-
# DevMode.Proofs.Containment -- where the sources of a service lie

Every source of a service comes from an operand of a copy in its recipe
(`exists_copy_of_mem_sources`), and it lies where the operand leads to from the build directory:
a relative operand climbs as many steps as its shortest form does and goes down from there, and
an absolute one leaves the build directory aside.  Nothing keeps it from leading out of there,
so `beneath_iff` says when it does not, and `leads_outside` is a recipe with sources outside.

* `Recipe.State.step_pending` says what one instruction records, `Recipe.follow_pending` what a
  whole recipe does.
* `Location.names_walk_segments` is the place behind some steps up and down.
-/
import DevMode.Proofs.CleanPath
import DevMode.Proofs.Delivery
import DevMode.Recipe.Resolve

namespace DevMode

set_option autoImplicit false

namespace Location

theorem names_walk_up (names : List Segment) (n : Nat) :
    (⟨true, 0, names⟩ : Location).walk (List.replicate n ['.', '.']) =
      ⟨true, 0, names.take (names.length - n)⟩ := by
  induction n generalizing names with
  | zero => simp
  | succ n ih =>
      have climbs : Component.ofSegment? ['.', '.'] = some .parent := rfl
      rw [List.replicate_succ, walk_cons, step_place, climbs, ih, List.dropLast_eq_take,
        List.take_take, List.length_take]
      congr 2
      omega

/-- **A way leads some steps up and then down**, from a place below the root. -/
theorem names_walk_segments (names : List Segment) {way : Location} (wf : way.WellFormed) :
    ((⟨true, 0, names⟩ : Location).walk way.segments).names =
      names.take (names.length - way.up) ++ way.names := by
  rw [segments, walk_append, names_walk_up, walk_names _ wf.names]

end Location

namespace Recipe

/-! ## What a recipe records -/

/-- A recipe has a copy of which `operand` is a source. -/
def Copies (instructions : List Instruction) (operand : Word) : Prop :=
  ∃ sources target, Instruction.copy sources target ∈ instructions ∧ operand ∈ sources ∧
    Instruction.isUrl operand = false

variable {inspector : Inspector} {dir : LocalPath}

/-- An image says nothing of what is copied. -/
theorem State.from_pending {s s' : State} {image : Word}
    (taken : s.from_ inspector image = .ok s') : s'.pending = s.pending := by
  unfold State.from_ at taken
  dsimp only at taken
  split at taken
  · obtain rfl := Except.ok.inj taken
    rfl
  · simp [throw, throwThe, MonadExceptOf.throw] at taken
  · obtain ⟨dir, -, same⟩ := exists_of_bind taken
    obtain rfl := Except.ok.inj same
    rfl

theorem State.foldl_setting_pending (settings : List (Word × Word)) (s : State) :
    (settings.foldl State.setting s).pending = s.pending := by
  induction settings generalizing s with
  | nil => rfl
  | cons kv settings ih => rw [List.foldl_cons, ih, State.setting]

/-- **An instruction records the sources it copies**, and nothing else. -/
theorem State.step_pending {s s' : State} {i : Instruction}
    (stepped : s.step inspector dir i = .ok s') {p : Pending} (member : p ∈ s'.pending) :
    p ∈ s.pending ∨ ∃ operand, Copies [i] operand ∧ p.path = dir.join ⟨operand⟩ := by
  cases i with
  | from_ image => exact .inl (State.from_pending stepped ▸ member)
  | env settings =>
      obtain rfl := Except.ok.inj stepped
      exact .inl (State.foldl_setting_pending settings s ▸ member)
  | workdir d =>
      obtain rfl := Except.ok.inj stepped
      exact .inl member
  | copy sources target =>
      obtain rfl := Except.ok.inj stepped
      rcases List.mem_append.1 member with old | new
      · exact .inl old
      · obtain ⟨operand, kept, rfl⟩ := List.mem_map.1 new
        obtain ⟨inside, no_url⟩ := List.mem_filter.1 kept
        exact .inr ⟨operand, ⟨sources, target, by simp, inside, by simpa using no_url⟩, rfl⟩

theorem Copies.mono {xs ys : List Instruction} (part : xs ⊆ ys) {operand : Word}
    (copies : Copies xs operand) : Copies ys operand := by
  obtain ⟨sources, target, inside, rest⟩ := copies
  exact ⟨sources, target, part inside, rest⟩

/-- **A recipe records only sources that it copies**, each below the build directory. -/
theorem follow_pending {instructions : List Instruction} {s s' : State}
    (followed : follow inspector dir s instructions = .ok s') {p : Pending}
    (member : p ∈ s'.pending) :
    p ∈ s.pending ∨ ∃ operand, Copies instructions operand ∧ p.path = dir.join ⟨operand⟩ := by
  induction instructions generalizing s with
  | nil =>
      obtain rfl := Except.ok.inj followed
      exact .inl member
  | cons i rest ih =>
      obtain ⟨next, stepped, later⟩ := exists_of_bind followed
      rcases ih later with early | ⟨operand, copies, path⟩
      · rcases State.step_pending stepped early with before | ⟨operand, copies, path⟩
        · exact .inl before
        · exact .inr ⟨operand, copies.mono (by simp), path⟩
      · exact .inr ⟨operand, copies.mono (by simp), path⟩

/-- What is settled is spelled cleanly, as a directory or as a file. -/
theorem Pending.settle_spells {p : Pending} {tree : FileTree} {workDir : String} {source : Source}
    (absolute : (p.path.against tree.current).isAbsolute = true)
    (settled : p.settle tree workDir = .ok source) :
    source.path.Spells (p.path.against tree.current).place := by
  unfold Pending.settle at settled
  rw [LocalPath.clean_eq absolute] at settled
  dsimp only at settled
  split at settled
  · simp at settled
  · obtain rfl := Except.ok.inj settled
    exact .inr rfl
  · split at settled
    · obtain rfl := Except.ok.inj settled
      exact .inl rfl
    · obtain rfl := Except.ok.inj settled
      exact .inl rfl

end Recipe

namespace Service

variable {s : Service} {tree : FileTree} {root : LocalPath} {inspector : Recipe.Inspector}
  {found : List Source} {source : Source}

/-- Where a service is built, by its absolute path. -/
def absoluteDir (s : Service) (tree : FileTree) (root : LocalPath) : LocalPath :=
  s.buildDir (root.against tree.current)

def recipe (s : Service) (tree : FileTree) (root : LocalPath) : LocalPath :=
  (s.absoluteDir tree root).join (.ofString s.build.manifest)

/-- The sources of a service that is built are those that its recipe comes to. -/
theorem exists_state_of_sources (built : s.isSourceBuilt = true)
    (resolved : s.sources tree root inspector = .ok found) :
    ∃ text state all, tree.readText (s.recipe tree root) = .ok text ∧
      Recipe.analyze inspector (s.absoluteDir tree root) text = .ok state ∧
      state.settle tree = .ok all ∧ found = Source.dedupe all := by
  rw [sources, built, Bool.not_true, if_neg Bool.false_ne_true] at resolved
  dsimp only at resolved
  split at resolved
  · cases resolved
  · cases resolved
  · rename_i text read
    obtain ⟨state, analyzed, later⟩ := exists_of_bind resolved
    obtain ⟨all, settled, same⟩ := exists_of_bind later
    exact ⟨text, state, all, read, analyzed, settled, (Except.ok.inj same).symm⟩

/-- **Every source of a service was recorded by its recipe**, and settled when all of it was read. -/
theorem exists_pending_of_mem_sources (resolved : s.sources tree root inspector = .ok found)
    (member : source ∈ found) :
    ∃ text state pending, tree.readText (s.recipe tree root) = .ok text ∧
      Recipe.analyze inspector (s.absoluteDir tree root) text = .ok state ∧
      pending ∈ state.pending ∧ pending.settle tree state.workDir = .ok source := by
  cases built : s.isSourceBuilt with
  | false =>
      rw [sources, built] at resolved
      obtain rfl : [] = found := Except.ok.inj resolved
      exact absurd member List.not_mem_nil
  | true =>
      obtain ⟨text, state, all, read, analyzed, settled, rfl⟩ := exists_state_of_sources built resolved
      obtain ⟨pending, recorded, came⟩ :=
        exists_of_mem_mapM settled (Source.mem_of_mem_dedupe member)
      exact ⟨text, state, pending, read, analyzed, recorded, came⟩

section Location

variable (cwd : tree.current.isAbsolute = true)

include cwd

theorem isAbsolute_absoluteDir : (s.absoluteDir tree root).isAbsolute = true :=
  LocalPath.isAbsolute_join (LocalPath.isAbsolute_against root cwd) _

/-- **Every source of a service comes from a copy in its recipe**, and is spelled cleanly. -/
theorem exists_copy_of_mem_sources (resolved : s.sources tree root inspector = .ok found)
    (member : source ∈ found) :
    ∃ text operand, tree.readText (s.recipe tree root) = .ok text ∧
      Recipe.Copies (Recipe.instructions text) operand ∧
      source.path.Spells ((s.absoluteDir tree root).join ⟨operand⟩).place := by
  obtain ⟨text, state, pending, read, analyzed, recorded, came⟩ :=
    exists_pending_of_mem_sources resolved member
  rcases Recipe.follow_pending analyzed recorded with before | ⟨operand, copies, path⟩
  · exact absurd before List.not_mem_nil
  · have absolute : pending.path.isAbsolute = true :=
      path ▸ LocalPath.isAbsolute_join (isAbsolute_absoluteDir cwd) ⟨operand⟩
    have spells := Recipe.Pending.settle_spells (LocalPath.isAbsolute_against _ cwd) came
    rw [LocalPath.against_of_isAbsolute absolute, path] at spells
    exact ⟨text, operand, read, copies, spells⟩

/-- **A source lies where its operand leads to from the build directory.** -/
theorem components_of_mem_sources (resolved : s.sources tree root inspector = .ok found)
    (member : source ∈ found) :
    ∃ text operand, tree.readText (s.recipe tree root) = .ok text ∧
      Recipe.Copies (Recipe.instructions text) operand ∧
      source.path.components = .root ::
        ((Location.parse operand).against
          (Location.parse (s.absoluteDir tree root).chars)).names.map .name := by
  obtain ⟨text, operand, read, copies, spells⟩ := exists_copy_of_mem_sources cwd resolved member
  have absolute : (s.absoluteDir tree root).isAbsolute = true := isAbsolute_absoluteDir cwd
  refine ⟨text, operand, read, copies, ?_⟩
  rw [← LocalPath.parse_join (LocalPath.isAbsolute.ne_nil absolute) ⟨operand⟩]
  exact spells.components (LocalPath.place_isName _)

/-- **Which sources lie at or beneath the build directory.**  An operand leads some steps up
from there, an absolute one all the way, and then down.  It ends at or beneath the directory
just if it goes down again the way that it went up, so it does if it is relative and does not
climb. -/
theorem beneath_iff (resolved : s.sources tree root inspector = .ok found)
    (member : source ∈ found) :
    ∃ text operand, tree.readText (s.recipe tree root) = .ok text ∧
      Recipe.Copies (Recipe.instructions text) operand ∧
      let dir := (s.absoluteDir tree root).clean
      let way := Location.parse operand
      let kept := if way.absolute then 0 else dir.place.length - way.up
      source.path.components = .root :: (dir.place.take kept ++ way.names).map .name ∧
      (dir.components <+: source.path.components ↔ dir.place.drop kept <+: way.names) ∧
      (way.absolute = false → way.up = 0 → dir.components <+: source.path.components) := by
  obtain ⟨text, operand, read, copies, lies⟩ := components_of_mem_sources cwd resolved member
  refine ⟨text, operand, read, copies, ?_⟩
  intro dir way kept
  have absolute : (s.absoluteDir tree root).isAbsolute = true := isAbsolute_absoluteDir cwd
  have named := LocalPath.place_isName (s.absoluteDir tree root)
  have clean : dir = .ofNames (s.absoluteDir tree root).place := LocalPath.clean_eq absolute
  have place : dir.place = (s.absoluteDir tree root).place := by
    rw [clean, LocalPath.place_ofNames named]
  have ends : source.path.components = .root :: (dir.place.take kept ++ way.names).map .name := by
    rw [lies, LocalPath.parse_eq_place absolute, ← place, Location.against]
    split
    · rename_i leaves
      simp only [kept, way, if_pos leaves, List.take_zero, List.nil_append]
    · rename_i stays
      simp only [kept, way, if_neg stays]
      rw [Location.names_walk_segments _ (Location.wellFormed_parse operand)]
  have down : dir.components = .root :: (dir.place.take kept ++ dir.place.drop kept).map .name := by
    rw [List.take_append_drop, place, clean]
    exact LocalPath.Spells.components named (.inl rfl)
  have beneath : dir.components <+: source.path.components ↔ dir.place.drop kept <+: way.names := by
    rw [ends, down, LocalPath.components_prefix_iff, List.prefix_append_right_inj]
  refine ⟨ends, beneath, fun relative level => beneath.2 ?_⟩
  have all_kept : kept = dir.place.length := by simp [kept, relative, level]
  rw [all_kept, List.drop_length]
  exact List.nil_prefix

end Location

/-! ### Sources inside and outside -/

/-- A directory with an app, and another one beside it. -/
def neighbours (recipe : String) : FileTree :=
  ⟨[(["app".toList, "Dockerfile".toList], .file ⟨0o644, 0, recipe.toUTF8⟩),
    (["app".toList, "src".toList], .dir), (["app".toList], .dir), (["keys".toList], .dir)],
    .ofString "/"⟩

/-- A service that is built in the root of the app. -/
def web : Service := ⟨"web", .default, none⟩

/-- No image is known. -/
def noImages : Recipe.Inspector :=
  ⟨fun image => .error (.inspect image "no such image"), fun _ => .ok ""⟩

/-- **Sources may lie outside the build directory**: one operand climbs, the other names a path
of the machine at hand. -/
theorem leads_outside :
    let tree := neighbours "COPY ../keys /a\nCOPY /keys /b\n"
    let root := LocalPath.ofString "/app"
    ∃ found, web.sources tree root noImages = .ok found ∧ found.length = 2 ∧
      ∀ source ∈ found,
        ¬ (web.absoluteDir tree root).clean.components <+: source.path.components := by
  refine ⟨[⟨.ofString "/keys/", "/a"⟩, ⟨.ofString "/keys/", "/b"⟩], ?_, rfl, ?_⟩
  · decide +kernel
  · decide +kernel

/-- An operand that goes up and down again leads inside. -/
theorem beneath_iff_of_detour :
    let tree := neighbours "COPY lib/../../app/src /a\n"
    let root := LocalPath.ofString "/app"
    let source : Source := ⟨.ofString "/app/src/", "/a"⟩
    let found := [source]
    tree.current.isAbsolute = true ∧ web.sources tree root noImages = .ok found ∧
      source ∈ found ∧
      ∃ text operand, tree.readText (web.recipe tree root) = .ok text ∧
        Recipe.Copies (Recipe.instructions text) operand ∧
        let dir := (web.absoluteDir tree root).clean
        let way := Location.parse operand
        let kept := if way.absolute then 0 else dir.place.length - way.up
        source.path.components = .root :: (dir.place.take kept ++ way.names).map .name ∧
        (dir.components <+: source.path.components ↔ dir.place.drop kept <+: way.names) ∧
        (way.absolute = false → way.up = 0 → dir.components <+: source.path.components) := by
  intro tree root source found
  have cwd : tree.current.isAbsolute = true := rfl
  have resolved : web.sources tree root noImages = .ok found := by decide +kernel
  have member : source ∈ found := List.mem_singleton_self source
  exact ⟨cwd, resolved, member, beneath_iff cwd resolved member⟩

end Service

end DevMode
