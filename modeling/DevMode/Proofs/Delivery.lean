/-
# DevMode.Proofs.Delivery -- dropping covered sources loses no delivery

A source delivers every file at or beneath its local path to a remote place, which hangs
on the directory that the receiving process stands in.  `Source.deliveries` are all pairs
of a file and its place, and `deliveries_dedupe` says that `Source.dedupe` keeps them.

The proof goes through locations, where both offsets are lists of names:

* `delivery_eq` writes one delivery as a list of components and a walk;
* `exists_offset_of_covers`: who covers a source leads to it by one path of names on both
  sides, so its deliveries are among those of who covers it (`deliveries_of_covers`);
* `exists_kept`: a dropped source hangs on a kept one by a chain of covers.  Along the
  chain the local path gets shorter, or stays and the source stands further in front.
-/
import DevMode.Proofs.LocalPath
import DevMode.Proofs.World
import DevMode.Source
import DevMode.Sync.Engine
import Mathlib.Data.Set.Basic
import Mathlib.Logic.Relation

namespace DevMode

set_option autoImplicit false

/-! ## The directory in a process -/

/-- A remote is taken against the directory that the process stands in. -/
theorem Sync.resolveRemote_ok {σ : Type} (platform : Platform σ) (app pid remote : String)
    {w : World σ} {told : String}
    (answer : (platform.answer (.processExec app pid workDirCommand) w.state).1 = .ok told) :
    (resolveRemote platform app pid remote w).1 =
      .ok (RemotePath.against remote (String.ofList (Text.trim told.toList))) := by
  unfold resolveRemote RemotePath.against
  split
  · rfl
  · rw [Attempt.bind_ok rfl]
    simp [answer]

namespace Source

open Component

/-! ## Deliveries -/

/-- The file at `path` below a source, and the place it is brought to in a process that
stands in `dir`. -/
def delivery (dir : String) (s : Source) (path : LocalPath) : List Component × String :=
  let change : Change := ⟨s.path, path, .add⟩
  (change.localPath.components,
    RemotePath.join (RemotePath.against s.remote dir) change.remoteRelative)

/-- All that sources deliver to a process that stands in `dir`. -/
def deliveries (dir : String) (sources : List Source) : Set (List Component × String) :=
  { d | ∃ s ∈ sources, ∃ path : LocalPath, path.Named ∧ d = s.delivery dir path }

/-- **One delivery, by components and by a walk.** -/
theorem delivery_eq {dir : String} (some_dir : dir ≠ "") (s : Source) {path : LocalPath}
    (named : path.Named) :
    s.delivery dir path =
      (s.path.components ++ path.components,
        String.ofList ((((Location.parse s.remote.toList).against
          (Location.parse dir.toList)).walk path.names).render)) := by
  have wf := (Location.wellFormed_parse s.remote.toList).against (Location.wellFormed_parse dir.toList)
  have some_place := RemotePath.ne_empty_of_render wf (RemotePath.against_eq some_dir s.remote)
  have place := RemotePath.join_eq some_place path.posix
  rw [RemotePath.parse_against some_dir, LocalPath.posix, String.toList_ofList,
    ← LocalPath.names, Location.walk_pieces_glue _ named.whole] at place
  rw [delivery, LocalPath.components_localPath s.path named]
  exact Prod.ext rfl place

/-! ## Covers -/

/-- The offset between two locals, written as a remote path, is walked name by name. -/
theorem walk_pieces_offset (l : Location) {rel : LocalPath} (named : rel.Named) :
    l.walk (Text.pieces '/' (offset rel).toList) = l.walk rel.names := by
  have way := Location.walk_pieces_glue l named.whole
  unfold offset
  split
  · rename_i empty
    have no_text : Text.glue '/' rel.names = [] := by
      simpa [LocalPath.posix, LocalPath.names] using empty
    rw [← way, no_text]
    rfl
  · rw [LocalPath.posix, String.toList_ofList]
    exact way

/-- **Who covers a source leads to it by one path of names, on both sides.** -/
theorem exists_offset_of_covers {outer inner : Source} (settled : inner.path.Settled)
    (absolute : outer.path.isAbsolute = true) (cover : outer.covers inner = true) :
    ∃ rel : LocalPath, rel.Named ∧
      inner.path.components = outer.path.components ++ rel.components ∧
      Location.parse inner.remote.toList = (Location.parse outer.remote.toList).walk rel.names := by
  unfold covers at cover
  split at cover
  · simp at cover
  · rename_i rel found
    obtain ⟨-, below⟩ := LocalPath.components_of_relativeTo? absolute found
    have named := settled.named_below absolute below
    refine ⟨rel, named, below, ?_⟩
    rw [RemotePath.parse_of_relative? (eq_of_beq cover), walk_pieces_offset _ named]

/-- Two sources on the same file that name one location cover each other. -/
theorem covers_of_same {s t : Source} (absolute' : t.path.isAbsolute = true)
    (absolute : s.path.isAbsolute = true)
    (same_path : s.path.components = t.path.components)
    (same_remote : Location.parse s.remote.toList = Location.parse t.remote.toList) :
    s.covers t = true := by
  have below : s.path.components <+: t.path.components := same_path ▸ List.prefix_refl _
  obtain ⟨rel, found⟩ := LocalPath.relativeTo?_of_prefix absolute' absolute below
  obtain ⟨-, split⟩ := LocalPath.components_of_relativeTo? absolute found
  have none_below : rel.components = [] := by simpa [same_path] using split
  have still : offset rel = "." := by simp [offset, LocalPath.posix, none_below, Text.glue]
  simp only [covers, found, still, RemotePath.relative?_of_parse_eq same_remote, beq_self_eq_true]

/-- What covers a source without being covered by it lies strictly above it. -/
theorem length_lt_of_covers {outer inner : Source} (settled : inner.path.Settled)
    (outer_settled : outer.path.Settled) (cover : outer.covers inner = true)
    (one_sided : inner.covers outer = false) :
    outer.path.components.length < inner.path.components.length := by
  obtain ⟨rel, -, below, remote⟩ := exists_offset_of_covers settled outer_settled.absolute cover
  rw [below, List.length_append]
  cases steps : rel.components with
  | cons c cs => simp
  | nil =>
      rw [LocalPath.names, steps] at remote
      rw [steps, List.append_nil] at below
      rw [covers_of_same outer_settled.absolute settled.absolute below remote] at one_sided
      simp at one_sided

theorem length_le_of_covers {outer inner : Source} (settled : inner.path.Settled)
    (absolute : outer.path.isAbsolute = true) (cover : outer.covers inner = true) :
    outer.path.components.length ≤ inner.path.components.length := by
  obtain ⟨rel, -, below, -⟩ := exists_offset_of_covers settled absolute cover
  simp [below]

/-- **Who covers a source delivers all that it does.** -/
theorem deliveries_of_covers {dir : String} (some_dir : dir ≠ "") {outer inner : Source}
    (settled : inner.path.Settled) (absolute : outer.path.isAbsolute = true)
    (cover : outer.covers inner = true) : deliveries dir [inner] ⊆ deliveries dir [outer] := by
  obtain ⟨rel, rel_named, below, remote⟩ := exists_offset_of_covers settled absolute cover
  rintro d ⟨s, member, path, named, rfl⟩
  obtain rfl := List.mem_singleton.1 member
  -- The file lies below the outer source by the offset and then by its own path.
  refine ⟨outer, List.mem_singleton_self outer, rel.join path, rel_named.join named, ?_⟩
  rw [delivery_eq some_dir _ named, delivery_eq some_dir _ (rel_named.join named),
    LocalPath.components_join rel named, LocalPath.names_join rel named, below, remote,
    Location.walk_against (Location.wellFormed_parse _) _ rel_named.whole, Location.walk_append,
    List.append_assoc]

/-! ## What is kept -/

theorem keep_sublist (before rest : List Source) : (keep before rest).Sublist rest := by
  induction rest generalizing before with
  | nil => exact List.Sublist.refl []
  | cons s rest ih =>
      simp only [keep]
      split
      · exact (ih _).cons s
      · exact (ih _).cons_cons s

theorem mem_of_mem_dedupe {sources : List Source} {s : Source} (kept : s ∈ dedupe sources) :
    s ∈ sources := (keep_sublist [] sources).subset kept

/-- A source stays if none before it covers it, and each behind that does is covered in turn. -/
theorem mem_keep {s : Source} {post : List Source} :
    ∀ before pre : List Source, (∀ t ∈ before ++ pre, t.covers s = false) →
      (∀ t ∈ post, t.covers s = true → s.covers t = true) → s ∈ keep before (pre ++ s :: post)
  | before, [], early, late => by
      have not_early : before.any (·.covers s) = false := by simpa using early
      have not_late : (post.any fun t => t.covers s && !s.covers t) = false := by simpa using late
      simp [keep, not_early, not_late]
  | before, t :: pre, early, late => by
      have member := mem_keep (before ++ [t]) pre (by simpa using early) late
      rw [List.cons_append, keep]
      split
      · exact member
      · exact List.mem_cons_of_mem t member

/-- A chain of covers among some sources, from one down to another. -/
def Chain (sources : List Source) : Source → Source → Prop :=
  Relation.ReflTransGen fun outer inner =>
    outer ∈ sources ∧ inner ∈ sources ∧ outer.covers inner = true

/-- **Every source hangs on a kept one.** -/
theorem exists_kept {sources : List Source} (settled : ∀ s ∈ sources, s.path.Settled)
    (pre : List Source) (s : Source) (post : List Source) (here : sources = pre ++ s :: post) :
    ∃ t ∈ dedupe sources, Chain sources t s := by
  have inside : s ∈ sources := by simp [here]
  by_cases early : ∃ t ∈ pre, t.covers s = true
  · obtain ⟨t, member, cover⟩ := early
    have t_inside : t ∈ sources := by simp [here, member]
    obtain ⟨front, back, split⟩ := List.append_of_mem member
    have no_longer := length_le_of_covers (settled s inside) (settled t t_inside).absolute cover
    have further_front : front.length < pre.length := by simp [split]
    obtain ⟨k, kept, chain⟩ := exists_kept settled front t (back ++ s :: post) (by simp [here, split])
    exact ⟨k, kept, chain.tail ⟨t_inside, inside, cover⟩⟩
  by_cases late : ∃ t ∈ post, t.covers s = true ∧ s.covers t = false
  · obtain ⟨t, member, cover, one_sided⟩ := late
    have t_inside : t ∈ sources := by simp [here, member]
    obtain ⟨front, back, split⟩ := List.append_of_mem member
    have shorter := length_lt_of_covers (settled s inside) (settled t t_inside) cover one_sided
    obtain ⟨k, kept, chain⟩ :=
      exists_kept settled (pre ++ s :: front) t back (by simp [here, split])
    exact ⟨k, kept, chain.tail ⟨t_inside, inside, cover⟩⟩
  · refine ⟨s, ?_, Relation.ReflTransGen.refl⟩
    rw [dedupe, here]
    exact mem_keep [] pre (by simpa using early) (by simpa using late)
termination_by (s.path.components.length, pre.length)
decreasing_by
  · rcases Nat.lt_or_eq_of_le no_longer with shorter | level
    · exact Prod.Lex.left _ _ shorter
    · rw [level]
      exact Prod.Lex.right _ further_front
  · exact Prod.Lex.left _ _ shorter

/-- Deliveries are handed up along a chain. -/
theorem deliveries_of_chain {dir : String} (some_dir : dir ≠ "") {sources : List Source}
    (settled : ∀ s ∈ sources, s.path.Settled) {outer inner : Source}
    (chain : Chain sources outer inner) : deliveries dir [inner] ⊆ deliveries dir [outer] := by
  induction chain with
  | refl => exact Set.Subset.refl _
  | tail _ link ih =>
      obtain ⟨outer_inside, inner_inside, cover⟩ := link
      exact (deliveries_of_covers some_dir (settled _ inner_inside)
        (settled _ outer_inside).absolute cover).trans ih

/-- **Dropping covered sources loses no delivery**, in whatever directory the receiving process
stands. -/
theorem deliveries_dedupe {dir : String} (absolute : RemotePath.isAbsolute dir = true)
    {sources : List Source} (settled : ∀ s ∈ sources, s.path.Settled) :
    deliveries dir (dedupe sources) = deliveries dir sources := by
  have some_dir : dir ≠ "" := by
    rintro rfl
    simp [RemotePath.isAbsolute] at absolute
  apply Set.Subset.antisymm
  · rintro d ⟨s, kept, found⟩
    exact ⟨s, mem_of_mem_dedupe kept, found⟩
  · rintro d ⟨s, member, found⟩
    obtain ⟨pre, post, here⟩ := List.append_of_mem member
    obtain ⟨t, kept, chain⟩ := exists_kept settled pre s post here
    have inside : d ∈ deliveries dir [s] := ⟨s, List.mem_singleton_self s, found⟩
    obtain ⟨t', only, found'⟩ := deliveries_of_chain some_dir settled chain inside
    exact ⟨t, kept, List.mem_singleton.1 only ▸ found'⟩

/-- Two nested sources hang on the first by unclean and empty remotes; the one that goes
elsewhere stays. -/
theorem deliveries_dedupe_nested :
    let sources : List Source :=
      [⟨.ofString "/src/app/lib/", "./app//lib"⟩, ⟨.ofString "/src/app/", "app/"⟩,
        ⟨.ofString "/src/", ""⟩, ⟨.ofString "/src/app/", "../app"⟩]
    RemotePath.isAbsolute "/srv" = true ∧ (∀ s ∈ sources, s.path.Settled) ∧
      dedupe sources = [⟨.ofString "/src/", ""⟩, ⟨.ofString "/src/app/", "../app"⟩] ∧
      deliveries "/srv" (dedupe sources) = deliveries "/srv" sources := by
  intro sources
  have absolute : RemotePath.isAbsolute "/srv" = true := by decide
  have settled : ∀ s ∈ sources, s.path.Settled := by
    intro s member
    simp only [sources, List.mem_cons, List.not_mem_nil, or_false] at member
    rcases member with rfl | rfl | rfl | rfl <;> exact ⟨by decide, by decide, by decide⟩
  exact ⟨absolute, settled, by decide, deliveries_dedupe absolute settled⟩

end Source

end DevMode
