/-
# DevMode.Proofs.Edits -- file trees that are edited

Files and directories are created, written, removed and renamed as an operating system allows it
(`Edits`).  A tree may hold links too; they are taken along or replaced when others are renamed.

* `entry?_put`, `entry?_remove` and `entry?_move`: what paths lead to after an edit.
* `Edits.rooted`: whatever is there still stands in a directory.
* `Edits.around`: what an edit names is no link after it, and no link is on the way to it.
-/
import DevMode.FileEvent
import DevMode.Proofs.ContextFiles

namespace DevMode

set_option autoImplicit false

namespace FileTree

/-! ## Edits -/

/-- Where a path leads on when what stands at `source` is taken to `target`. -/
def moved (source target names : List Segment) : List Segment :=
  if source <+: names then target ++ names.drop source.length else names

/-- Takes what stands at `source`, and all below it, to `target`. -/
def move (t : FileTree) (source target : List Segment) : FileTree :=
  { t with entries := (t.remove target).entries.map fun x => (moved source target x.1, x.2) }

/-- What can be renamed onto `target`: anything if nothing is there, a directory if an empty one
is there, and else what is no directory. -/
def GivesWay (t : FileTree) (target : List Segment) (e : FileEntry) : Prop :=
  match t.entry? target with
  | none => True
  | some .dir => e = .dir ∧ ∀ name, t.entry? (target ++ [name]) = none
  | some _ => e ≠ .dir

/-- Everything stands in a directory. -/
def Rooted (t : FileTree) : Prop :=
  ∀ names name e, t.entry? (names ++ [name]) = some e → t.entry? names = some .dir

end FileTree

/-- Names that an operating system takes for a path: none is too long, nor are all together. -/
structure Fits (names : List Segment) : Prop where
  some_name : names ≠ []
  named : ∀ s ∈ names, Segment.IsName s
  each : ∀ s ∈ names, FileTree.byteLength s ≤ FileTree.maxName
  whole : FileTree.byteLength (LocalPath.ofNames names).chars < FileTree.maxPath

/-- What is done to files and directories. -/
inductive FileEdit where
  | createFile (names : List Segment) (file : File)
  | createDir (names : List Segment)
  | write (names : List Segment) (file : File)
  | remove (names : List Segment)
  | rename (source target : List Segment)

namespace FileEdit

/-- The paths that the event of an edit names. -/
def named : FileEdit → List (List Segment)
  | createFile names _ => [names]
  | createDir names => [names]
  | write names _ => [names]
  | remove names => [names]
  | rename source target => [source, target]

def kind : FileEdit → EventKind
  | createFile _ _ => .create
  | createDir _ => .create
  | write _ _ => .modify
  | remove _ => .remove
  | rename _ _ => .modify

def event (edit : FileEdit) : FileEvent := ⟨edit.kind, edit.named.map LocalPath.ofNames⟩

end FileEdit

/-- What an operating system makes of a file tree.  What is created needs a directory to stand in
and a free place; files and directories are removed with all below them; and a directory cannot
be taken beneath itself. -/
inductive Edits (t : FileTree) : FileEdit → FileTree → Prop where
  | createFile {names : List Segment} {file : File} (fits : Fits names)
      (stands : t.entry? names.dropLast = some .dir) (free : t.entry? names = none) :
      Edits t (.createFile names file) (t.put names (.file file))
  | createDir {names : List Segment} (fits : Fits names)
      (stands : t.entry? names.dropLast = some .dir) (free : t.entry? names = none) :
      Edits t (.createDir names) (t.put names .dir)
  | write {names : List Segment} {file old : File} (fits : Fits names)
      (leads : t.entry? names = some (.file old)) :
      Edits t (.write names file) (t.put names (.file file))
  | remove {names : List Segment} {e : FileEntry} (fits : Fits names)
      (leads : t.entry? names = some e) (plain : ∀ l, e ≠ .link l) :
      Edits t (.remove names) (t.remove names)
  | rename {source target : List Segment} {e : FileEntry} (fits : Fits source)
      (leads : t.entry? source = some e) (plain : ∀ l, e ≠ .link l) (fits' : Fits target)
      (stands : t.entry? target.dropLast = some .dir) (outside : ¬ source <+: target)
      (gives : t.GivesWay target e) : Edits t (.rename source target) (t.move source target)

namespace FileTree

/-! ## What paths lead to after an edit -/

section Lookup

variable {α β : Type} [BEq α] [LawfulBEq α]

theorem lookup_filter_of_pos {p : α → Bool} {key : α} (kept : p key = true) (xs : List (α × β)) :
    (xs.filter fun x => p x.1).lookup key = xs.lookup key := by
  induction xs with
  | nil => rfl
  | cons x xs ih =>
      obtain ⟨a, b⟩ := x
      rw [List.filter_cons]
      split
      · rw [List.lookup_cons, List.lookup_cons, ih]
      · rename_i dropped
        have other : (key == a) = false := beq_eq_false_iff_ne.2 fun same => dropped (same ▸ kept)
        rw [List.lookup_cons, other, ih]

theorem lookup_filter_of_neg {p : α → Bool} {key : α} (dropped : ¬ p key = true)
    (xs : List (α × β)) : (xs.filter fun x => p x.1).lookup key = none := by
  rw [List.lookup_eq_none_iff]
  intro x member
  have kept := (List.mem_filter.1 member).2
  simp only [bne_iff_ne, ne_eq]
  rintro rfl
  exact dropped kept

/-- Keys that are renamed are looked up by what they were. -/
theorem lookup_map_key {f : α → α} {key old : α} (xs : List (α × β))
    (only : ∀ x ∈ xs, f x.1 = key ↔ x.1 = old) :
    (xs.map fun x => (f x.1, x.2)).lookup key = xs.lookup old := by
  induction xs with
  | nil => rfl
  | cons x xs ih =>
      obtain ⟨a, b⟩ := x
      have rest := ih fun x member => only x (List.mem_cons_of_mem _ member)
      have here : f a = key ↔ a = old := only (a, b) List.mem_cons_self
      have hit : (key == f a) = (old == a) := by
        rw [Bool.eq_iff_iff, beq_iff_eq, beq_iff_eq, eq_comm, here, eq_comm]
      rw [List.map_cons, List.lookup_cons, List.lookup_cons, rest, hit]

end Lookup

variable {t : FileTree} {names source target : List Segment}

theorem entry?_put (some_name : names ≠ []) (e : FileEntry) (path : List Segment) :
    FileTree.entry? (t.put names e) path = if path = names then some e else t.entry? path := by
  by_cases same : path = names
  · subst same
    simp [put, entry?, some_name]
  · rw [if_neg same]
    by_cases root : path = []
    · simp [ entry?, root]
    · have kept : decide (path ≠ names) = true := decide_eq_true same
      have behind := lookup_filter_of_pos (p := fun key => decide (key ≠ names)) kept t.entries
      simp only [put, entry?, if_neg root, List.lookup_cons]
      rw [show (path == names) = false by simpa using same]
      exact behind

theorem entry?_remove (some_name : names ≠ []) (path : List Segment) :
    FileTree.entry? (t.remove names) path = if names <+: path then none else t.entry? path := by
  by_cases root : path = []
  · have above : ¬ names <+: [] := fun part => some_name (List.prefix_nil.1 part)
    simp [ entry?, root, above]
  · let apart (key : List Segment) : Bool := !names.isPrefixOf key
    have apart_iff : apart path = true ↔ ¬ names <+: path := by
      simp [apart, ← List.isPrefixOf_iff_prefix]
    simp only [remove, entry?, if_neg root]
    split
    · rename_i below
      exact lookup_filter_of_neg (p := apart) (fun kept => apart_iff.1 kept below) t.entries
    · rename_i elsewhere
      exact lookup_filter_of_pos (p := apart) (apart_iff.2 elsewhere) t.entries

theorem mem_entries_remove {x : List Segment × FileEntry} (member : x ∈ (t.remove names).entries) :
    ¬ names <+: x.1 := by
  have kept := (List.mem_filter.1 member).2
  simpa [← List.isPrefixOf_iff_prefix] using kept

theorem moved_append (source target below : List Segment) :
    moved source target (source ++ below) = target ++ below := by
  rw [moved, if_pos (List.prefix_append source below), List.drop_left]

theorem moved_of_not (elsewhere : ¬ source <+: names) : moved source target names = names :=
  if_neg elsewhere

/-- What is renamed is found where it was taken, and no more where it was. -/
theorem entry?_move (some_source : source ≠ []) (some_target : target ≠ [])
    (outside : ¬ source <+: target) (apart : ¬ target <+: source) (path : List Segment) :
    FileTree.entry? (t.move source target) path =
      if target <+: path then t.entry? (source ++ path.drop target.length)
      else if source <+: path then none else t.entry? path := by
  have never {below : List Segment} : ¬ target <+: source ++ below := by
    intro part
    rcases List.prefix_or_prefix_of_prefix part (List.prefix_append source below) with
      above | within
    · exact apart above
    · exact outside within
  by_cases root : path = []
  · have below {names : List Segment} (some_name : names ≠ []) : ¬ names <+: [] :=
      fun part => some_name (List.prefix_nil.1 part)
    simp [ entry?, root, below some_source, below some_target]
  have at_old (old : List Segment) (some_old : old ≠ [])
      (only : ∀ x ∈ (t.remove target).entries, moved source target x.1 = path ↔ x.1 = old) :
      FileTree.entry? (t.move source target) path =
        if target <+: old then none else t.entry? old := by
    rw [← entry?_remove some_target, entry?, entry?, if_neg root, if_neg some_old]
    exact lookup_map_key _ only
  by_cases below : target <+: path
  · obtain ⟨rest, rfl⟩ := below
    have only : ∀ x ∈ (t.remove target).entries,
        moved source target x.1 = target ++ rest ↔ x.1 = source ++ rest := by
      intro x member
      by_cases inside : source <+: x.1
      · obtain ⟨more, same⟩ := inside
        rw [← same, moved_append, List.append_right_inj, List.append_right_inj]
      · rw [moved_of_not inside]
        constructor
        · intro same
          exact absurd (same ▸ List.prefix_append target rest) (mem_entries_remove member)
        · intro same
          exact absurd (same ▸ List.prefix_append source rest) inside
    rw [at_old (source ++ rest) (by simp [some_source]) only, if_neg never,
      if_pos (List.prefix_append target rest), List.drop_left]
  · rw [if_neg below]
    have onto {x : List Segment × FileEntry} (inside : source <+: x.1) :
        moved source target x.1 ≠ path := by
      obtain ⟨more, same⟩ := inside
      rw [← same, moved_append]
      exact fun hit => below (hit ▸ List.prefix_append target more)
    split
    · rename_i left
      rw [ entry?, if_neg root, move, List.lookup_eq_none_iff]
      intro y member
      obtain ⟨x, -, rfl⟩ := List.mem_map.1 member
      simp only [bne_iff_ne, ne_eq]
      intro same
      by_cases inside : source <+: x.1
      · exact onto inside same.symm
      · rw [moved_of_not inside] at same
        exact inside (same ▸ left)
    · rename_i elsewhere
      have only : ∀ x ∈ (t.remove target).entries, moved source target x.1 = path ↔ x.1 = path := by
        intro x _
        by_cases inside : source <+: x.1
        · constructor
          · exact fun same => absurd same (onto inside)
          · rintro rfl
            exact absurd inside elsewhere
        · rw [moved_of_not inside]
      rw [at_old path root only, if_neg below]

/-! ## Directories all the way -/

theorem Proper.everything_rooted (proper : t.Proper) : t.Rooted := by
  intro names name e leads
  have stands := proper.rooted _ (mem_entries (by simp) leads)
  rwa [List.dropLast_concat] at stands

namespace Rooted

variable (rooted : t.Rooted)

include rooted

/-- What has something beneath it is a directory. -/
theorem above {below : List Segment} {e : FileEntry} (some_below : below ≠ [])
    (leads : t.entry? (names ++ below) = some e) : t.entry? names = some .dir := by
  induction below using List.reverseRecOn generalizing e with
  | nil => exact absurd rfl some_below
  | append_singleton front last ih =>
      rw [← List.append_assoc] at leads
      have stands := rooted _ _ _ leads
      by_cases last_one : front = []
      · rwa [last_one, List.append_nil] at stands
      · exact ih last_one stands

theorem parent {e : FileEntry} (some_name : names ≠ []) (leads : t.entry? names = some e) :
    t.entry? names.dropLast = some .dir := by
  rw [← List.dropLast_append_getLast some_name] at leads
  exact rooted _ _ _ leads

theorem nothing_below {below : List Segment} (some_below : below ≠ [])
    (no_dir : t.entry? names ≠ some .dir) : t.entry? (names ++ below) = none := by
  cases leads : t.entry? (names ++ below) with
  | none => rfl
  | some e => exact absurd (rooted.above some_below leads) no_dir

theorem put (some_name : names ≠ []) (stands : t.entry? names.dropLast = some .dir)
    (no_dir : t.entry? names ≠ some .dir) (e : FileEntry) : (t.put names e).Rooted := by
  intro path name e' leads
  rw [entry?_put some_name] at leads ⊢
  by_cases here : path ++ [name] = names
  · subst here
    rw [List.dropLast_concat] at stands
    rwa [if_neg (by simp)]
  · rw [if_neg here] at leads
    have above := rooted _ _ _ leads
    have elsewhere : path ≠ names := by
      rintro rfl
      exact no_dir above
    rwa [if_neg elsewhere]

theorem remove (some_name : names ≠ []) : (t.remove names).Rooted := by
  intro path name e leads
  rw [entry?_remove some_name] at leads ⊢
  split at leads
  · cases leads
  · rename_i elsewhere
    have outside : ¬ names <+: path :=
      fun part => elsewhere (part.trans (List.prefix_append path [name]))
    rw [if_neg outside]
    exact rooted _ _ _ leads

theorem move (some_source : source ≠ []) (some_target : target ≠ [])
    (stands : t.entry? target.dropLast = some .dir) (outside : ¬ source <+: target)
    (apart : ¬ target <+: source) : (t.move source target).Rooted := by
  intro path name e leads
  rw [entry?_move some_source some_target outside apart] at leads ⊢
  by_cases below : target <+: path
  · -- Both the entry and its directory were taken along.
    obtain ⟨rest, rfl⟩ := below
    rw [List.append_assoc, if_pos (List.prefix_append target _), List.drop_left,
      ← List.append_assoc] at leads
    rw [if_pos (List.prefix_append target rest), List.drop_left]
    exact rooted _ _ _ leads
  · rw [if_neg below]
    by_cases here : target <+: path ++ [name]
    · have same : path ++ [name] = target := by
        rcases List.prefix_concat_iff.1 here with same | inside
        · exact same.symm
        · exact absurd inside below
      rw [← same, List.dropLast_concat] at stands
      have stays : ¬ source <+: path :=
        fun part => outside (same ▸ part.trans (List.prefix_append path [name]))
      rwa [if_neg stays]
    · rw [if_neg here] at leads
      split at leads
      · cases leads
      · rename_i stays
        have stays_above : ¬ source <+: path :=
          fun part => stays (part.trans (List.prefix_append path [name]))
        rw [if_neg stays_above]
        exact rooted _ _ _ leads

/-- What is renamed does not lie beneath where it is taken. -/
theorem apart {e : FileEntry} (leads : t.entry? source = some e) (outside : ¬ source <+: target)
    (gives : t.GivesWay target e) : ¬ target <+: source := by
  rintro ⟨rest, rfl⟩
  cases rest with
  | nil => exact outside (by simp)
  | cons name rest =>
      have dir : t.entry? target = some .dir := rooted.above (List.cons_ne_nil name rest) leads
      have bare : t.entry? (target ++ [name]) = none := by
        rw [GivesWay, dir] at gives
        exact gives.2 name
      have whole : target ++ name :: rest = target ++ [name] ++ rest := by simp
      by_cases last : rest = []
      · rw [whole, last, List.append_nil, bare] at leads
        cases leads
      · rw [whole] at leads
        have above := rooted.above last leads
        rw [bare] at above
        cases above

end Rooted

end FileTree

namespace Edits

open FileTree

variable {t t' : FileTree} {edit : FileEdit}

/-- **After an edit, everything stands in a directory as before.** -/
theorem rooted (edits : Edits t edit t') (before : t.Rooted) : t'.Rooted := by
  cases edits with
  | createFile fits stands free =>
      exact before.put fits.some_name stands (by simp [free]) _
  | createDir fits stands free =>
      exact before.put fits.some_name stands (by simp [free]) _
  | write fits leads =>
      have stands := before.parent fits.some_name leads
      exact before.put fits.some_name stands (by simp [leads]) _
  | remove fits leads plain => exact before.remove fits.some_name
  | rename fits leads plain fits' stands outside gives =>
      exact before.move fits.some_name fits'.some_name stands outside
        (before.apart leads outside gives)

theorem fits (edits : Edits t edit t') {names : List Segment} (named : names ∈ edit.named) :
    Fits names := by
  cases edits with
  | createFile fits => exact List.mem_singleton.1 named ▸ fits
  | createDir fits => exact List.mem_singleton.1 named ▸ fits
  | write fits => exact List.mem_singleton.1 named ▸ fits
  | remove fits => exact List.mem_singleton.1 named ▸ fits
  | rename fits leads plain fits' =>
      rcases List.mem_pair.1 named with rfl | rfl
      · exact fits
      · exact fits'

theorem not_prefix_dropLast {names : List Segment} (some_name : names ≠ []) :
    ¬ names <+: names.dropLast := by
  intro part
  have lengths := part.length_le
  have some_length := List.length_pos_iff.2 some_name
  rw [List.length_dropLast] at lengths
  omega

/-- After an edit, the paths that it names lie in directories and do not lead to links. -/
theorem around (edits : Edits t edit t') (before : t.Rooted) {names : List Segment}
    (named : names ∈ edit.named) :
    t'.entry? names.dropLast = some .dir ∧ ∀ l, t'.entry? names ≠ some (.link l) := by
  have put {names : List Segment} {e : FileEntry} (some_name : names ≠ [])
      (stands : t.entry? names.dropLast = some .dir) (plain : ∀ l, e ≠ .link l) :
      FileTree.entry? (t.put names e) names.dropLast = some .dir ∧
        ∀ l, FileTree.entry? (t.put names e) names ≠ some (.link l) := by
    have other : names.dropLast ≠ names :=
      fun same => not_prefix_dropLast some_name (by simp [same])
    rw [entry?_put some_name, entry?_put some_name, if_neg other, if_pos rfl]
    exact ⟨stands, fun l same => plain l (Option.some.inj same)⟩
  cases edits with
  | createFile fits stands free =>
      obtain rfl := List.mem_singleton.1 named
      exact put fits.some_name stands (by simp)
  | createDir fits stands free =>
      obtain rfl := List.mem_singleton.1 named
      exact put fits.some_name stands (by simp)
  | write fits leads =>
      obtain rfl := List.mem_singleton.1 named
      exact put fits.some_name (before.parent fits.some_name leads) (by simp)
  | remove fits leads plain =>
      obtain rfl := List.mem_singleton.1 named
      rw [entry?_remove fits.some_name, entry?_remove fits.some_name,
        if_neg (not_prefix_dropLast fits.some_name), if_pos List.prefix_rfl]
      exact ⟨before.parent fits.some_name leads, by simp⟩
  | @rename source target e fits leads plain fits' stands outside gives =>
      have apart := before.apart leads outside gives
      have moves := entry?_move (t := t) fits.some_name fits'.some_name outside apart
      rcases List.mem_pair.1 named with rfl | rfl
      · have above : ¬ target <+: names.dropLast := fun part =>
          apart (part.trans (List.dropLast_prefix names))
        rw [moves, moves, if_neg above, if_neg (not_prefix_dropLast fits.some_name), if_neg apart,
          if_pos List.prefix_rfl]
        exact ⟨before.parent fits.some_name leads, by simp⟩
      · have above : ¬ source <+: names.dropLast := fun part =>
          outside (part.trans (List.dropLast_prefix names))
        rw [moves, moves, if_neg (not_prefix_dropLast fits'.some_name), if_neg above,
          if_pos List.prefix_rfl, List.drop_length, List.append_nil, leads]
        exact ⟨stands, fun l same => plain l (Option.some.inj same)⟩

end Edits

end DevMode
