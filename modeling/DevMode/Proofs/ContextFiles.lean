/-
# DevMode.Proofs.ContextFiles -- which files a build starts from

The walk over a build context finds a file by all of its names: the rules must leave in the file
and every directory on the way to it (`mem_walkFrom`).  The rules by themselves judge a file by
the nearest part that one of them speaks of, so a rule that takes a file back beneath an excluded
directory counts for a file and not for the walk.

* `entries_agree_iff` says what is archived, and when that is what the rules leave in.
* `kept_file_left_out` is a context where it is not.
-/
import DevMode.Proofs.Ignored
import Mathlib.Data.List.Induction
import Mathlib.Data.List.Nodup
import Mathlib.Data.List.Perm.Subperm

namespace DevMode

set_option autoImplicit false

namespace FileTree

/-! ## File trees that can be -/

/-- A file tree as it can be: every entry has a path of names and stands in a directory, and no
path has two entries. -/
structure Proper (t : FileTree) : Prop where
  named : ∀ x ∈ t.entries, x.1 ≠ [] ∧ ∀ s ∈ x.1, Segment.IsName s
  distinct : (t.entries.map Prod.fst).Nodup
  rooted : ∀ x ∈ t.entries, t.entry? x.1.dropLast = some .dir

variable {t : FileTree}

theorem mem_entries {names : List Segment} {e : FileEntry} (some_name : names ≠ [])
    (leads : t.entry? names = some e) : (names, e) ∈ t.entries := by
  rw [ entry?, if_neg some_name] at leads
  obtain ⟨before, after, same, -⟩ := List.lookup_eq_some_iff.1 leads
  simp [same]

/-- The last of some names, if the others lead to `dir`. -/
theorem nameIn_eq_some {dir names : List Segment} {name : Segment} :
    (match names.getLast? with
      | some last => if names.dropLast = dir then some last else none
      | none => none) = some name ↔ names = dir ++ [name] := by
  rcases List.eq_nil_or_concat names with rfl | ⟨front, last, rfl⟩
  · simp
  · simp

theorem mem_children_iff {dir : List Segment} {name : Segment} :
    name ∈ t.children dir ↔ ∃ e, t.entry? (dir ++ [name]) = some e := by
  have some_name : dir ++ [name] ≠ [] := by simp
  constructor
  · intro member
    obtain ⟨x, inside, same⟩ := List.mem_filterMap.1 member
    rw [ entry?, if_neg some_name, ← nameIn_eq_some.1 same]
    cases found : t.entries.lookup x.1 with
    | some e => exact ⟨e, rfl⟩
    | none => simpa using List.lookup_eq_none_iff.1 found x inside
  · rintro ⟨e, leads⟩
    exact List.mem_filterMap.2 ⟨_, mem_entries some_name leads, nameIn_eq_some.2 rfl⟩

theorem nodup_children (distinct : (t.entries.map Prod.fst).Nodup) (dir : List Segment) :
    (t.children dir).Nodup := by
  have by_key : t.children dir = (t.entries.map Prod.fst).filterMap fun names =>
      match names.getLast? with
      | some last => if names.dropLast = dir then some last else none
      | none => none := by
    rw [List.filterMap_map]
    rfl
  rw [by_key]
  refine distinct.filterMap fun names names' name found found' => ?_
  rw [nameIn_eq_some.1 found, nameIn_eq_some.1 found']

namespace Proper

variable (proper : t.Proper)

include proper

theorem isName {names : List Segment} {e : FileEntry} (leads : t.entry? names = some e) :
    ∀ s ∈ names, Segment.IsName s := by
  by_cases empty : names = []
  · simp [empty]
  · exact (proper.named _ (mem_entries empty leads)).2

/-- What has an entry stands in directories all the way. -/
theorem entry?_take {root names : List Segment} {e : FileEntry}
    (leads : t.entry? (root ++ names) = some e) {k : Nat} (short : k < names.length) :
    t.entry? (root ++ names.take k) = some .dir := by
  induction names using List.reverseRecOn generalizing e with
  | nil => simp at short
  | append_singleton front last ih =>
      rw [← List.append_assoc] at leads
      have stands := proper.rooted _ (mem_entries (by simp) leads)
      rw [List.dropLast_concat] at stands
      rw [List.length_append, List.length_singleton] at short
      rw [List.take_append_of_le_length (Nat.le_of_lt_succ short)]
      rcases Nat.lt_or_eq_of_le (Nat.le_of_lt_succ short) with inner | rfl
      · exact ih stands inner
      · rwa [List.take_length]

/-- A path is not longer than there are entries: each of its parts has one. -/
theorem length_le {root names : List Segment} {e : FileEntry}
    (leads : t.entry? (root ++ names) = some e) : names.length ≤ t.entries.length := by
  let part (k : Nat) := root ++ names.take (k + 1)
  have apart : ((List.range names.length).map part).Nodup := by
    refine List.Nodup.map_on (fun i small j small' same => ?_) List.nodup_range
    have lengths := congrArg List.length same
    simp only [part, List.length_append, List.length_take] at lengths
    have := List.mem_range.1 small
    have := List.mem_range.1 small'
    omega
  have inside : (List.range names.length).map part ⊆ t.entries.map Prod.fst := by
    intro key member
    obtain ⟨k, small, rfl⟩ := List.mem_map.1 member
    have short := List.mem_range.1 small
    have found : ∃ e, t.entry? (part k) = some e := by
      rcases Nat.lt_or_eq_of_le (Nat.succ_le_of_lt short) with inner | whole
      · exact ⟨_, proper.entry?_take leads inner⟩
      · have all : part k = root ++ names :=
          congrArg (root ++ ·) (List.take_of_length_le (Nat.le_of_eq whole.symm))
        exact ⟨e, all ▸ leads⟩
    obtain ⟨e', leads'⟩ := found
    have some_name : part k ≠ [] := by
      have := List.ne_nil_of_length_pos (Nat.zero_lt_of_lt short)
      simp [part, this]
    exact List.mem_map_of_mem (mem_entries some_name leads')
  simpa using (List.subperm_of_subset apart inside).length_le

end Proper

end FileTree

namespace BuildContext

/-! ## What the walk finds -/

variable {tree : FileTree} {keep : List Segment → Bool → Bool} {root : List Segment}

/-- The walk comes from `below` through `rest` to an entry: it enters every directory on the way,
and keeps the entry. -/
structure Comes (tree : FileTree) (keep : List Segment → Bool → Bool) (root below rest : List Segment)
    (e : FileEntry) : Prop where
  some_name : rest ≠ []
  leads : tree.entry? (root ++ (below ++ rest)) = some e
  no_dir : e ≠ .dir
  kept : keep (below ++ rest) false = true
  entered : ∀ k, 0 < k → k < rest.length →
    tree.entry? (root ++ (below ++ rest.take k)) = some .dir ∧ keep (below ++ rest.take k) true = true

theorem comes_singleton {below : List Segment} {name : Segment} {e : FileEntry} :
    Comes tree keep root below [name] e ↔
      tree.entry? (root ++ (below ++ [name])) = some e ∧ e ≠ .dir ∧
        keep (below ++ [name]) false = true := by
  constructor
  · exact fun comes => ⟨comes.leads, comes.no_dir, comes.kept⟩
  · rintro ⟨leads, no_dir, kept⟩
    refine ⟨List.cons_ne_nil name [], leads, no_dir, kept, fun k some_k short => ?_⟩
    rw [List.length_singleton] at short
    omega

theorem comes_cons {below rest : List Segment} {name : Segment} {e : FileEntry} (more : rest ≠ []) :
    Comes tree keep root below (name :: rest) e ↔
      tree.entry? (root ++ (below ++ [name])) = some .dir ∧ keep (below ++ [name]) true = true ∧
        Comes tree keep root (below ++ [name]) rest e := by
  have onward (names : List Segment) : below ++ name :: names = below ++ [name] ++ names := by simp
  have some_rest := List.length_pos_iff.2 more
  constructor
  · intro comes
    obtain ⟨first, kept⟩ := comes.entered 1 Nat.one_pos (by simpa using some_rest)
    refine ⟨first, kept, more, onward rest ▸ comes.leads, comes.no_dir, onward rest ▸ comes.kept, ?_⟩
    intro k some_k short
    have further := comes.entered (k + 1) (Nat.succ_pos k) (Nat.succ_lt_succ short)
    rwa [List.take_succ_cons, onward] at further
  · rintro ⟨first, kept, comes⟩
    refine ⟨List.cons_ne_nil name rest, onward rest ▸ comes.leads, comes.no_dir,
      onward rest ▸ comes.kept, ?_⟩
    intro k some_k short
    obtain ⟨j, rfl⟩ := Nat.exists_eq_succ_of_ne_zero (Nat.ne_of_gt some_k)
    rw [List.take_succ_cons, onward]
    cases j with
    | zero => simpa using ⟨first, kept⟩
    | succ j => exact comes.entered (j + 1) (Nat.succ_pos j) (Nat.lt_of_succ_lt_succ short)

/-- What the walk finds at a name in a directory: the entry itself, or what lies below it. -/
def foundAt (tree : FileTree) (keep : List Segment → Bool → Bool) (root : List Segment)
    (depth : Nat) (below : List Segment) (name : Segment) : List (List Segment × FileEntry) :=
  let names := below ++ [name]
  match tree.entry? (root ++ names) with
  | none => []
  | some .dir => if keep names true then walkFrom tree keep root depth names else []
  | some e => if keep names false then [(names, e)] else []

theorem walkFrom_succ (depth : Nat) (below : List Segment) :
    walkFrom tree keep root (depth + 1) below =
      (sortedChildren tree (root ++ below)).flatMap (foundAt tree keep root depth below) := rfl

theorem mem_foundAt {depth : Nat} {below names : List Segment} {name : Segment} {e : FileEntry} :
    (names, e) ∈ foundAt tree keep root depth below name ↔
      (names = below ++ [name] ∧ Comes tree keep root below [name] e) ∨
        ( tree.entry? (root ++ (below ++ [name])) = some .dir ∧ keep (below ++ [name]) true = true ∧
          (names, e) ∈ walkFrom tree keep root depth (below ++ [name])) := by
  rw [comes_singleton, foundAt]
  split
  · rename_i missing
    simp [missing]
  · rename_i leads
    cases keep (below ++ [name]) true <;> simp +contextual [leads]
  · rename_i entry no_dir leads
    rw [leads]
    constructor
    · intro found
      split at found
      · rename_i kept
        obtain ⟨rfl, rfl⟩ := Prod.mk.inj (List.mem_singleton.1 found)
        exact .inl ⟨rfl, rfl, no_dir, kept⟩
      · cases found
    · rintro (⟨rfl, same, -, kept⟩ | ⟨same, -⟩)
      · obtain rfl := Option.some.inj same
        rw [if_pos kept]
        exact List.mem_singleton_self _
      · exact absurd (Option.some.inj same) no_dir

theorem mem_sortedChildren {dir : List Segment} {name : Segment} :
    name ∈ sortedChildren tree dir ↔ ∃ e, tree.entry? (dir ++ [name]) = some e := by
  rw [sortedChildren, List.mem_mergeSort, FileTree.mem_children_iff]

/-- One directory further, the walk finds an entry in it or what it finds below another one. -/
theorem mem_walkFrom_succ {depth : Nat} {below names : List Segment} {e : FileEntry} :
    (names, e) ∈ walkFrom tree keep root (depth + 1) below ↔
      ∃ name, (names = below ++ [name] ∧ Comes tree keep root below [name] e) ∨
        ( tree.entry? (root ++ (below ++ [name])) = some .dir ∧ keep (below ++ [name]) true = true ∧
          (names, e) ∈ walkFrom tree keep root depth (below ++ [name])) := by
  simp only [walkFrom_succ, List.mem_flatMap, mem_foundAt]
  refine exists_congr fun name => and_iff_right_of_imp fun found => ?_
  rw [mem_sortedChildren, List.append_assoc]
  rcases found with ⟨-, comes⟩ | ⟨leads, -⟩
  · exact ⟨e, comes.leads⟩
  · exact ⟨_, leads⟩

/-- **The walk finds what it comes to**, and nothing else. -/
theorem mem_walkFrom {depth : Nat} {below names : List Segment} {e : FileEntry} :
    (names, e) ∈ walkFrom tree keep root depth below ↔
      ∃ rest, names = below ++ rest ∧ rest.length ≤ depth ∧ Comes tree keep root below rest e := by
  induction depth generalizing below with
  | zero =>
      constructor
      · exact fun found => absurd found List.not_mem_nil
      · rintro ⟨rest, -, short, comes⟩
        exact absurd (List.length_eq_zero_iff.1 (Nat.le_zero.1 short)) comes.some_name
  | succ depth ih =>
      rw [mem_walkFrom_succ]
      constructor
      · rintro ⟨name, ⟨rfl, comes⟩ | ⟨leads, kept, found⟩⟩
        · exact ⟨[name], rfl, Nat.succ_le_succ (Nat.zero_le depth), comes⟩
        · obtain ⟨rest, rfl, short, comes⟩ := ih.1 found
          refine ⟨name :: rest, by simp, Nat.succ_le_succ short, ?_⟩
          exact (comes_cons comes.some_name).2 ⟨leads, kept, comes⟩
      · rintro ⟨rest, rfl, short, comes⟩
        obtain ⟨name, rest, rfl⟩ := List.exists_cons_of_ne_nil comes.some_name
        refine ⟨name, ?_⟩
        by_cases last : rest = []
        · subst last
          exact .inl ⟨rfl, comes⟩
        · obtain ⟨leads, kept, further⟩ := (comes_cons last).1 comes
          exact .inr ⟨leads, kept, ih.2 ⟨rest, by simp, Nat.le_of_succ_le_succ short, further⟩⟩

theorem prefix_of_mem_foundAt {depth : Nat} {below : List Segment} {name : Segment}
    {names : List Segment} (found : names ∈ (foundAt tree keep root depth below name).map Prod.fst) :
    below ++ [name] <+: names := by
  obtain ⟨⟨_, e⟩, member, rfl⟩ := List.mem_map.1 found
  rcases mem_foundAt.1 member with ⟨same, -⟩ | ⟨-, -, deeper⟩
  · exact same ▸ List.prefix_rfl
  · obtain ⟨rest, same, -⟩ := mem_walkFrom.1 deeper
    exact same ▸ List.prefix_append _ rest

/-- **Nothing is found twice.** -/
theorem nodup_walkFrom (distinct : (tree.entries.map Prod.fst).Nodup) (depth : Nat)
    (below : List Segment) : ((walkFrom tree keep root depth below).map Prod.fst).Nodup := by
  induction depth generalizing below with
  | zero => exact List.nodup_nil
  | succ depth ih =>
      rw [walkFrom_succ, List.map_flatMap, List.nodup_flatMap]
      constructor
      · intro name _
        unfold foundAt
        dsimp only
        split
        · exact List.nodup_nil
        · split
          · exact ih _
          · exact List.nodup_nil
        · split
          · exact List.nodup_singleton _
          · exact List.nodup_nil
      · have apart : (sortedChildren tree (root ++ below)).Nodup :=
          (List.mergeSort_perm _ _).nodup_iff.2 (FileTree.nodup_children distinct _)
        refine apart.pairwise_of_forall_ne fun name _ other _ different => ?_
        intro names found found'
        have same := List.prefix_of_prefix_length_le (prefix_of_mem_foundAt found)
          (prefix_of_mem_foundAt found') (by simp)
        exact different (by simpa using same.eq_of_length (by simp))

section Proper

variable (proper : tree.Proper)

include proper

theorem mem_walk {names : List Segment} {e : FileEntry} :
    (names, e) ∈ walk tree keep root ↔ Comes tree keep root [] names e := by
  rw [walk, mem_walkFrom]
  constructor
  · rintro ⟨rest, rfl, -, comes⟩
    exact comes
  · intro comes
    exact ⟨names, rfl, Nat.le_succ_of_le (proper.length_le comes.leads), comes⟩

/-- In a file tree as it can be, the walk comes to what it may enter all the way to. -/
theorem comes_iff {names : List Segment} {e : FileEntry} :
    Comes tree keep root [] names e ↔
      names ≠ [] ∧ tree.entry? (root ++ names) = some e ∧ e ≠ .dir ∧ keep names false = true ∧
        ∀ dir ∈ Ignore.Ruleset.above names, dir ≠ [] → keep dir true = true := by
  constructor
  · intro comes
    refine ⟨comes.some_name, comes.leads, comes.no_dir, comes.kept, fun dir member some_dir => ?_⟩
    obtain ⟨k, short, rfl⟩ := Ignore.Ruleset.mem_above.1 member
    have some_k : 0 < k := Nat.pos_of_ne_zero fun zero => some_dir (by rw [zero, List.take_zero])
    exact (comes.entered k some_k short).2
  · rintro ⟨some_name, leads, no_dir, kept, entered⟩
    refine ⟨some_name, leads, no_dir, kept, fun k some_k short => ?_⟩
    refine ⟨proper.entry?_take leads short, entered _ ?_ ?_⟩
    · exact Ignore.Ruleset.mem_above.2 ⟨k, short, rfl⟩
    · simp [some_name, Nat.ne_of_gt some_k]

end Proper

/-! ## What is archived -/

/-- A file or a link has these names below a directory, and this is what is archived of it. -/
structure Lies (tree : FileTree) (root names : List Segment) (entry : Archive.Entry) : Prop where
  some_name : names ≠ []
  leads : ∃ e, tree.entry? (root ++ names) = some e ∧ content? e = some entry.content
  name : entry.name = (LocalPath.way names).toString

theorem entry?_eq_some {names : List Segment} {e : FileEntry} {entry : Archive.Entry} :
    entry? (names, e) = some entry ↔
      content? e = some entry.content ∧ entry.name = (LocalPath.way names).toString := by
  obtain ⟨name, content⟩ := entry
  rw [ entry?, Option.map_eq_some_iff]
  constructor
  · rintro ⟨c, found, same⟩
    obtain ⟨rfl, rfl⟩ := Archive.Entry.mk.inj same
    exact ⟨found, rfl⟩
  · rintro ⟨found, rfl⟩
    exact ⟨content, found, rfl⟩

section Proper

variable (proper : tree.Proper)

include proper

theorem Lies.named {names : List Segment} {entry : Archive.Entry}
    (lies : Lies tree root names entry) : ∀ s ∈ names, Segment.IsName s := by
  obtain ⟨e, leads, -⟩ := lies.leads
  exact fun s member => proper.isName leads s (List.mem_append_right root member)

/-- The name in an archive tells where an entry comes from. -/
theorem Lies.unique {names names' : List Segment} {entry : Archive.Entry}
    (lies : Lies tree root names entry) (lies' : Lies tree root names' entry) : names = names' := by
  have same := String.ofList_injective (lies.name.symm.trans lies'.name)
  exact LocalPath.glue_inj (lies.named proper) lies.some_name (lies'.named proper) lies'.some_name
    same

theorem mem_archived {entry : Archive.Entry} :
    entry ∈ (walk tree keep root).filterMap entry? ↔
      ∃ names, Lies tree root names entry ∧ keep names false = true ∧
        ∀ dir ∈ Ignore.Ruleset.above names, dir ≠ [] → keep dir true = true := by
  rw [List.mem_filterMap]
  constructor
  · rintro ⟨⟨names, e⟩, found, same⟩
    obtain ⟨content, name⟩ := entry?_eq_some.1 same
    obtain ⟨some_name, leads, -, kept, entered⟩ := (comes_iff proper).1 ((mem_walk proper).1 found)
    exact ⟨names, ⟨some_name, ⟨e, leads, content⟩, name⟩, kept, entered⟩
  · rintro ⟨names, ⟨some_name, ⟨e, leads, content⟩, name⟩, kept, entered⟩
    have no_dir : e ≠ .dir := by
      rintro rfl
      cases content
    have comes := (comes_iff proper).2 ⟨some_name, leads, no_dir, kept, entered⟩
    exact ⟨(names, e), (mem_walk proper).2 comes, entry?_eq_some.2 ⟨content, name⟩⟩

theorem nodup_archived : (((walk tree keep root).filterMap entry?).map (·.name)).Nodup := by
  have spelled : ∀ x ∈ walk tree keep root,
      ( entry? x).map (·.name) = some (LocalPath.way x.1).toString := by
    rintro ⟨names, e⟩ found
    have no_dir := ((mem_walk proper).1 found).no_dir
    cases e with
    | dir => exact absurd rfl no_dir
    | file f => rfl
    | link target => rfl
  have by_name : ((walk tree keep root).filterMap entry?).map (·.name) =
      ((walk tree keep root).map Prod.fst).map fun names => (LocalPath.way names).toString := by
    rw [List.map_filterMap, List.filterMap_congr spelled, List.map_map]
    exact congrFun List.filterMap_eq_map' _
  have named : ∀ names ∈ (walk tree keep root).map Prod.fst,
      names ≠ [] ∧ ∀ s ∈ names, Segment.IsName s := by
    intro names member
    obtain ⟨⟨_, e⟩, found, rfl⟩ := List.mem_map.1 member
    have comes := (mem_walk proper).1 found
    exact ⟨comes.some_name, fun s inside =>
      proper.isName comes.leads s (List.mem_append_right root inside)⟩
  rw [by_name]
  refine List.Nodup.map_on (fun names member names' member' same => ?_)
    (nodup_walkFrom proper.distinct _ [])
  obtain ⟨some_name, all_named⟩ := named names member
  obtain ⟨some_name', all_named'⟩ := named names' member'
  exact LocalPath.glue_inj all_named some_name all_named' some_name' (String.ofList_injective same)

end Proper

/-- The archive has all below a directory that the rules leave in by themselves, and nothing
else. -/
def Agrees (tree : FileTree) (rules? : Option Ignore.Ruleset) (dir : LocalPath)
    (root : List Segment) (archived : List Archive.Entry) : Prop :=
  ∀ entry, entry ∈ archived ↔
    ∃ names, Lies tree root names entry ∧ admits rules? dir names false = true

theorem entries_eq {dir : LocalPath} {rules? : Option Ignore.Ruleset}
    (loads : Ignore.Ruleset.inDir? tree dir = .ok rules?) (leads : tree.resolve dir true = .ok root)
    (no_link : tree.isLink dir = false) :
    entries tree dir = .ok ((walk tree (admits rules? dir) root).filterMap entry?) := by
  simp only [entries, loads, leads, no_link]
  rfl

/-- **Rules that take nothing back leave in nothing beneath an excluded directory.** -/
theorem admits_above {dir : LocalPath} {rules? : Option Ignore.Ruleset}
    (loads : Ignore.Ruleset.inDir? tree dir = .ok rules?) (absolute : dir.isAbsolute = true)
    (plain : ∀ rules ∈ rules?, ∀ r ∈ rules.rules, r.restores = false) {names part : List Segment}
    (named : ∀ s ∈ names, Segment.IsName s) (member : part ∈ Ignore.Ruleset.above names)
    (some_part : part ≠ []) {isDir : Bool} (admitted : admits rules? dir names isDir = true) :
    admits rules? dir part true = true := by
  cases rules? with
  | none => rfl
  | some rules =>
      obtain rfl := Ignore.Ruleset.inDir?_root loads
      obtain ⟨k, short, rfl⟩ := Ignore.Ruleset.mem_above.1 member
      have named_part : ∀ s ∈ names.take k, Segment.IsName s :=
        fun s inside => named s (List.mem_of_mem_take inside)
      have some_name : names ≠ [] := fun empty => some_part (by rw [empty, List.take_nil])
      simp only [admits, Bool.not_eq_true', Ignore.Ruleset.isIgnored_pathOf named absolute some_name,
        Ignore.Ruleset.isIgnored_pathOf named_part absolute some_part] at admitted ⊢
      cases judged : Ignore.Ruleset.judges rules.rules (names.take k) true with
      | false => rfl
      | true =>
          have excluded := Ignore.Ruleset.judges_of_above (plain rules rfl) member judged isDir
          rw [admitted] at excluded
          cases excluded

/-- **What a build starts from.**  The archive has each file and link below the directory once,
by its names, if the rules leave in that and every directory on the way to it.  This is what the
rules leave in by themselves just if they take nothing back beneath a directory that they
exclude, so it is if none of them takes anything back and the directory is absolute. -/
theorem entries_agree_iff {dir : LocalPath} {rules? : Option Ignore.Ruleset} (proper : tree.Proper)
    (loads : Ignore.Ruleset.inDir? tree dir = .ok rules?) (leads : tree.resolve dir true = .ok root)
    (no_link : tree.isLink dir = false) :
    ∃ archived, entries tree dir = .ok archived ∧ (archived.map (·.name)).Nodup ∧
      (∀ entry, entry ∈ archived ↔
        ∃ names, Lies tree root names entry ∧ admits rules? dir names false = true ∧
          ∀ part ∈ Ignore.Ruleset.above names, part ≠ [] → admits rules? dir part true = true) ∧
      (Agrees tree rules? dir root archived ↔
        ∀ names entry, Lies tree root names entry → admits rules? dir names false = true →
          ∀ part ∈ Ignore.Ruleset.above names, part ≠ [] → admits rules? dir part true = true) ∧
      (dir.isAbsolute = true → (∀ rules ∈ rules?, ∀ r ∈ rules.rules, r.restores = false) →
        Agrees tree rules? dir root archived) := by
  have found (entry : Archive.Entry) :
      entry ∈ (walk tree (admits rules? dir) root).filterMap entry? ↔ _ := mem_archived proper
  have agrees : Agrees tree rules? dir root ((walk tree (admits rules? dir) root).filterMap entry?) ↔
      ∀ names entry, Lies tree root names entry → admits rules? dir names false = true →
        ∀ part ∈ Ignore.Ruleset.above names, part ≠ [] → admits rules? dir part true = true := by
    constructor
    · intro agrees names entry lies admitted
      obtain ⟨names', lies', -, entered⟩ := (found entry).1 ((agrees entry).2 ⟨names, lies, admitted⟩)
      rwa [← lies.unique proper lies'] at entered
    · intro entered entry
      rw [found]
      refine exists_congr fun names => and_congr_right fun lies => ?_
      exact and_iff_left_of_imp (entered names entry lies)
  refine ⟨_, entries_eq loads leads no_link, nodup_archived proper, found, agrees, ?_⟩
  intro absolute plain
  exact agrees.2 fun names entry lies admitted part member some_part =>
    admits_above loads absolute plain (lies.named proper) member some_part admitted

/-! ### A file that is taken back -/

/-- A context with two files in a directory, and an ignore file. -/
def ignoring (text : String) : FileTree :=
  ⟨[([['a'], ".dockerignore".toList], .file ⟨0o644, 0, text.toUTF8⟩),
    ([['a'], ['d'], "keep".toList], .file ⟨0o644, 0, "k".toUTF8⟩),
    ([['a'], ['d'], "other".toList], .file ⟨0o644, 0, "o".toUTF8⟩),
    ([['a'], ['d']], .dir), ([['a']], .dir)], .ofString "/"⟩

theorem proper_ignoring (text : String) : (ignoring text).Proper where
  named := by simp [ignoring, Segment.IsName]
  distinct := by simp [ignoring]
  rooted := by
    intro x member
    simp only [ignoring, List.mem_cons, List.not_mem_nil, or_false] at member
    rcases member with rfl | rfl | rfl | rfl | rfl <;> rfl

/-- **A file that the rules take back may be left out**: the walk does not enter the directory
that it lies in. -/
theorem kept_file_left_out :
    let tree := ignoring "d\n!d/keep\n"
    let dir := LocalPath.ofString "/a"
    let names : List Segment := [['d'], "keep".toList]
    let entry : Archive.Entry := ⟨"d/keep", .file 0o644 0 "k".toUTF8⟩
    ∃ rules? archived, Ignore.Ruleset.inDir? tree dir = .ok rules? ∧
      tree.resolve dir true = .ok [['a']] ∧ entries tree dir = .ok archived ∧
      Lies tree [['a']] names entry ∧ admits rules? dir names false = true ∧ entry ∉ archived := by
  intro tree dir names entry
  have judges : ((Ignore.Ruleset.inDir? tree dir).toOption.map fun rules? =>
      (admits rules? dir names false, admits rules? dir [['d']] true)) = some (true, false) := by
    decide +kernel
  obtain ⟨rules?, loads, judged⟩ := exists_of_toOption judges
  obtain ⟨admitted, excluded⟩ := Prod.mk.inj judged
  have leads : tree.resolve dir true = .ok [['a']] := by decide +kernel
  have no_link : tree.isLink dir = false := by decide +kernel
  have lies : Lies tree [['a']] names entry :=
    ⟨List.cons_ne_nil _ _, ⟨.file ⟨0o644, 0, "k".toUTF8⟩, rfl, rfl⟩, by decide⟩
  refine ⟨rules?, _, loads, leads, entries_eq loads leads no_link, lies, admitted, ?_⟩
  intro archived
  obtain ⟨names', lies', -, entered⟩ := (mem_archived (proper_ignoring _)).1 archived
  obtain rfl := lies.unique (proper_ignoring _) lies'
  have admitted_above := entered [['d']] (by decide) (List.cons_ne_nil _ _)
  exact absurd (admitted_above.symm.trans excluded) (by decide)

/-- Rules that only exclude leave in what is archived. -/
theorem entries_agree_iff_of_plain :
    let tree := ignoring "d\n"
    let dir := LocalPath.ofString "/a"
    tree.Proper ∧ tree.resolve dir true = .ok [['a']] ∧ tree.isLink dir = false ∧
      dir.isAbsolute = true ∧
      ∃ rules?, Ignore.Ruleset.inDir? tree dir = .ok rules? ∧
        (∀ rules ∈ rules?, ∀ r ∈ rules.rules, r.restores = false) ∧
        ∃ archived, entries tree dir = .ok archived ∧ (archived.map (·.name)).Nodup ∧
          Agrees tree rules? dir [['a']] archived := by
  intro tree dir
  have leads : tree.resolve dir true = .ok [['a']] := by decide +kernel
  have no_link : tree.isLink dir = false := by decide +kernel
  have restores : ((Ignore.Ruleset.inDir? tree dir).toOption.map fun rules? =>
      rules?.map fun rules => rules.rules.map (·.restores)) = some (some [false]) := by
    decide +kernel
  obtain ⟨rules?, loads, none_restores⟩ := exists_of_toOption restores
  have plain : ∀ rules ∈ rules?, ∀ r ∈ rules.rules, r.restores = false := by
    rintro rules rfl r member
    have kinds : rules.rules.map (·.restores) = [false] := Option.some.inj none_restores
    exact List.mem_singleton.1 (kinds ▸ List.mem_map_of_mem member)
  obtain ⟨archived, built, once, -, -, agrees⟩ :=
    entries_agree_iff (proper_ignoring _) loads leads no_link
  exact ⟨proper_ignoring _, leads, no_link, rfl, rules?, loads, plain, archived, built, once,
    agrees rfl plain⟩

end BuildContext

end DevMode
