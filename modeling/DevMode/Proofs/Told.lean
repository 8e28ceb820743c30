/-
# DevMode.Proofs.Told -- what the event of an edit tells

An event names paths, and only a look at the tree tells what has become of them.

* `stat_of_leads` and `stat_of_gone`: where no link is on the way, a look at a path tells its
  entry, or that there is none.
* `mem_changes_iff`: so the event of an edit tells of the paths that it names whether they were
  added or removed, but nothing of those that lead to a directory.
-/
import DevMode.Proofs.Edits

namespace DevMode

set_option autoImplicit false

namespace FileTree

/-! ## Looking at paths -/

variable {t : FileTree} {names : List Segment}

/-- Nothing is at a path, and no link on the way to it. -/
structure Gone (t : FileTree) (names : List Segment) : Prop where
  nothing : t.entry? names = none
  no_link : ∀ part, part <+: names → ∀ l, t.entry? part ≠ some (.link l)

theorem Rooted.gone (rooted : t.Rooted) (stands : t.entry? names.dropLast = some .dir)
    (nothing : t.entry? names = none) : t.Gone names := by
  refine ⟨nothing, ?_⟩
  rintro part ⟨rest, rfl⟩ l leads
  rcases List.eq_nil_or_concat rest with rfl | ⟨front, last, rfl⟩
  · rw [List.append_nil, leads] at nothing
    cases nothing
  · rw [List.concat_eq_append, ← List.append_assoc, List.dropLast_concat] at stands
    by_cases whole : front = []
    · rw [whole, List.append_nil, leads] at stands
      cases stands
    · rw [rooted.above whole stands] at leads
      cases leads

/-- Beneath what is neither a directory nor a link, there is nothing. -/
theorem Rooted.gone_beneath (rooted : t.Rooted) {below : List Segment} {e : FileEntry}
    (leads : t.entry? names = some e) (no_dir : e ≠ .dir) (plain : ∀ l, e ≠ .link l)
    (some_below : below ≠ []) : t.Gone (names ++ below) := by
  have bare {rest : List Segment} (some_rest : rest ≠ []) : t.entry? (names ++ rest) = none :=
    rooted.nothing_below some_rest (by simpa [leads] using no_dir)
  refine ⟨bare some_below, fun part inside l found => ?_⟩
  have not_names : part ≠ names := by
    rintro rfl
    rw [leads] at found
    exact plain l (Option.some.inj found)
  rcases List.prefix_or_prefix_of_prefix inside (List.prefix_append names below) with above | within
  · obtain ⟨rest, rfl⟩ := above
    have some_rest : rest ≠ [] := fun none_left => not_names (by simp [none_left])
    rw [rooted.above some_rest leads] at found
    cases found
  · obtain ⟨rest, rfl⟩ := within
    have some_rest : rest ≠ [] := fun none_left => not_names (by simp [none_left])
    rw [bare some_rest] at found
    cases found

theorem descend_name (some_dir : t.entry? names = some .dir) {s : Segment} (name : s.IsName)
    (rest : List Segment) (last : Bool) :
    t.descend last names (s :: rest) =
      if maxName < byteLength s then .failed .nameTooLong
      else
        match t.entry? (names ++ [s]) with
        | none => .failed .notFound
        | some (.link target) =>
          if rest = [] ∧ last = false then .found (names ++ [s]) else .linked names target rest
        | some _ => t.descend last (names ++ [s]) rest := by
  obtain ⟨solid, moves, no_climb, -⟩ := name
  have moving : ¬ (s = [] ∨ s = ['.']) := not_or.2 ⟨solid, moves⟩
  rw [descend, some_dir]
  exact (if_neg moving).trans (if_neg no_climb)

/-- Where everything is in place, names lead to where they say. -/
theorem descend_found (rooted : t.Rooted) (dir : List Segment) {below : List Segment}
    {e : FileEntry} (named : ∀ s ∈ below, Segment.IsName s)
    (short : ∀ s ∈ below, byteLength s ≤ maxName)
    (leads : t.entry? (dir ++ below) = some e) (plain : ∀ l, e ≠ .link l) (last : Bool) :
    t.descend last dir below = .found (dir ++ below) := by
  induction below generalizing dir with
  | nil => rw [descend, List.append_nil]
  | cons s rest ih =>
      have some_dir := rooted.above (List.cons_ne_nil s rest) leads
      have whole : dir ++ s :: rest = dir ++ [s] ++ rest := by simp
      rw [whole] at leads ⊢
      have fits : ¬ maxName < byteLength s := Nat.not_lt.2 (short s List.mem_cons_self)
      have onward := ih (dir ++ [s]) (fun r member => named r (.tail s member))
        (fun r member => short r (.tail s member)) leads
      rw [descend_name some_dir (named s List.mem_cons_self), if_neg fits, onward]
      by_cases end_here : rest = []
      · rw [end_here, List.append_nil] at leads
        rw [leads]
        cases e with
        | dir => rfl
        | file f => rfl
        | link l => exact absurd rfl (plain l)
      · rw [rooted.above end_here leads]

/-- Without links on the way, names lead nowhere else than where they say. -/
theorem descend_cases (dir : List Segment) {below : List Segment}
    (named : ∀ s ∈ below, Segment.IsName s)
    (no_link : ∀ part, part <+: below → ∀ l, t.entry? (dir ++ part) ≠ some (.link l))
    (last : Bool) :
    (∃ error, t.descend last dir below = .failed error) ∨
      t.descend last dir below = .found (dir ++ below) := by
  induction below generalizing dir with
  | nil => exact .inr (by rw [descend, List.append_nil])
  | cons s rest ih =>
      have whole : dir ++ s :: rest = dir ++ [s] ++ rest := by simp
      have further : ∀ part, part <+: rest →
          ∀ l, t.entry? (dir ++ [s] ++ part) ≠ some (.link l) := by
        intro part before l
        rw [List.append_assoc, List.singleton_append]
        exact no_link (s :: part) (List.cons_prefix_cons.2 ⟨rfl, before⟩) l
      have onward := ih (dir ++ [s]) (fun r member => named r (.tail s member)) further
      rw [whole]
      by_cases some_dir : t.entry? dir = some .dir
      · rw [descend_name some_dir (named s List.mem_cons_self)]
        split
        · exact .inl ⟨_, rfl⟩
        · split
          · exact .inl ⟨_, rfl⟩
          · rename_i l leads
            exact absurd leads (no_link [s] (by simp) l)
          · exact onward
      · refine .inl ⟨.notDirectory, ?_⟩
        rw [descend]
        split
        · rename_i leads
          exact absurd leads some_dir
        · rfl

theorem resolve_names (fits : Fits names) (last : Bool) :
    t.resolve (LocalPath.ofNames names) last = t.follow last maxLinks [] ([] :: names) := by
  have absolute : (LocalPath.ofNames names).isAbsolute = true := rfl
  rw [resolve, if_neg (LocalPath.isAbsolute.ne_nil absolute), if_neg (Nat.not_le.2 fits.whole),
    LocalPath.against_of_isAbsolute absolute, LocalPath.ofNames, Text.pieces, if_pos rfl,
    LocalPath.pieces_glue_names fits.named fits.some_name]

/-- A path that starts with a slash is walked down from the root. -/
theorem descend_root (last : Bool) : t.descend last [] ([] :: names) = t.descend last [] names := by
  rw [descend]
  simp [ entry?]

theorem stat_of_resolve {path : LocalPath} (resolved : t.resolve path true = .ok names) :
    t.stat path =
      match t.entry? names with
      | some e => .ok e
      | none => .error .notFound := by
  rw [stat, resolved]
  rfl

/-- **A file or directory is found by its names.** -/
theorem stat_of_leads (rooted : t.Rooted) (fits : Fits names) {e : FileEntry}
    (leads : t.entry? names = some e) (plain : ∀ l, e ≠ .link l) :
    t.stat (LocalPath.ofNames names) = .ok e := by
  have found := descend_found rooted [] fits.named fits.each leads plain true
  have resolved : t.resolve (LocalPath.ofNames names) true = .ok names := by
    rw [resolve_names fits, follow, descend_root, found]
    rfl
  rw [stat_of_resolve resolved, leads]

/-- **Where nothing is, nothing is found**, unless a link is on the way. -/
theorem stat_of_gone (fits : Fits names) (gone : t.Gone names) :
    ∃ error, t.stat (LocalPath.ofNames names) = .error error := by
  rcases descend_cases [] fits.named gone.no_link true with ⟨error, failed⟩ | found
  · refine ⟨error, ?_⟩
    have resolved : t.resolve (LocalPath.ofNames names) true = .error error := by
      rw [resolve_names fits, follow, descend_root, failed]
    rw [stat, resolved]
    rfl
  · refine ⟨.notFound, ?_⟩
    have resolved : t.resolve (LocalPath.ofNames names) true = .ok names := by
      rw [resolve_names fits, follow, descend_root, found]
      rfl
    rw [stat_of_resolve resolved, gone.nothing]

end FileTree

/-! ## What events tell -/

theorem Ignore.Ruleset.isIgnored_empty (root path : LocalPath) (isDir : Bool) :
    (Ignore.Ruleset.empty root).isIgnored path isDir = false := by
  simp only [isIgnored, excludes, empty, List.isEmpty_nil, if_true, ite_self]
  split <;> rfl

namespace LocalPath

variable {root names : List Segment}

/-- Names go on below a directory as they begin with its own. -/
theorem relativeTo?_ofNames (named : ∀ s ∈ names, Segment.IsName s)
    (root_named : ∀ s ∈ root, Segment.IsName s) :
    (ofNames names).relativeTo? (ofNames root) =
      if root <+: names then some (way (names.drop root.length)) else none := by
  split
  · rename_i below
    obtain ⟨rest, rfl⟩ := below
    rw [List.drop_left]
    by_cases here : rest = []
    · rw [here, List.append_nil]
      exact relativeTo?_self (ofNames root)
    · have rest_named : ∀ s ∈ rest, Segment.IsName s :=
        fun s member => named s (List.mem_append_right root member)
      have spells : (ofNames root).Spells root := .inl rfl
      rw [← spells.join root_named rest_named here]
      exact relativeTo?_join rest_named (ofNames root) here
  · rename_i elsewhere
    cases found : (ofNames names).relativeTo? (ofNames root) with
    | none => rfl
    | some rel =>
        have spells : (ofNames names).Spells names := .inl rfl
        have root_spells : (ofNames root).Spells root := .inl rfl
        have below := (components_of_relativeTo? rfl found).2
        rw [spells.components named, root_spells.components root_named] at below
        exact absurd (components_prefix_iff.1 ⟨_, below.symm⟩) elsewhere

end LocalPath

namespace FileEvent

/-- What a look at the tree tells of a path that an event names. -/
def told? (t : FileTree) (names : List Segment) : Option ChangeKind :=
  match t.entry? names with
  | none => some .remove
  | some .dir => none
  | some _ => some .add

/-- The change of what has these names, below a root. -/
def changeAt (root names : List Segment) (kind : ChangeKind) : Change :=
  ⟨LocalPath.ofNames root, LocalPath.way (names.drop root.length), kind⟩

variable {root names : List Segment}

theorem localPath_changeAt (named : ∀ s ∈ names, Segment.IsName s) (below : root <+: names)
    (kind : ChangeKind) : (changeAt root names kind).localPath = LocalPath.ofNames names := by
  obtain ⟨rest, rfl⟩ := below
  have root_named : ∀ s ∈ root, Segment.IsName s :=
    fun s member => named s (List.mem_append_left rest member)
  have rest_named : ∀ s ∈ rest, Segment.IsName s :=
    fun s member => named s (List.mem_append_right root member)
  simp only [changeAt, Change.localPath, List.drop_left]
  by_cases here : rest = []
  · rw [here, List.append_nil]
    rfl
  · have spells : (LocalPath.ofNames root).Spells root := .inl rfl
    have somewhere : (LocalPath.way rest).chars ≠ [] := LocalPath.glue_ne_nil rest_named here
    rw [if_neg somewhere]
    exact spells.join root_named rest_named here

/-- Changes of two paths are changes of one just if the paths are one. -/
theorem changeAt_same {names' : List Segment}
    (named : ∀ s ∈ names, Segment.IsName s) (named' : ∀ s ∈ names', Segment.IsName s)
    (below : root <+: names) (below' : root <+: names') (kind kind' : ChangeKind) :
    (changeAt root names kind).localPath.Same (changeAt root names' kind').localPath ↔
      names = names' := by
  have spells : (LocalPath.ofNames names).Spells names := .inl rfl
  have spells' : (LocalPath.ofNames names').Spells names' := .inl rfl
  rw [localPath_changeAt named below, localPath_changeAt named' below', LocalPath.Same,
    spells.components named, spells'.components named', List.cons.injEq, and_iff_right rfl]
  exact List.map_inj_right fun _ _ => Component.name.inj

theorem told?_eq_remove_iff {t : FileTree} :
    told? t names = some .remove ↔ t.entry? names = none := by
  unfold told?
  split <;> simp_all

theorem exists_told?_iff {t : FileTree} :
    (∃ kind, told? t names = some kind) ↔ t.entry? names ≠ some .dir := by
  unfold told?
  split <;> simp_all

variable {t t' : FileTree} {edit : FileEdit}

/-- What becomes of a path that an edit names. -/
theorem change?_of_edit (before : t.Rooted) (edits : Edits t edit t')
    (root_named : ∀ s ∈ root, Segment.IsName s) (named : names ∈ edit.named) :
    change? t' (LocalPath.ofNames root) (LocalPath.ofNames root)
        (Ignore.Ruleset.empty (LocalPath.ofNames root)) (LocalPath.ofNames names) =
      if root <+: names then (told? t' names).map (changeAt root names) else none := by
  have fits := edits.fits named
  obtain ⟨stands, no_link⟩ := edits.around before named
  have after := edits.rooted before
  have rel := LocalPath.relativeTo?_ofNames fits.named root_named
  by_cases below : root <+: names
  · rw [if_pos below] at rel ⊢
    simp only [change?, rel, Ignore.Ruleset.isIgnored_empty, told?]
    cases leads : t'.entry? names with
    | none =>
        obtain ⟨error, missing⟩ := FileTree.stat_of_gone fits (after.gone stands leads)
        rw [missing]
        rfl
    | some e =>
        have found := FileTree.stat_of_leads after fits leads fun l same => no_link l (same ▸ leads)
        rw [found]
        cases e <;> rfl
  · rw [if_neg below] at rel ⊢
    rw [change?, rel]

/-- **The event of an edit tells of each path that it names under the root**, unless a directory is
there: the path is added if something is there, and else it is removed. -/
theorem mem_changes_iff (before : t.Rooted) (edits : Edits t edit t')
    (root_named : ∀ s ∈ root, Segment.IsName s) {c : Change} :
    c ∈ edit.event.changes t' (LocalPath.ofNames root) (LocalPath.ofNames root)
        (Ignore.Ruleset.empty (LocalPath.ofNames root)) ↔
      ∃ names kind, names ∈ edit.named ∧ root <+: names ∧ told? t' names = some kind ∧
        c = changeAt root names kind := by
  have matters : edit.event.matters = true := by cases edit <;> rfl
  rw [changes, if_pos matters]
  simp only [FileEdit.event, List.filterMap_map, List.mem_filterMap, Function.comp_apply]
  constructor
  · rintro ⟨names, named, found⟩
    rw [change?_of_edit before edits root_named named] at found
    split at found
    · rename_i below
      obtain ⟨kind, told, rfl⟩ := Option.map_eq_some_iff.1 found
      exact ⟨names, kind, named, below, told, rfl⟩
    · cases found
  · rintro ⟨names, kind, named, below, told, rfl⟩
    refine ⟨names, named, ?_⟩
    rw [change?_of_edit before edits root_named named, if_pos below, told]
    rfl

end FileEvent

end DevMode
