/-
# DevMode.Proofs.Comeback -- what a flush deletes, and what is there

Files and directories are edited one after another, the event of each edit is looked at right after
it, and all changes together are partitioned.

* `mem_removes_iff_lost`: a path is among the removals just if an event told that it is gone and no
  later one told of it.
* `History.gone`: such a path stays gone, unless a directory is put at it or above it, of which no
  event tells.
* `spares_iff`: so what is removed although it is there at the end are the paths that come back in
  this way, and the removals spare what is there just if none does.
* `removes_what_is_there` is a history in which one does.
-/
import DevMode.Proofs.LastChange
import DevMode.Proofs.Told

namespace DevMode

set_option autoImplicit false

/-! ## Histories -/

/-- An edit, and the file tree behind it. -/
structure Moment where
  edit : FileEdit
  tree : FileTree

namespace Moment

/-- The changes under `root` that the event of the edit tells of; nothing is ignored. -/
def changes (root : List Segment) (m : Moment) : List Change :=
  m.edit.event.changes m.tree (.ofNames root) (.ofNames root) (.empty (.ofNames root))

/-- The event tells that a path is gone. -/
def Loses (m : Moment) (names : List Segment) : Prop :=
  names ∈ m.edit.named ∧ m.tree.entry? names = none

/-- The event tells of a path, which it does not of a directory. -/
def Reports (m : Moment) (names : List Segment) : Prop :=
  names ∈ m.edit.named ∧ m.tree.entry? names ≠ some .dir

/-- A directory is made at a path, or renamed to it or to a directory above it. -/
def PutsDirectory (m : Moment) (names : List Segment) : Prop :=
  match m.edit with
  | .createDir made => made = names
  | .rename _ target => target <+: names ∧ m.tree.entry? target = some .dir
  | _ => False

end Moment

/-- One edit follows another, from a first file tree to a last. -/
inductive History : FileTree → List Moment → FileTree → Prop where
  | here (t : FileTree) : History t [] t
  | edit {t next last : FileTree} {edit : FileEdit} {moments : List Moment}
      (edits : Edits t edit next) (later : History next moments last) :
      History t (⟨edit, next⟩ :: moments) last

/-- An event told that a path is gone, and no later one told of it. -/
def Lost (moments : List Moment) (names : List Segment) : Prop :=
  ∃ before gone after, moments = before ++ gone :: after ∧ gone.Loses names ∧
    ∀ m ∈ after, ¬ m.Reports names

/-- A path comes back in silence: an event told that it is gone, no later one told of it, but a
directory was put at it or above it since, and at the end it leads to something. -/
def ComesBack (moments : List Moment) (last : FileTree) (names : List Segment) : Prop :=
  ∃ before gone between back after, moments = before ++ gone :: (between ++ back :: after) ∧
    gone.Loses names ∧ (∀ m ∈ between ++ back :: after, ¬ m.Reports names) ∧
    back.PutsDirectory names ∧ ∃ e, last.stat (.ofNames names) = .ok e

namespace History

variable {t last : FileTree} {moments before after : List Moment}

theorem split (history : History t (before ++ after) last) :
    ∃ mid, History t before mid ∧ History mid after last := by
  induction before generalizing t with
  | nil => exact ⟨t, .here t, history⟩
  | cons m before ih =>
      cases history with
      | edit edits later =>
          obtain ⟨mid, first, second⟩ := ih later
          exact ⟨mid, .edit edits first, second⟩

theorem rooted (history : History t moments last) (first : t.Rooted) : last.Rooted := by
  induction history with
  | here t => exact first
  | edit edits later ih => exact ih (edits.rooted first)

/-- Each moment comes of an edit of a tree in which everything stands in a directory. -/
theorem edits_of_mem (history : History t moments last) (first : t.Rooted) {m : Moment}
    (member : m ∈ moments) : ∃ previous, previous.Rooted ∧ Edits previous m.edit m.tree := by
  induction history with
  | here t => cases member
  | edit edits later ih =>
      rcases List.mem_cons.1 member with rfl | member
      · exact ⟨_, first, edits⟩
      · exact ih (edits.rooted first) member

theorem fits_of_mem (history : History t moments last) (first : t.Rooted) {m : Moment}
    (member : m ∈ moments) {names : List Segment} (named : names ∈ m.edit.named) : Fits names := by
  obtain ⟨previous, -, edits⟩ := history.edits_of_mem first member
  exact edits.fits named

end History

/-! ## What is lost -/

section Changes

variable {t last : FileTree} {moments : List Moment} {root names : List Segment}

/-- The changes of a history, in order. -/
def changesOf (root : List Segment) (moments : List Moment) : List Change :=
  moments.flatMap (Moment.changes root)

variable (first : t.Rooted) (history : History t moments last)
  (root_named : ∀ s ∈ root, Segment.IsName s)

include first history root_named

theorem History.mem_changes_iff {m : Moment} (member : m ∈ moments) {c : Change} :
    c ∈ m.changes root ↔
      ∃ names kind, names ∈ m.edit.named ∧ root <+: names ∧
        FileEvent.told? m.tree names = some kind ∧ c = FileEvent.changeAt root names kind := by
  obtain ⟨previous, rooted, edits⟩ := history.edits_of_mem first member
  exact FileEvent.mem_changes_iff rooted edits root_named

/-- An event has a change of a path just if it reports the path. -/
theorem History.reports_iff {m : Moment} (member : m ∈ moments)
    (named : ∀ s ∈ names, Segment.IsName s) (below : root <+: names) (kind : ChangeKind) :
    m.Reports names ↔
      ∃ d ∈ m.changes root, d.localPath.Same (FileEvent.changeAt root names kind).localPath := by
  constructor
  · rintro ⟨inside, no_dir⟩
    obtain ⟨kind', told⟩ := FileEvent.exists_told?_iff.2 no_dir
    refine ⟨FileEvent.changeAt root names kind', ?_, ?_⟩
    · exact (history.mem_changes_iff first root_named member).2
        ⟨names, kind', inside, below, told, rfl⟩
    · exact (FileEvent.changeAt_same named named below below kind' kind).2 rfl
  · rintro ⟨d, told_of, same⟩
    obtain ⟨names', kind', inside, below', told, rfl⟩ :=
      (history.mem_changes_iff first root_named member).1 told_of
    have named' := (history.fits_of_mem first member inside).named
    obtain rfl := (FileEvent.changeAt_same named' named below' below kind' kind).1 same
    exact ⟨inside, FileEvent.exists_told?_iff.1 ⟨kind', told⟩⟩

/-- A moment may tell of two paths, but of each only once. -/
theorem History.lastIn_changes {m : Moment} (member : m ∈ moments) (inside : names ∈ m.edit.named)
    (below : root <+: names) {kind : ChangeKind} (told : FileEvent.told? m.tree names = some kind) :
    Change.LastIn (m.changes root) (FileEvent.changeAt root names kind) := by
  have mem_changes {c : Change} := history.mem_changes_iff first root_named member (c := c)
  have told_of := mem_changes.2 ⟨names, kind, inside, below, told, rfl⟩
  obtain ⟨d, last_change, same⟩ := Change.exists_lastIn told_of
  obtain ⟨names', kind', inside', below', told', rfl⟩ := mem_changes.1 last_change.mem
  have named := (history.fits_of_mem first member inside).named
  have named' := (history.fits_of_mem first member inside').named
  obtain rfl := (FileEvent.changeAt_same named' named below' below kind' kind).1 same
  rw [told] at told'
  rwa [← Option.some.inj told'] at last_change

/-- **What a flush deletes**: the paths under the root that are lost. -/
theorem History.mem_removes_iff_lost {c : Change} :
    c ∈ (Change.partition (changesOf root moments)).2 ↔
      ∃ names, root <+: names ∧ Lost moments names ∧ c = FileEvent.changeAt root names .remove := by
  rw [Change.mem_removes_iff, changesOf, Change.lastIn_flatMap]
  constructor
  · rintro ⟨⟨before, gone, after, rfl, last_of_gone, none_later⟩, kind⟩
    have here : gone ∈ before ++ gone :: after := by simp
    obtain ⟨names, _, inside, below, told, rfl⟩ :=
      (history.mem_changes_iff first root_named here).1 last_of_gone.mem
    obtain rfl : _ = ChangeKind.remove := kind
    have named := (history.fits_of_mem first here inside).named
    have lost : gone.Loses names := ⟨inside, FileEvent.told?_eq_remove_iff.1 told⟩
    refine ⟨names, below, ⟨before, gone, after, rfl, lost, fun m later reports => ?_⟩, rfl⟩
    have member : m ∈ before ++ gone :: after := by simp [later]
    obtain ⟨d, told_again, same⟩ :=
      (history.reports_iff first root_named member named below .remove).1 reports
    exact none_later m later d told_again same
  · rintro ⟨names, below, ⟨before, gone, after, rfl, ⟨inside, nothing⟩, silent⟩, rfl⟩
    have here : gone ∈ before ++ gone :: after := by simp
    have named := (history.fits_of_mem first here inside).named
    have told := FileEvent.told?_eq_remove_iff.2 nothing
    refine ⟨⟨before, gone, after, rfl, ?_, fun m later d told_again same => ?_⟩, rfl⟩
    · exact history.lastIn_changes first root_named here inside below told
    · have member : m ∈ before ++ gone :: after := by simp [later]
      exact silent m later
        ((history.reports_iff first root_named member named below .remove).2 ⟨d, told_again, same⟩)

end Changes

/-! ## What stays gone -/

namespace FileTree.Gone

variable {t : FileTree} {names path : List Segment}

theorem put (gone : t.Gone path) (some_name : names ≠ []) {e : FileEntry} (plain : ∀ l, e ≠ .link l)
    (elsewhere : path ≠ names) : (t.put names e).Gone path := by
  refine ⟨?_, fun part before l leads => ?_⟩
  · rw [entry?_put some_name, if_neg elsewhere]
    exact gone.nothing
  · rw [entry?_put some_name] at leads
    split at leads
    · exact plain l (Option.some.inj leads)
    · exact gone.no_link part before l leads

theorem remove (gone : t.Gone path) (some_name : names ≠ []) : (t.remove names).Gone path := by
  refine ⟨?_, fun part before l leads => ?_⟩
  · rw [entry?_remove some_name]
    split
    · rfl
    · exact gone.nothing
  · rw [entry?_remove some_name] at leads
    split at leads
    · cases leads
    · exact gone.no_link part before l leads

theorem move (gone : t.Gone path) {source target : List Segment} (some_source : source ≠ [])
    (some_target : target ≠ []) (outside : ¬ source <+: target) (apart : ¬ target <+: source)
    (elsewhere : ¬ target <+: path) : (t.move source target).Gone path := by
  have moves := entry?_move (t := t) some_source some_target outside apart
  refine ⟨?_, fun part before l leads => ?_⟩
  · rw [moves, if_neg elsewhere]
    split
    · rfl
    · exact gone.nothing
  · have part_elsewhere : ¬ target <+: part := fun within => elsewhere (within.trans before)
    rw [moves, if_neg part_elsewhere] at leads
    split at leads
    · cases leads
    · exact gone.no_link part before l leads

end FileTree.Gone

open FileTree in
/-- **What is gone stays gone** under an edit whose event does not report it, unless that puts a
directory at it or above it. -/
theorem Edits.gone {t t' : FileTree} {edit : FileEdit} {path : List Segment} (before : t.Rooted)
    (edits : Edits t edit t') (gone : t.Gone path) (silent : ¬ Moment.Reports ⟨edit, t'⟩ path)
    (no_dir : ¬ Moment.PutsDirectory ⟨edit, t'⟩ path) : t'.Gone path := by
  cases edits with
  | @createFile names file fits stands free =>
      refine gone.put fits.some_name (by simp) ?_
      rintro rfl
      refine silent ⟨List.mem_singleton_self path, ?_⟩
      simp [entry?_put fits.some_name]
  | createDir fits stands free =>
      refine gone.put fits.some_name (by simp) ?_
      rintro rfl
      exact no_dir rfl
  | @write names file old fits leads =>
      refine gone.put fits.some_name (by simp) ?_
      rintro rfl
      rw [gone.nothing] at leads
      cases leads
  | remove fits leads plain => exact gone.remove fits.some_name
  | @rename source target e fits leads plain fits' stands outside gives =>
      have apart := before.apart leads outside gives
      have at_target : FileTree.entry? (t.move source target) target = some e := by
        rw [entry?_move fits.some_name fits'.some_name outside apart, if_pos List.prefix_rfl,
          List.drop_length, List.append_nil, leads]
      by_cases below : target <+: path
      · -- What was taken there is no directory, so it has nothing beneath it.
        have file : e ≠ .dir := by
          rintro rfl
          exact no_dir ⟨below, at_target⟩
        have after := (Edits.rename fits leads plain fits' stands outside gives).rooted before
        obtain ⟨rest, rfl⟩ := below
        by_cases here : rest = []
        · subst here
          refine absurd ⟨by simp [FileEdit.named], ?_⟩ silent
          rw [List.append_nil, at_target]
          exact fun same => file (Option.some.inj same)
        · exact after.gone_beneath at_target file plain here
      · exact gone.move fits.some_name fits'.some_name outside apart below

/-- **A path that is gone stays so**, as long as no event reports it and no directory is put at it
or above it. -/
theorem History.gone {t last : FileTree} {moments : List Moment} {path : List Segment}
    (history : History t moments last) (first : t.Rooted) (gone : t.Gone path)
    (silent : ∀ m ∈ moments, ¬ m.Reports path) (no_dir : ∀ m ∈ moments, ¬ m.PutsDirectory path) :
    last.Gone path := by
  induction history with
  | here t => exact gone
  | edit edits later ih =>
      have here := edits.gone first gone (silent _ List.mem_cons_self) (no_dir _ List.mem_cons_self)
      exact ih (edits.rooted first) here (fun m member => silent m (.tail _ member))
        fun m member => no_dir m (.tail _ member)

/-! ## What is removed, and is there -/

section Spared

variable {t last : FileTree} {moments : List Moment} {root names : List Segment}
  (history : History t moments last) (first : t.Rooted)

include history first

/-- What has come back in silence is removed, and is there. -/
theorem History.removed_of_comesBack (root_named : ∀ s ∈ root, Segment.IsName s)
    (below : root <+: names) (back : ComesBack moments last names) :
    FileEvent.changeAt root names .remove ∈ (Change.partition (changesOf root moments)).2 ∧
      ∃ e, last.stat (FileEvent.changeAt root names .remove).localPath = .ok e := by
  obtain ⟨before, gone, between, again, after, rfl, lost, silent, -, e, found⟩ := back
  have here : gone ∈ before ++ gone :: (between ++ again :: after) := by simp
  have named := (history.fits_of_mem first here lost.1).named
  refine ⟨(history.mem_removes_iff_lost first root_named).2
    ⟨names, below, ⟨before, gone, _, rfl, lost, silent⟩, rfl⟩, e, ?_⟩
  rwa [FileEvent.localPath_changeAt named below]

/-- What is lost and is there at the end has come back in silence. -/
theorem History.comesBack_of_found {e : FileEntry} (below : root <+: names)
    (lost : Lost moments names)
    (found : last.stat (FileEvent.changeAt root names .remove).localPath = .ok e) :
    ComesBack moments last names := by
  obtain ⟨before, gone, after, rfl, lost, silent⟩ := lost
  obtain ⟨mid, earlier, later⟩ := history.split
  have mid_rooted := earlier.rooted first
  cases later with
  | @edit _ next _ edit _ edits rest =>
      have fits := edits.fits lost.1
      rw [FileEvent.localPath_changeAt fits.named below] at found
      by_cases put : ∃ m ∈ after, m.PutsDirectory names
      · obtain ⟨back, member, puts⟩ := put
        obtain ⟨between, behind, rfl⟩ := List.append_of_mem member
        exact ⟨before, _, between, back, behind, rfl, lost, silent, puts, e, found⟩
      · have nowhere := (edits.rooted mid_rooted).gone (edits.around mid_rooted lost.1).1 lost.2
        have still := rest.gone (edits.rooted mid_rooted) nowhere silent
          fun m member puts => put ⟨m, member, puts⟩
        obtain ⟨error, missing⟩ := FileTree.stat_of_gone fits still
        rw [missing] at found
        cases found

end Spared

/-- **When a flush spares what is there.**  The initial tree is one that can be, and the edits are
what an operating system makes of it.  The paths that are removed although they lead to something in
the last tree are those under the root that come back in silence: the last that an event told is
that they are gone, while later a directory was made at them or renamed to them or above them.  So
no such path is removed just if none comes back. -/
theorem spares_iff {t last : FileTree} {moments : List Moment} {root : List Segment}
    (proper : t.Proper) (root_named : ∀ s ∈ root, Segment.IsName s)
    (history : History t moments last) :
    (∀ c, (c ∈ (Change.partition (changesOf root moments)).2 ∧
          ∃ e, last.stat c.localPath = .ok e) ↔
        ∃ names, root <+: names ∧ ComesBack moments last names ∧
          c = FileEvent.changeAt root names .remove) ∧
      ((∀ c ∈ (Change.partition (changesOf root moments)).2,
          ∀ e, last.stat c.localPath ≠ .ok e) ↔
        ∀ names, root <+: names → ¬ ComesBack moments last names) := by
  have first := proper.everything_rooted
  have each (c : Change) : (c ∈ (Change.partition (changesOf root moments)).2 ∧
        ∃ e, last.stat c.localPath = .ok e) ↔
      ∃ names, root <+: names ∧ ComesBack moments last names ∧
        c = FileEvent.changeAt root names .remove := by
    constructor
    · rintro ⟨removed, e, found⟩
      obtain ⟨names, below, lost, rfl⟩ := (history.mem_removes_iff_lost first root_named).1 removed
      exact ⟨names, below, history.comesBack_of_found first below lost found, rfl⟩
    · rintro ⟨names, below, back, rfl⟩
      exact history.removed_of_comesBack first root_named below back
  refine ⟨each, fun spared names below back => ?_, fun none_back c removed e found => ?_⟩
  · obtain ⟨removed, e, found⟩ := (each _).2 ⟨names, below, back, rfl⟩
    exact spared _ removed e found
  · obtain ⟨names, below, back, -⟩ := (each c).1 ⟨removed, e, found⟩
    exact none_back names below back

/-! ### A directory that is made again -/

/-- A watched directory with one file in a directory. -/
def nested : FileTree :=
  ⟨[([['a'], ['d'], ['f']], .file ⟨0o644, 0, .empty⟩), ([['a'], ['d']], .dir), ([['a']], .dir)],
    .ofString "/"⟩

theorem proper_nested : nested.Proper where
  named := by simp [nested, Segment.IsName]
  distinct := by simp [nested]
  rooted := by
    intro x member
    simp only [nested, List.mem_cons, List.not_mem_nil, or_false] at member
    rcases member with rfl | rfl | rfl <;> rfl

theorem fits_nested :
    Fits [['a'], ['d'], ['f']] ∧ Fits [['a'], ['d'], ['g']] ∧ Fits [['a'], ['d']] := by
  refine ⟨⟨?_, ?_, ?_, ?_⟩, ⟨?_, ?_, ?_, ?_⟩, ⟨?_, ?_, ?_, ?_⟩⟩ <;> decide

/-- **A flush may delete what is there.**  A directory is removed with its file, and both are made
again: the removal of the directory is kept, for no event tells that it is back, so the flush
uploads the file and then deletes the directory. -/
theorem removes_what_is_there :
    let file : File := ⟨0o644, 0, .empty⟩
    let bare := nested.remove [['a'], ['d'], ['f']]
    let barer := bare.remove [['a'], ['d']]
    let again := barer.put [['a'], ['d']] .dir
    let last := again.put [['a'], ['d'], ['f']] (.file file)
    let moments : List Moment :=
      [⟨.remove [['a'], ['d'], ['f']], bare⟩, ⟨.remove [['a'], ['d']], barer⟩,
        ⟨.createDir [['a'], ['d']], again⟩, ⟨.createFile [['a'], ['d'], ['f']] file, last⟩]
    let lost : Change := ⟨.ofString "/a", .ofString "d", .remove⟩
    nested.Proper ∧ History nested moments last ∧
      Change.partition (changesOf [['a']] moments) =
        ([⟨.ofString "/a", .ofString "d/f", .add⟩], [lost]) ∧
      last.stat lost.localPath = .ok .dir := by
  intro file bare barer again last moments lost
  obtain ⟨fits_file, -, fits_dir⟩ := fits_nested
  refine ⟨proper_nested, ?_, ?_, ?_⟩
  · refine .edit (.remove fits_file (e := .file file) rfl ?_)
      (.edit (.remove fits_dir (e := .dir) rfl ?_) ?_)
    · exact fun l same => nomatch same
    · exact fun l same => nomatch same
    · exact .edit (.createDir fits_dir rfl rfl) (.edit (.createFile fits_file rfl rfl) (.here _))
  · decide +kernel
  · rfl

/-- Where only files are made and renamed, nothing comes back in silence. -/
theorem spares_iff_of_files :
    let file : File := ⟨0o644, 0, .empty⟩
    let other := nested.move [['a'], ['d'], ['f']] [['a'], ['d'], ['g']]
    let last := other.put [['a'], ['d'], ['f']] (.file file)
    let moments : List Moment := [⟨.rename [['a'], ['d'], ['f']] [['a'], ['d'], ['g']], other⟩,
      ⟨.createFile [['a'], ['d'], ['f']] file, last⟩]
    nested.Proper ∧ (∀ s ∈ [['a']], Segment.IsName s) ∧ History nested moments last ∧
      ∀ c ∈ (Change.partition (changesOf [['a']] moments)).2,
        ∀ e, last.stat c.localPath ≠ .ok e := by
  intro file other last moments
  obtain ⟨fits, fits', -⟩ := fits_nested
  have root_named : ∀ s ∈ [['a']], Segment.IsName s := by decide
  have history : History nested moments last := by
    refine .edit (.rename fits (e := .file file) rfl ?_ fits' rfl ?_ ?_) ?_
    · exact fun l same => nomatch same
    · decide
    · exact trivial
    · exact .edit (.createFile fits rfl rfl) (.here _)
  refine ⟨proper_nested, root_named, history, (spares_iff proper_nested root_named history).2.2 ?_⟩
  rintro names - ⟨before, gone, between, back, after, text, -, -, puts, -⟩
  have member : back ∈ moments := by simp [text]
  rcases List.mem_pair.1 member with rfl | rfl
  · cases puts.2
  · exact puts

end DevMode
