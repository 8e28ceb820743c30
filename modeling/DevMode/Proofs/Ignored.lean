/-
# DevMode.Proofs.Ignored -- what ignore rules say of the names below their directory

By what names lead to it, a path is excluded as the nearest part of it is that a rule speaks of
(`judges`).  Rules judge a path so if their directory is spelled as the path is, absolute and
without steps up (`isIgnored_of_settled`); a directory spelled otherwise is never found in front
of the path, and its rules exclude nothing (`isIgnored_of_unsettled`).

* `drops_iff` follows the spelling from the root of an app to the events of a watched source.
* `unbound_of_spelling` is an app whose rules hold under one spelling of their directory only.
-/
import DevMode.Build.Context
import DevMode.FileEvent
import DevMode.Proofs.Containment

namespace DevMode

set_option autoImplicit false

namespace BuildContext

variable {names : List Segment} (named : ∀ s ∈ names, Segment.IsName s)

include named

/-- Names below a directory are joined as one way. -/
theorem pathOf_eq (dir : LocalPath) (some_name : names ≠ []) :
    pathOf dir names = dir.join (.way names) := by
  induction names generalizing dir with
  | nil => exact absurd rfl some_name
  | cons s ss ih =>
      have first : ∀ t ∈ [s], Segment.IsName t := fun t member => named t (by simp_all)
      have later : ∀ t ∈ ss, Segment.IsName t := fun t member => named t (by simp [member])
      by_cases last : ss = []
      · subst last
        rfl
      · have further : pathOf dir (s :: ss) = pathOf (dir.join (.way [s])) ss := rfl
        rw [further, ih later _ last,
          LocalPath.join_join_way first dir (List.cons_ne_nil s []) later last, List.singleton_append]

/-- **The names below a directory are what is left of a path in it.** -/
theorem relativeTo?_pathOf (dir : LocalPath) :
    (pathOf dir names).relativeTo? dir = some (.way names) := by
  by_cases none_below : names = []
  · subst none_below
    exact LocalPath.relativeTo?_self dir
  · rw [pathOf_eq named dir none_below]
    exact LocalPath.relativeTo?_join named dir none_below

end BuildContext

namespace Ignore.Ruleset

open LocalPath

/-! ## The nearest part that a rule speaks of -/

/-- The directories on the way to names, the nearest first and the start last. -/
def above (names : List Segment) : List (List Segment) :=
  (List.range names.length).reverse.map names.take

/-- What rules say of the nearest part that one of them speaks of. -/
def nearest? (rules : List Rule) (names : List Segment) (isDir : Bool) : Option Bool :=
  (verdict? rules (way names) isDir).or
    ((above names).findSome? fun dir => verdict? rules (way dir) true)

/-- Whether rules exclude what names lead to from their directory on. -/
def judges (rules : List Rule) (names : List Segment) (isDir : Bool) : Bool :=
  (nearest? rules names isDir).getD false

theorem above_concat (names : List Segment) (last : Segment) :
    above (names ++ [last]) = names :: above names := by
  rw [above, List.length_append, List.length_singleton, List.range_succ, List.reverse_concat,
    List.map_cons, List.take_left, above]
  congr 1
  refine List.map_congr_left fun n member => ?_
  have short : n < names.length := List.mem_range.1 (List.mem_reverse.1 member)
  exact List.take_append_of_le_length (Nat.le_of_lt short)

theorem mem_above {names dir : List Segment} :
    dir ∈ above names ↔ ∃ k < names.length, dir = names.take k := by
  simp only [above, List.mem_map, List.mem_reverse, List.mem_range, eq_comm]

theorem above_subset {names dir : List Segment} (member : dir ∈ above names) :
    above dir ⊆ above names := by
  obtain ⟨k, short, rfl⟩ := mem_above.1 member
  intro part inside
  obtain ⟨j, shorter, rfl⟩ := mem_above.1 inside
  rw [List.length_take] at shorter
  refine mem_above.2 ⟨j, by omega, ?_⟩
  rw [List.take_take, Nat.min_eq_left (by omega)]

@[simp] theorem judges_nil (names : List Segment) (isDir : Bool) : judges [] names isDir = false := by
  have silent : ∀ dirs : List (List Segment),
      (dirs.findSome? fun dir => verdict? [] (way dir) true) = none :=
    fun dirs => List.findSome?_eq_none_iff.2 fun _ _ => rfl
  rw [judges, nearest?, silent]
  rfl

/-- A rule that takes nothing back can only exclude. -/
theorem verdict?_of_plain {rules : List Rule} (plain : ∀ r ∈ rules, r.restores = false)
    {path : LocalPath} {isDir excluded : Bool}
    (verdict : verdict? rules path isDir = some excluded) : excluded = true := by
  obtain ⟨r, found, rfl⟩ := Option.map_eq_some_iff.1 verdict
  rw [plain r (List.mem_reverse.1 (List.mem_of_find?_eq_some found))]
  rfl

/-- Rules that take nothing back exclude what one of them speaks of, be it itself or a directory
on the way to it. -/
theorem judges_iff_of_plain {rules : List Rule} (plain : ∀ r ∈ rules, r.restores = false)
    {names : List Segment} {isDir : Bool} :
    judges rules names isDir = true ↔
      (∃ v, verdict? rules (way names) isDir = some v) ∨
        ∃ part ∈ above names, ∃ v, verdict? rules (way part) true = some v := by
  rw [judges, nearest?]
  cases own : verdict? rules (way names) isDir with
  | some v =>
      obtain rfl := verdict?_of_plain plain own
      simp
  | none =>
      cases found : (above names).findSome? fun part => verdict? rules (way part) true with
      | none =>
          have silent := List.findSome?_eq_none_iff.1 found
          simp +contextual [silent]
      | some v =>
          obtain ⟨part, inside, verdict⟩ := List.exists_of_findSome?_eq_some found
          obtain rfl := verdict?_of_plain plain verdict
          exact iff_of_true rfl (.inr ⟨part, inside, true, verdict⟩)

/-- **Without a rule that takes something back, all below an excluded directory is excluded.** -/
theorem judges_of_above {rules : List Rule} (plain : ∀ r ∈ rules, r.restores = false)
    {names dir : List Segment} (member : dir ∈ above names)
    (excluded : judges rules dir true = true) (isDir : Bool) : judges rules names isDir = true := by
  refine (judges_iff_of_plain plain).2 (.inr ?_)
  rcases (judges_iff_of_plain plain).1 excluded with ⟨v, verdict⟩ | ⟨part, inside, spoken⟩
  · exact ⟨dir, member, v, verdict⟩
  · exact ⟨part, above_subset member inside, spoken⟩

theorem after?_dot_of_leadless {p : LocalPath} (leadless : p.split.1 = none) :
    Text.after? ['.', '/'] p.chars = none := by
  cases found : Text.after? ['.', '/'] p.chars with
  | none => rfl
  | some rest =>
      obtain rfl : p = ⟨'.' :: '/' :: rest⟩ := congrArg LocalPath.mk (Text.after?_eq_some_iff.1 found)
      have current : split ⟨'.' :: '/' :: rest⟩ = (some .current, Text.pieces '/' rest) := rfl
      rw [current] at leadless
      cases leadless

/-- From an absolute directory, rules see a path without a lead as it is. -/
theorem seenFrom_of_leadless {root p : LocalPath} (absolute : root.isAbsolute = true)
    (leadless : p.split.1 = none) : seenFrom root p = p := by
  obtain ⟨y, rfl⟩ := exists_slash absolute
  have lead : Text.after? ('/' :: y) p.chars = none := by
    cases found : Text.after? ('/' :: y) p.chars with
    | none => rfl
    | some rest =>
        obtain rfl : p = ⟨'/' :: (y ++ rest)⟩ := congrArg LocalPath.mk (Text.after?_eq_some_iff.1 found)
        rw [split_slash] at leadless
        cases leadless
  have anchor : Text.after? ['.', '/'] ('/' :: y) = none := rfl
  simp only [seenFrom, after?_dot_of_leadless leadless, anchor, Option.getD_none, lead]
  split <;> rfl

/-- Climbing from what busy segments spell takes one of them after the other away. -/
theorem ancestors_way_busy {ss : List Segment} (busy : ∀ s ∈ ss, IsBusy s) {fuel : Nat}
    (enough : ss.length ≤ fuel) : ancestors fuel (way ss) = (above ss).map way := by
  induction fuel generalizing ss with
  | zero =>
      obtain rfl := List.length_eq_zero_iff.1 (Nat.le_zero.1 enough)
      rfl
  | succ fuel ih =>
      rcases List.eq_nil_or_concat ss with rfl | ⟨front, last, rfl⟩
      · rfl
      · rw [List.concat_eq_append] at busy enough ⊢
        have front_busy : ∀ s ∈ front, IsBusy s := fun s member => busy s (by simp [member])
        have parent := parent?_way_busy front_busy (busy last (by simp))
        have later := ih front_busy (by simpa using enough)
        simp only [ancestors, parent, above_concat, List.map_cons, later]

section Names

variable {names : List Segment} (named : ∀ s ∈ names, Segment.IsName s)

include named

theorem ancestors_way {fuel : Nat} (enough : names.length ≤ fuel) :
    ancestors fuel (way names) = (above names).map way :=
  ancestors_way_busy (names_busy named) enough

theorem after?_dot_way : Text.after? ['.', '/'] (way names).chars = none :=
  after?_dot_of_leadless (by rw [split_way named])

/-- From an absolute directory, rules see a way as it is. -/
theorem seenFrom_way {root : LocalPath} (absolute : root.isAbsolute = true) :
    seenFrom root (way names) = way names :=
  seenFrom_of_leadless absolute (by rw [split_way named])

omit named in
/-- From nowhere, rules see what names lead to from the root. -/
theorem seenFrom_ofNames (names : List Segment) : seenFrom ⟨[]⟩ (ofNames names) = way names := by
  have dot : Text.after? ['.', '/'] (ofNames names).chars = none := rfl
  have anchor : Text.after? ['.', '/'] ([] : List Char) = none := rfl
  have lead : Text.after? [] (ofNames names).chars = some (ofNames names).chars := rfl
  have slash : Text.after? ['/'] (ofNames names).chars = some (Text.glue '/' names) :=
    Text.after?_eq_some_iff.2 rfl
  have cut : ¬ LocalPath.Same ⟨[]⟩ ⟨['.']⟩ ∧ '/' ∈ (ofNames names).chars :=
    ⟨by decide, List.mem_cons_self⟩
  simp only [seenFrom, dot, anchor, Option.getD_none, if_pos cut, lead, slash, Option.getD_some]
  rfl

theorem excludes_of_seenFrom {s : Ruleset} {rel : LocalPath} (seen : seenFrom s.root rel = way names)
    (isDir : Bool) : s.excludes rel isDir = judges s.rules names isDir := by
  unfold excludes
  split
  · rename_i silent
    rw [List.isEmpty_iff.1 silent, judges_nil]
  · have enough : names.length ≤ (way names).chars.length := length_le_glue named
    simp only [seen, ancestors_way named enough, List.findSome?_map, judges, nearest?]
    cases verdict? s.rules (way names) isDir <;> rfl

/-! ## How the directory of rules is spelled -/

theorem isIgnored_eq (s : Ruleset) {p rel : LocalPath} (below : p.relativeTo? s.root = some rel)
    (some_rel : rel.chars ≠ []) (seen : seenFrom s.root rel = way names) (isDir : Bool) :
    s.isIgnored p isDir = judges s.rules names isDir := by
  simp only [isIgnored, below, if_neg some_rel]
  exact excludes_of_seenFrom named seen isDir

/-- Rules of an absolute directory judge what is spelled behind it by its names. -/
theorem isIgnored_pathOf {s : Ruleset} (absolute : s.root.isAbsolute = true)
    (some_name : names ≠ []) (isDir : Bool) :
    s.isIgnored (BuildContext.pathOf s.root names) isDir = judges s.rules names isDir :=
  isIgnored_eq named s (BuildContext.relativeTo?_pathOf named s.root) (glue_ne_nil named some_name)
    (seenFrom_way named absolute) isDir

/-- **Rules judge a path by the names below their directory** if that is absolute and does not
climb. -/
theorem isIgnored_of_settled {s : Ruleset} (settled : s.root.Settled) (some_name : names ≠ [])
    {p : LocalPath} (spells : p.Spells (s.root.place ++ names)) (isDir : Bool) :
    s.isIgnored p isDir = judges s.rules names isDir := by
  have all_named : ∀ n ∈ s.root.place ++ names, Segment.IsName n :=
    List.forall_mem_append.2 ⟨place_isName _, named⟩
  obtain ⟨tail, tail_idle, split⟩ := spells.split_eq all_named
  have directory : s.root.components = .root :: Component.ofSegments s.root.place := by
    rw [ofSegments_names (place_isName _)]
    exact components_of_level settled.absolute settled.level
  rw [List.append_assoc] at split
  have below :=
    relativeTo?_of_split named tail_idle split directory (isAbsolute.ne_nil settled.absolute)
  exact isIgnored_eq named s below (glue_ne_nil named some_name)
    (seenFrom_way named settled.absolute) isDir

/-- Rules without a directory judge a path by all its names. -/
theorem isIgnored_of_empty {s : Ruleset} (empty : s.root = ⟨[]⟩) {p : LocalPath}
    (spells : p.Spells names) (isDir : Bool) :
    s.isIgnored p isDir = judges s.rules names isDir := by
  obtain ⟨tail, tail_idle, split⟩ := spells.split_eq named
  have below : p.relativeTo? s.root = some (ofNames names) := by
    rw [empty, relativeTo?, split]
    exact congrArg (fun segments => some (build (some .root) segments))
      (dropIdleEnd_append named tail_idle)
  refine isIgnored_eq named s below (List.cons_ne_nil _ _) ?_ isDir
  rw [empty, seenFrom_ofNames]

/-- **Rules whose directory is relative or climbs exclude nothing.** -/
theorem isIgnored_of_unsettled {s : Ruleset} (some_root : s.root.chars ≠ [])
    (unsettled : ¬ s.root.Settled) {p : LocalPath} (spells : p.Spells names) (isDir : Bool) :
    s.isIgnored p isDir = false := by
  have level : Component.parent ∉ p.components := by
    rw [spells.components named]
    simp
  have odd : s.root.isAbsolute = false ∨ .parent ∈ s.root.components := by
    cases absolute : s.root.isAbsolute with
    | false => exact .inl rfl
    | true =>
        by_cases climbs : .parent ∈ s.root.components
        · exact .inr climbs
        · exact absurd (settled_of_level absolute climbs) unsettled
  have none_below := relativeTo?_eq_none spells.isAbsolute level some_root odd
  simp only [isIgnored, none_below]

end Names

/-! ## Events of a source -/

theorem inDir?_root {tree : FileTree} {dir : LocalPath} {s : Ruleset}
    (found : inDir? tree dir = .ok (some s)) : s.root = dir := by
  unfold inDir? at found
  dsimp only at found
  split at found
  · cases found
  · cases found
  · split at found
    · rename_i read
      obtain ⟨rules, -, same⟩ := exists_of_bind read
      obtain rfl := Except.ok.inj same
      obtain rfl := Option.some.inj (Except.ok.inj found)
      rfl
    · cases found

/-- Rules for a service stand in its build directory or in the root, as these are spelled. -/
theorem forService_root {tree : FileTree} {root : LocalPath} {service : Service} {rules : Ruleset}
    (selected : forService tree root service = .ok rules) :
    rules.root = service.buildDir root ∨ rules.root = root := by
  obtain ⟨nearer?, looked, later⟩ := exists_of_bind selected
  cases nearer? with
  | some s =>
      obtain rfl := Except.ok.inj later
      exact .inl (inDir?_root looked)
  | none =>
      obtain ⟨farther?, looked, later⟩ := exists_of_bind later
      cases farther? with
      | some s =>
          obtain rfl := Except.ok.inj later
          exact .inr (inDir?_root looked)
      | none =>
          obtain rfl := Except.ok.inj later
          exact .inl rfl

end Ignore.Ruleset

namespace FileEvent

/-- An event of what is no directory counts for nothing just if the path is ignored. -/
theorem changes_eq_nil_iff {kind : EventKind} {path : LocalPath} (now : FileTree)
    (base : LocalPath) {watchRoot rel : LocalPath} (rules : Ignore.Ruleset)
    (matters : FileEvent.matters ⟨kind, [path]⟩ = true)
    (below : path.relativeTo? watchRoot = some rel) (no_dir : now.isDir path = false) :
    FileEvent.changes ⟨kind, [path]⟩ now base watchRoot rules = [] ↔
      rules.isIgnored (if rel.chars = [] then base else base.join rel) false = true := by
  have told : FileEvent.changes ⟨kind, [path]⟩ now base watchRoot rules =
      (change? now base watchRoot rules path).toList := by
    rw [changes, if_pos matters]
    cases found : change? now base watchRoot rules path <;> simp [found]
  rw [told, Option.toList_eq_nil_iff]
  simp only [change?, below, no_dir]
  by_cases ignored : rules.isIgnored (if rel.chars = [] then base else base.join rel) false = true
  · simp only [ignored, if_true]
  · simp only [ignored]
    unfold FileTree.isDir at no_dir
    cases leads : now.stat path with
    | error e => simp
    | ok entry => cases entry <;> simp_all

/-- **When an event of a file is dropped.**  The file lies beneath the directory of the ignore
file that was selected, by the names `behind`.  If that directory is spelled absolute and without
steps up, the event is dropped just if the rules exclude these names.  Otherwise it is kept
whatever the rules are, save for those of an empty root, which are asked about all names of the
file. -/
theorem drops_iff {service : Service} {tree : FileTree} {root : LocalPath}
    {inspector : Recipe.Inspector} {found : List Source} {source : Source} {rules : Ignore.Ruleset}
    (cwd : tree.current.isAbsolute = true)
    (resolved : service.sources tree root inspector = .ok found) (member : source ∈ found)
    (selected : Ignore.Ruleset.forService tree root service = .ok rules)
    {below behind : List Segment} (named : ∀ s ∈ below, Segment.IsName s)
    (beneath : source.path.place ++ below = (rules.root.against tree.current).place ++ behind)
    (inside : behind ≠ [])
    (now : FileTree) (watchRoot : LocalPath) {kind : EventKind}
    (matters : FileEvent.matters ⟨kind, [BuildContext.pathOf watchRoot below]⟩ = true)
    (no_dir : now.isDir (BuildContext.pathOf watchRoot below) = false) :
    (rules.root = service.buildDir root ∨ rules.root = root) ∧
    (FileEvent.changes ⟨kind, [BuildContext.pathOf watchRoot below]⟩ now source.path watchRoot
        rules = [] ↔
      (rules.root.Settled ∧ Ignore.Ruleset.judges rules.rules behind false = true) ∨
      (rules.root = ⟨[]⟩ ∧
        Ignore.Ruleset.judges rules.rules (source.path.place ++ below) false = true)) := by
  refine ⟨Ignore.Ruleset.forService_root selected, ?_⟩
  obtain ⟨_, operand, -, -, spells⟩ := Service.exists_copy_of_mem_sources cwd resolved member
  rw [← spells.place_eq (LocalPath.place_isName _)] at spells
  have all_named : ∀ s ∈ source.path.place ++ below, Segment.IsName s :=
    List.forall_mem_append.2 ⟨LocalPath.place_isName _, named⟩
  have behind_named : ∀ s ∈ behind, Segment.IsName s :=
    fun s here => all_named s (by simp [beneath, here])
  have below_spells := spells.localPath (LocalPath.place_isName _) named
  rw [changes_eq_nil_iff now source.path rules matters
    (BuildContext.relativeTo?_pathOf named watchRoot) no_dir]
  by_cases empty : rules.root = ⟨[]⟩
  · have unsettled : ¬ LocalPath.Settled ⟨[]⟩ := fun settled => absurd settled.absolute (by decide)
    rw [Ignore.Ruleset.isIgnored_of_empty all_named empty below_spells]
    simp only [empty, unsettled, false_and, true_and, false_or]
  · by_cases settled : rules.root.Settled
    · rw [beneath, LocalPath.against_of_isAbsolute settled.absolute] at below_spells
      rw [Ignore.Ruleset.isIgnored_of_settled behind_named settled inside below_spells]
      simp only [settled, empty, true_and, false_and, or_false]
    · have some_root : rules.root.chars ≠ [] := fun none_left => empty (congrArg LocalPath.mk none_left)
      rw [Ignore.Ruleset.isIgnored_of_unsettled all_named some_root settled below_spells]
      simp only [settled, empty, false_and, or_false, Bool.false_eq_true]

/-! ### One directory under several spellings -/

/-- An app that ignores its logs. -/
def loggingApp : FileTree :=
  ⟨[(["app".toList, "Dockerfile".toList], .file ⟨0o644, 0, "COPY . /srv\n".toUTF8⟩),
    (["app".toList, ".dockerignore".toList], .file ⟨0o644, 0, "*.log\n".toUTF8⟩),
    (["app".toList, "debug.log".toList], .file ⟨0o644, 0, .empty⟩),
    (["app".toList, "lib".toList], .dir), (["app".toList], .dir)], .ofString "/"⟩

def loggingSource : Source := ⟨.ofString "/app/", "/srv"⟩

/-- The changes for a log that is written, and whether the rules exclude its name. -/
def logChanges (rules : Ignore.Ruleset) : List Change × Bool :=
  (FileEvent.changes ⟨.modify, [.ofString "/app/debug.log"]⟩ loggingApp loggingSource.path
    (.ofString "/app") rules, Ignore.Ruleset.judges rules.rules ["debug.log".toList] false)

/-- **Rules do not bind under every spelling of their directory.**  The source is the same, and
so are the rules, which exclude the log, but only the plain absolute spelling has it dropped: a
relative root or a build path that climbs lets it through. -/
theorem unbound_of_spelling :
    let sources (path root : String) :=
      Service.sources ⟨"web", ⟨path, "Dockerfile"⟩, none⟩ loggingApp (.ofString root)
        Service.noImages
    let changes (path root : String) :=
      (Ignore.Ruleset.forService loggingApp (.ofString root)
        ⟨"web", ⟨path, "Dockerfile"⟩, none⟩).map logChanges
    let through := [⟨loggingSource.path, .ofString "debug.log", .add⟩]
    sources "." "/app" = .ok [loggingSource] ∧ changes "." "/app" = .ok ([], true) ∧
      sources "." "app" = .ok [loggingSource] ∧ changes "." "app" = .ok (through, true) ∧
      sources "lib/.." "/app" = .ok [loggingSource] ∧
        changes "lib/.." "/app" = .ok (through, true) := by
  decide +kernel

/-- Under the absolute root, what is dropped is what the rules exclude. -/
theorem drops_iff_of_absolute_root :
    let root := LocalPath.ofString "/app"
    let below : List Segment := ["debug.log".toList]
    let path := BuildContext.pathOf root below
    loggingApp.current.isAbsolute = true ∧
      Service.web.sources loggingApp root Service.noImages = .ok [loggingSource] ∧
      loggingSource ∈ [loggingSource] ∧ (∀ s ∈ below, Segment.IsName s) ∧ below ≠ [] ∧
      FileEvent.matters ⟨.modify, [path]⟩ = true ∧ loggingApp.isDir path = false ∧
      ∃ rules, Ignore.Ruleset.forService loggingApp root Service.web = .ok rules ∧
        loggingSource.path.place ++ below =
          (rules.root.against loggingApp.current).place ++ below ∧
        (rules.root = Service.web.buildDir root ∨ rules.root = root) ∧
        (FileEvent.changes ⟨.modify, [path]⟩ loggingApp loggingSource.path root rules = [] ↔
          (rules.root.Settled ∧ Ignore.Ruleset.judges rules.rules below false = true) ∨
          (rules.root = ⟨[]⟩ ∧
            Ignore.Ruleset.judges rules.rules (loggingSource.path.place ++ below) false = true)) := by
  intro root below path
  have cwd : loggingApp.current.isAbsolute = true := by decide
  have resolved : Service.web.sources loggingApp root Service.noImages = .ok [loggingSource] := by
    decide +kernel
  have member : loggingSource ∈ [loggingSource] := List.mem_singleton_self _
  have named : ∀ s ∈ below, Segment.IsName s := by decide
  have inside : below ≠ [] := List.cons_ne_nil _ _
  have matters : FileEvent.matters ⟨.modify, [path]⟩ = true := rfl
  have no_dir : loggingApp.isDir path = false := by decide +kernel
  have loads : (Ignore.Ruleset.forService loggingApp root Service.web).toOption.map
      (·.root) = some (Service.web.buildDir root) := by decide +kernel
  obtain ⟨rules, selected, spelled⟩ := exists_of_toOption loads
  have beneath : loggingSource.path.place ++ below =
      (rules.root.against loggingApp.current).place ++ below := by
    rw [spelled]
    decide
  exact ⟨cwd, resolved, member, named, inside, matters, no_dir, rules, selected, beneath,
    drops_iff cwd resolved member selected named beneath inside loggingApp root matters no_dir⟩

end FileEvent

end DevMode
