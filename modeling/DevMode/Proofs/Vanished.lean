/-
# DevMode.Proofs.Vanished -- what is told of an excluded directory that is gone

Some rules speak of directories only, and a path that leads nowhere is taken for a file.  So an
event that names a directory which was just deleted is judged as if it named a file: it tells of a
removal unless the rules exclude that file.

* `verdict?_file`: of a file, rules say what those among them say that are not for directories
  only.
* `isIgnored_only_dir_iff`: a path is excluded as a directory but not as a file just if its
  exclusion rests on a rule for directories only (`Ruleset.RestsOnDirs`).
* `told_of_gone_iff` puts these together, and `tells_of_excluded` is a directory that is excluded
  by such a rule and whose removal is told.
-/
import DevMode.FileEvent
import DevMode.Proofs.World

namespace DevMode

set_option autoImplicit false

namespace Ignore

/-! ## Rules for directories only -/

theorem Rule.applies_file (r : Rule) (path : LocalPath) :
    r.applies path false = (!r.onlyDirs && r.applies path true) := by
  simp [applies]

namespace Ruleset

/-- The rules that speak of files too. -/
def forFiles (rules : List Rule) : List Rule := rules.filter (!·.onlyDirs)

/-- The rule that has the last word on a path that leads to a directory. -/
def decider? (rules : List Rule) (path : LocalPath) : Option Rule :=
  rules.reverse.find? (·.applies path true)

/-- What rules say of the nearest directory above a path that one of them speaks of. -/
def inherits (rules : List Rule) (path : LocalPath) : Bool :=
  ((ancestors path.chars.length path).findSome? (verdict? rules · true)).getD false

/-- Whether rules would exclude a path if those for directories only did not speak of the path
itself. -/
def excludesAnyway (rules : List Rule) (path : LocalPath) : Bool :=
  (verdict? (forFiles rules) path true).getD (inherits rules path)

/-- **Of a file, only the rules speak that are not for directories only.** -/
theorem verdict?_file (rules : List Rule) (path : LocalPath) :
    verdict? rules path false = verdict? (forFiles rules) path true := by
  rw [verdict?, verdict?, forFiles, ← List.filter_reverse, List.find?_filter]
  simp only [Rule.applies_file, Bool.decide_and, Bool.decide_eq_true]

theorem decider?_forFiles {rules : List Rule} {path : LocalPath} {r : Rule}
    (decides : decider? rules path = some r) (for_files : r.onlyDirs = false) :
    decider? (forFiles rules) path = some r := by
  obtain ⟨applies, later, earlier, text, silent⟩ := List.find?_eq_some_iff_append.1 decides
  rw [decider?, forFiles, ← List.filter_reverse, text, List.filter_append,
    List.filter_cons_of_pos (by simp [for_files])]
  exact List.find?_eq_some_iff_append.2
    ⟨applies, _, _, rfl, fun r' member => silent r' (List.mem_filter.1 member).1⟩

theorem excludes_eq (s : Ruleset) (rel : LocalPath) (isDir : Bool) :
    s.excludes rel isDir = (verdict? s.rules (seenFrom s.root rel) isDir).getD
      (inherits s.rules (seenFrom s.root rel)) := by
  unfold excludes
  split
  · rename_i silent
    rw [List.isEmpty_iff.1 silent, inherits]
    exact (congrArg (·.getD false) (List.findSome?_eq_none_iff.2 fun _ _ => rfl)).symm
  · dsimp only
    cases verdict? s.rules (seenFrom s.root rel) isDir <;> rfl

theorem excludes_file (s : Ruleset) (rel : LocalPath) :
    s.excludes rel false = excludesAnyway s.rules (seenFrom s.root rel) := by
  rw [excludes_eq, verdict?_file, excludesAnyway]

/-- What is excluded as a directory is excluded as a file too, unless a rule for directories only
has the last word. -/
theorem excludes_only_dir_iff (s : Ruleset) (rel : LocalPath) :
    (s.excludes rel true = true ∧ s.excludes rel false = false) ↔
      (∃ r, decider? s.rules (seenFrom s.root rel) = some r ∧ r.onlyDirs = true ∧
        r.restores = false) ∧ excludesAnyway s.rules (seenFrom s.root rel) = false := by
  rw [excludes_file, excludes_eq]
  generalize seenFrom s.root rel = path
  refine and_congr_left fun spared => ?_
  cases decides : decider? s.rules path with
  | none =>
      -- Where no rule speaks of the directory, none speaks of the file.
      have silent : verdict? s.rules path true = none := by
        rw [verdict?]
        exact congrArg (Option.map _) decides
      have silent_on_file : verdict? (forFiles s.rules) path true = none := by
        rw [verdict?, Option.map_eq_none_iff, forFiles, ← List.filter_reverse, List.find?_eq_none]
        exact fun r member => List.find?_eq_none.1 decides r (List.mem_filter.1 member).1
      rw [excludesAnyway, silent_on_file, Option.getD_none] at spared
      rw [silent, Option.getD_none, spared]
      simp
  | some r =>
      have spoken : verdict? s.rules path true = some (!r.restores) := by
        rw [verdict?]
        exact congrArg (Option.map _) decides
      rw [spoken, Option.getD_some]
      simp only [Option.some.injEq, exists_eq_left', Bool.not_eq_true']
      refine ⟨fun excludes => ⟨?_, excludes⟩, And.right⟩
      cases for_dirs : r.onlyDirs with
      | true => rfl
      | false =>
          have spoken_of_file : verdict? (forFiles s.rules) path true = some (!r.restores) := by
            rw [verdict?]
            exact congrArg (Option.map _) (decider?_forFiles decides for_dirs)
          rw [excludesAnyway, spoken_of_file, excludes] at spared
          cases spared

/-- The exclusion of a path rests on a rule for directories only: such a rule has the last word on
it, and without them it would not be excluded. -/
def RestsOnDirs (s : Ruleset) (path : LocalPath) : Prop :=
  ∃ rel, path.relativeTo? s.root = some rel ∧ rel.chars ≠ [] ∧
    (∃ r, decider? s.rules (seenFrom s.root rel) = some r ∧ r.onlyDirs = true ∧
      r.restores = false) ∧ excludesAnyway s.rules (seenFrom s.root rel) = false

/-- **A path is excluded as a directory only** just if its exclusion rests on a rule for
directories only. -/
theorem isIgnored_only_dir_iff (s : Ruleset) (path : LocalPath) :
    (s.isIgnored path true = true ∧ s.isIgnored path false = false) ↔ s.RestsOnDirs path := by
  unfold isIgnored RestsOnDirs
  cases below : path.relativeTo? s.root with
  | none => simp
  | some rel =>
      by_cases whole : rel.chars = []
      · simp [whole]
      · simp only [whole, if_false, excludes_only_dir_iff, Option.some.injEq, exists_eq_left', ne_eq,
          not_false_eq_true, true_and]

theorem RestsOnDirs.exists_rule {s : Ruleset} {path : LocalPath} (rests : s.RestsOnDirs path) :
    ∃ r ∈ s.rules, r.onlyDirs = true := by
  obtain ⟨rel, -, -, ⟨r, decides, only_dirs, -⟩, -⟩ := rests
  exact ⟨r, List.mem_reverse.1 (List.mem_of_find?_eq_some decides), only_dirs⟩

end Ruleset

end Ignore

namespace FileEvent

/-! ## Events of what is gone -/

variable {tree : FileTree} {base watchRoot path rel : LocalPath} {rules : Ignore.Ruleset}

/-- Where the rules look for a path that an event names. -/
def placeOf (base rel : LocalPath) : LocalPath := if rel.chars = [] then base else base.join rel

/-- The change of a path that is watched, unless it leads to a directory or is excluded as a
file. -/
theorem change?_of_below (below : path.relativeTo? watchRoot = some rel) :
    change? tree base watchRoot rules path =
      if tree.isDir path || rules.isIgnored (placeOf base rel) false then none
      else some ⟨base, rel, if (tree.stat path).isOk then .add else .remove⟩ := by
  simp only [change?, below]
  rcases leads : tree.stat path with error | (_ | file | target)
  all_goals simp only [FileTree.isDir, leads]
  · rfl
  · simp
  · rfl
  · rfl

theorem exists_below_of_change? {c : Change} (told : change? tree base watchRoot rules path = some c) :
    ∃ rel, path.relativeTo? watchRoot = some rel := by
  cases below : path.relativeTo? watchRoot with
  | none => simp [change?, below] at told
  | some rel => exact ⟨rel, rfl⟩

/-- **What an event tells of a path that leads nowhere.**  It tells of it just if the rules do not
exclude it as a file, and then of its removal.  If they exclude it as a directory, it is told just
if its exclusion rests on a rule for directories only, so never without such rules. -/
theorem told_of_gone_iff {e : FileEvent} (matters : e.matters = true) (named : path ∈ e.paths)
    (below : path.relativeTo? watchRoot = some rel) (gone : ∃ error, tree.stat path = .error error) :
    let told := ∃ c ∈ e.changes tree base watchRoot rules, c.path = rel
    (told ↔ rules.isIgnored (placeOf base rel) false = false) ∧
      (told → ⟨base, rel, .remove⟩ ∈ e.changes tree base watchRoot rules) ∧
      (rules.isIgnored (placeOf base rel) true = true →
        (told ↔ rules.RestsOnDirs (placeOf base rel)) ∧
          ((∀ r ∈ rules.rules, r.onlyDirs = false) → ¬ told)) := by
  intro told
  have spared_of_told : told → rules.isIgnored (placeOf base rel) false = false := by
    rintro ⟨c, member, rfl⟩
    rw [changes, if_pos matters] at member
    obtain ⟨path', -, tells⟩ := List.mem_filterMap.1 member
    obtain ⟨rel', below'⟩ := exists_below_of_change? tells
    rw [change?_of_below below'] at tells
    split at tells
    · cases tells
    · rename_i kept
      obtain rfl := Option.some.inj tells
      exact (Bool.or_eq_false_iff.1 (Bool.not_eq_true _ ▸ kept)).2
  have removal_of_spared (spared : rules.isIgnored (placeOf base rel) false = false) :
      ⟨base, rel, .remove⟩ ∈ e.changes tree base watchRoot rules := by
    obtain ⟨error, missing⟩ := gone
    rw [changes, if_pos matters]
    refine List.mem_filterMap.2 ⟨path, named, ?_⟩
    rw [change?_of_below below, FileTree.isDir, missing, spared]
    rfl
  have told_iff : told ↔ rules.isIgnored (placeOf base rel) false = false :=
    ⟨spared_of_told, fun spared => ⟨_, removal_of_spared spared, rfl⟩⟩
  refine ⟨told_iff, fun tells => removal_of_spared (spared_of_told tells), fun excluded => ?_⟩
  have rests_iff : told ↔ rules.RestsOnDirs (placeOf base rel) := by
    rw [told_iff, ← Ignore.Ruleset.isIgnored_only_dir_iff]
    exact (and_iff_right excluded).symm
  refine ⟨rests_iff, fun for_files tells => ?_⟩
  obtain ⟨r, member, only_dirs⟩ := (rests_iff.1 tells).exists_rule
  rw [for_files r member] at only_dirs
  cases only_dirs

/-! ### A directory of packages -/

/-- An app without the packages that were installed in it. -/
def bareApp : FileTree :=
  ⟨[(["app".toList, "main.js".toList], .file ⟨0o644, 0, .empty⟩), (["app".toList], .dir)],
    .ofString "/"⟩

/-- What is told when the packages are removed, under the rules of an ignore file. -/
def packagesTold (rules : Ignore.Ruleset) : List Change :=
  changes ⟨.remove, [.ofString "/app/node_modules"]⟩ bareApp (.ofString "/app") (.ofString "/app")
    rules

theorem packages_gone : ∃ error, bareApp.stat (.ofString "/app/node_modules") = .error error :=
  ⟨.notFound, rfl⟩

/-- **The removal of an excluded directory can be told.**  The rules exclude the directory, but
once it is gone they are asked about a file of its name. -/
theorem tells_of_excluded :
    ∃ rules, Ignore.Ruleset.ofPatterns (.ofString "/app") ["node_modules/"] = .ok rules ∧
      rules.isIgnored (.ofString "/app/node_modules") true = true ∧
      packagesTold rules = [⟨.ofString "/app", .ofString "node_modules", .remove⟩] := by
  have reads : (Ignore.Ruleset.ofPatterns (.ofString "/app") ["node_modules/"]).toOption.map
      (fun rules => (rules.isIgnored (.ofString "/app/node_modules") true, packagesTold rules)) =
      some (true, [⟨.ofString "/app", .ofString "node_modules", .remove⟩]) := by decide +kernel
  obtain ⟨rules, read, found⟩ := exists_of_toOption reads
  exact ⟨rules, read, Prod.mk.inj found⟩

/-- Behind a rule for files too, it is not told. -/
theorem told_of_gone_iff_of_file_rule :
    let path := LocalPath.ofString "/app/node_modules"
    let event : FileEvent := ⟨.remove, [path]⟩
    let root := LocalPath.ofString "/app"
    let rel := LocalPath.ofString "node_modules"
    ∃ rules, Ignore.Ruleset.ofPatterns root ["*/", "node_modules"] = .ok rules ∧
      event.matters = true ∧ path ∈ event.paths ∧ path.relativeTo? root = some rel ∧
      (∃ error, bareApp.stat path = .error error) ∧ rules.isIgnored (placeOf root rel) true = true ∧
      ((∃ c ∈ event.changes bareApp root root rules, c.path = rel) ↔
        rules.RestsOnDirs (placeOf root rel)) ∧
      ¬ ∃ c ∈ event.changes bareApp root root rules, c.path = rel := by
  intro path event root rel
  have reads : (Ignore.Ruleset.ofPatterns root ["*/", "node_modules"]).toOption.map
      (fun rules => (rules.isIgnored (placeOf root rel) true,
        rules.isIgnored (placeOf root rel) false)) = some (true, true) := by decide +kernel
  obtain ⟨rules, read, found⟩ := exists_of_toOption reads
  obtain ⟨excluded, excluded_as_file⟩ := Prod.mk.inj found
  have matters : event.matters = true := rfl
  have named : path ∈ event.paths := List.mem_singleton_self _
  have below : path.relativeTo? root = some rel := by decide +kernel
  have told_iff : (∃ c ∈ event.changes bareApp root root rules, c.path = rel) ↔
      rules.isIgnored (placeOf root rel) false = false :=
    (told_of_gone_iff matters named below packages_gone).1
  have rests_iff := ((told_of_gone_iff matters named below packages_gone).2.2 excluded).1
  refine ⟨rules, read, matters, named, below, packages_gone, excluded, rests_iff, ?_⟩
  intro told
  rw [told_iff.1 told] at excluded_as_file
  cases excluded_as_file

end FileEvent

end DevMode
