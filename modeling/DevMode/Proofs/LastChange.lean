/-
# DevMode.Proofs.LastChange -- the last change of each file decides

Partitioning a list of changes keeps the last one of each file and sorts those by kind.  Files are
told apart by the components of their paths, however these are written.

* `mem_latest_iff`: what is kept is what no later change of the same file follows.
* `countP_latest`: of each file that changed, exactly one change is kept.
* `latest_eq_map`: the changes that are kept stand in the order of their places in the list.
* `entry_replay`: what a store holds of a file after some changes is told by the last change of
  that file alone.

Since additions and removals are of different files, it does not matter that all additions are
carried out before the first removal: `partition_replays`.
-/
import DevMode.Change
import Mathlib.Data.List.FinRange

namespace DevMode

set_option autoImplicit false

namespace Change

variable {c d : Change} {changes rest : List Change}

/-- The components that tell the changed file from others. -/
def key (c : Change) : List Component := c.localPath.components

/-! ## The last change of a file -/

/-- `c` is in the list, and no later change there is of the same file. -/
def LastIn (changes : List Change) (c : Change) : Prop :=
  ∃ before after, changes = before ++ c :: after ∧ ∀ d ∈ after, ¬ d.localPath.Same c.localPath

theorem LastIn.mem (last : LastIn changes c) : c ∈ changes := by
  obtain ⟨before, after, rfl, -⟩ := last
  exact List.mem_append_right before List.mem_cons_self

/-- No change behind the `i`-th is of the same file. -/
def LastAt (changes : List Change) (i : Fin changes.length) : Prop :=
  ∀ j, i < j → ¬ (changes.get j).localPath.Same (changes.get i).localPath

instance (changes : List Change) (i : Fin changes.length) : Decidable (LastAt changes i) :=
  inferInstanceAs (Decidable (∀ j, i < j → _))

/-- The places in the list that hold the last change of their file, in order. -/
def lastPlaces (changes : List Change) : List (Fin changes.length) :=
  (List.finRange changes.length).filter fun i => decide (LastAt changes i)

theorem superseded_iff : c.superseded rest = true ↔ ∃ d ∈ rest, d.key = c.key := by
  simp only [superseded, List.any_eq_true, decide_eq_true_eq]
  rfl

theorem not_superseded (last : ¬ c.superseded rest = true) : ∀ d ∈ rest, d.key ≠ c.key := by
  intro d later same
  exact last (superseded_iff.2 ⟨d, later, same⟩)

theorem latest_sublist (changes : List Change) : (latest changes).Sublist changes := by
  induction changes with
  | nil => exact List.Sublist.slnil
  | cons c rest ih =>
      rw [latest]
      split
      · exact ih.cons c
      · exact ih.cons_cons c

theorem mem_latest_iff : c ∈ latest changes ↔ LastIn changes c := by
  induction changes with
  | nil => simp [latest, LastIn]
  | cons b rest ih =>
      have first : (∀ d ∈ rest, d.key ≠ b.key) → LastIn (b :: rest) b :=
        fun last => ⟨[], rest, rfl, last⟩
      have further : LastIn rest c → LastIn (b :: rest) c := by
        rintro ⟨before, after, rfl, last⟩
        exact ⟨b :: before, after, rfl, last⟩
      constructor
      · intro member
        rw [latest] at member
        split at member
        · exact further (ih.1 member)
        · rename_i last
          rcases List.mem_cons.1 member with rfl | member
          · exact first (not_superseded last)
          · exact further (ih.1 member)
      · rintro ⟨before, after, text, last⟩
        rw [latest]
        cases before with
        | nil =>
            obtain ⟨rfl, rfl⟩ := List.cons.inj text
            have not_later : ¬ b.superseded rest = true := by
              rw [superseded_iff]
              rintro ⟨d, later, same⟩
              exact last d later same
            rw [if_neg not_later]
            exact List.mem_cons_self
        | cons _ before =>
            obtain ⟨rfl, rfl⟩ := List.cons.inj text
            have kept : c ∈ latest (before ++ c :: after) := ih.2 ⟨before, after, rfl, last⟩
            split
            · exact kept
            · exact List.mem_cons_of_mem _ kept

/-- **Of each file that changed, exactly one change is kept**, and none of other files. -/
theorem countP_latest (changes : List Change) (file : List Component) :
    (latest changes).countP (fun c => decide (c.key = file)) =
      if ∃ c ∈ changes, c.key = file then 1 else 0 := by
  induction changes with
  | nil => simp [latest]
  | cons b rest ih =>
      have either : (∃ c ∈ b :: rest, c.key = file) ↔ b.key = file ∨ ∃ c ∈ rest, c.key = file := by
        simp only [List.mem_cons, exists_eq_or_imp]
      rw [latest]
      split
      · rename_i later
        have again : b.key = file → ∃ c ∈ rest, c.key = file := by
          rintro rfl
          exact superseded_iff.1 later
        rw [ih]
        simp only [either, or_iff_right_of_imp again]
      · rename_i last
        rw [List.countP_cons, ih]
        by_cases here : b.key = file
        · have nowhere_else : ¬ ∃ c ∈ rest, c.key = file := by
            rintro ⟨d, later, same⟩
            exact not_superseded last d later (same.trans here.symm)
          simp [here, nowhere_else]
        · simp [here]

/-- Every file that changed has a last change. -/
theorem exists_lastIn (member : c ∈ changes) : ∃ d, LastIn changes d ∧ d.key = c.key := by
  have one : 0 < (latest changes).countP (fun d => decide (d.key = c.key)) := by
    rw [countP_latest, if_pos ⟨c, member, rfl⟩]
    exact Nat.one_pos
  obtain ⟨d, kept, same⟩ := List.countP_pos_iff.1 one
  exact ⟨d, mem_latest_iff.1 kept, of_decide_eq_true same⟩

/-- A file has one last change. -/
theorem LastIn.unique (last : LastIn changes c) (last' : LastIn changes d) (same : c.key = d.key) :
    c = d := by
  obtain ⟨before, after, text, none_later⟩ := last
  obtain ⟨before', after', text', none_later'⟩ := last'
  rcases List.append_eq_append_iff.1 (text.symm.trans text') with
    ⟨between, -, tail⟩ | ⟨between, -, tail⟩
  · cases between with
    | nil => exact (List.cons.inj tail).1
    | cons b between =>
        have later : d ∈ after := by
          rw [(List.cons.inj tail).2]
          simp
        exact absurd same.symm (none_later d later)
  · cases between with
    | nil => exact (List.cons.inj tail).1.symm
    | cons b between =>
        have later : c ∈ after' := by
          rw [(List.cons.inj tail).2]
          simp
        exact absurd same (none_later' c later)

/-! ## Lists in a row -/

theorem lastIn_append {xs ys : List Change} :
    LastIn (xs ++ ys) c ↔
      LastIn ys c ∨ (LastIn xs c ∧ ∀ d ∈ ys, ¬ d.localPath.Same c.localPath) := by
  constructor
  · rintro ⟨before, after, text, last⟩
    rcases List.append_eq_append_iff.1 text with ⟨front, rfl, rfl⟩ | ⟨back, rfl, tail⟩
    · exact .inl ⟨front, after, rfl, last⟩
    · cases back with
      | nil => exact .inl ⟨[], after, tail.symm, last⟩
      | cons b back =>
          obtain ⟨rfl, rfl⟩ := List.cons.inj tail
          refine .inr ⟨⟨before, back, rfl, ?_⟩, ?_⟩
          · exact fun d member => last d (List.mem_append_left ys member)
          · exact fun d member => last d (List.mem_append_right back member)
  · rintro (⟨before, after, rfl, last⟩ | ⟨⟨before, after, rfl, last⟩, none_later⟩)
    · exact ⟨xs ++ before, after, by simp, last⟩
    · refine ⟨before, after ++ ys, by simp, fun d member => ?_⟩
      rcases List.mem_append.1 member with inner | later
      · exact last d inner
      · exact none_later d later

theorem lastIn_flatMap {α : Type} {f : α → List Change} {xs : List α} :
    LastIn (xs.flatMap f) c ↔
      ∃ before x after, xs = before ++ x :: after ∧ LastIn (f x) c ∧
        ∀ y ∈ after, ∀ d ∈ f y, ¬ d.localPath.Same c.localPath := by
  induction xs with
  | nil => simp [LastIn]
  | cons x xs ih =>
      rw [List.flatMap_cons, lastIn_append, ih]
      constructor
      · rintro (⟨before, y, after, rfl, last, none_later⟩ | ⟨last, none_later⟩)
        · exact ⟨x :: before, y, after, rfl, last, none_later⟩
        · refine ⟨[], x, xs, rfl, last, fun y later d told => ?_⟩
          exact none_later d (List.mem_flatMap.2 ⟨y, later, told⟩)
      · rintro ⟨before, y, after, text, last, none_later⟩
        cases before with
        | nil =>
            obtain ⟨rfl, rfl⟩ := List.cons.inj text
            refine .inr ⟨last, fun d member => ?_⟩
            obtain ⟨y, later, told⟩ := List.mem_flatMap.1 member
            exact none_later y later d told
        | cons b before =>
            obtain ⟨rfl, rfl⟩ := List.cons.inj text
            exact .inl ⟨before, y, after, rfl, last, none_later⟩

/-! ## Places -/

theorem lastAt_zero (b : Change) (rest : List Change) :
    LastAt (b :: rest) (0 : Fin (rest.length + 1)) ↔ ¬ b.superseded rest = true := by
  rw [superseded_iff]
  constructor
  · rintro last ⟨d, later, same⟩
    obtain ⟨i, rfl⟩ := List.mem_iff_get.1 later
    exact last i.succ (Fin.succ_pos i) same
  · intro last j some_j same
    obtain ⟨i, rfl⟩ := Fin.exists_succ_eq.2 (Fin.pos_iff_ne_zero.1 some_j)
    exact last ⟨rest.get i, List.get_mem rest i, same⟩

theorem lastAt_succ (b : Change) (rest : List Change) (i : Fin rest.length) :
    LastAt (b :: rest) i.succ ↔ LastAt rest i := by
  constructor
  · intro last j later
    exact last j.succ (Fin.succ_lt_succ_iff.2 later)
  · intro last j later
    obtain ⟨k, rfl⟩ := Fin.exists_succ_eq.2 (Fin.ne_zero_of_lt later)
    exact last k (Fin.succ_lt_succ_iff.1 later)

theorem lastPlaces_cons (b : Change) (rest : List Change) :
    lastPlaces (b :: rest) =
      (if b.superseded rest then [] else [0]) ++ (lastPlaces rest).map Fin.succ := by
  have places : List.finRange (b :: rest).length = 0 :: (List.finRange rest.length).map Fin.succ :=
    List.finRange_succ
  have behind : (fun i => decide (LastAt (b :: rest) i)) ∘ Fin.succ =
      fun i => decide (LastAt rest i) := by
    funext i
    exact decide_eq_decide.2 (lastAt_succ b rest i)
  rw [lastPlaces, places, List.filter_cons, List.filter_map, behind, ← lastPlaces]
  by_cases later : b.superseded rest = true
  · have not_last : ¬ LastAt (b :: rest) (0 : Fin (rest.length + 1)) :=
      fun last => (lastAt_zero b rest).1 last later
    rw [if_neg (by simpa using not_last), if_pos later, List.nil_append]
  · have last : LastAt (b :: rest) (0 : Fin (rest.length + 1)) := (lastAt_zero b rest).2 later
    rw [if_pos (by simpa using last), if_neg later, List.singleton_append]

/-- **What is kept stands in the order of the last places.** -/
theorem latest_eq_map (changes : List Change) :
    latest changes = (lastPlaces changes).map changes.get := by
  induction changes with
  | nil => rfl
  | cons b rest ih =>
      have behind : ((lastPlaces rest).map Fin.succ).map (b :: rest).get = latest rest := by
        rw [ih, List.map_map]
        rfl
      rw [lastPlaces_cons, List.map_append, behind, latest]
      split <;> rfl

/-! ## Additions and removals -/

theorem mem_adds_iff : c ∈ (partition changes).1 ↔ LastIn changes c ∧ c.kind = .add := by
  rw [partition, List.mem_filter, decide_eq_true_iff, mem_latest_iff]

theorem mem_removes_iff : c ∈ (partition changes).2 ↔ LastIn changes c ∧ c.kind = .remove := by
  rw [partition, List.mem_filter, decide_eq_true_iff, mem_latest_iff]

theorem mem_adds_or_removes_iff :
    c ∈ (partition changes).1 ++ (partition changes).2 ↔ LastIn changes c := by
  rw [List.mem_append, mem_adds_iff, mem_removes_iff, ← and_or_left]
  cases c.kind <;> simp

/-- Both sides together hold one change of each file. -/
theorem countP_partition (changes : List Change) (file : List Component) :
    ((partition changes).1 ++ (partition changes).2).countP (fun c => decide (c.key = file)) =
      if ∃ c ∈ changes, c.key = file then 1 else 0 := by
  have other (c : Change) : decide (c.kind = .remove) = !decide (c.kind = .add) := by
    cases c.kind <;> rfl
  have both : List.Perm ((partition changes).1 ++ (partition changes).2) (latest changes) := by
    simp only [partition, other]
    exact List.filter_append_perm (fun c => decide (c.kind = .add)) (latest changes)
  rw [both.countP_eq, countP_latest]

/-- Among the additions and removals a last change is the last still: it is alone there. -/
theorem LastIn.partition (last : LastIn changes c) :
    LastIn ((partition changes).1 ++ (partition changes).2) c := by
  obtain ⟨d, last', same⟩ := exists_lastIn (mem_adds_or_removes_iff.2 last)
  have only : d = c := (mem_adds_or_removes_iff.1 last'.mem).unique last same
  rwa [only] at last'

/-! ## Stores -/

/-- A store that keeps an entry for each file: an addition sets the entry of its file, a removal
deletes it, and all other entries stay as they are. -/
structure Store (σ β : Type) where
  entry : σ → List Component → Option β
  content : Change → β
  apply : σ → Change → σ
  entry_apply : ∀ s c file, entry (apply s c) file =
    if c.key = file then (match c.kind with | .add => some (content c) | .remove => none)
    else entry s file

namespace Store

/-- The store of functions: of each file, by the components of its path, what is held of it. -/
def ofFunctions {β : Type} (content : Change → β) : Store (List Component → Option β) β where
  entry held := held
  content := content
  apply held c file :=
    if c.key = file then (match c.kind with | .add => some (content c) | .remove => none)
    else held file
  entry_apply _ _ _ := rfl

variable {σ β : Type} (store : Store σ β)

/-- The store after some changes. -/
def replay (s : σ) (changes : List Change) : σ := changes.foldl store.apply s

/-- What a change leaves of its file. -/
def left (c : Change) : Option β :=
  match c.kind with
  | .add => some (store.content c)
  | .remove => none

theorem replay_append (s : σ) (changes more : List Change) :
    store.replay s (changes ++ more) = store.replay (store.replay s changes) more :=
  List.foldl_append

/-- Changes of other files leave an entry as it is. -/
theorem entry_replay_of_others (s : σ) {file : List Component}
    (others : ∀ c ∈ changes, c.key ≠ file) :
    store.entry (store.replay s changes) file = store.entry s file := by
  induction changes generalizing s with
  | nil => rfl
  | cons c rest ih =>
      have further : ∀ d ∈ rest, d.key ≠ file := fun d later => others d (.tail c later)
      have another : ¬ c.key = file := others c List.mem_cons_self
      rw [replay, List.foldl_cons]
      exact (ih (store.apply s c) further).trans (by rw [store.entry_apply, if_neg another])

/-- **The last change of a file tells its entry.** -/
theorem entry_replay (s : σ) (last : LastIn changes c) :
    store.entry (store.replay s changes) c.key = store.left c := by
  obtain ⟨before, after, rfl, none_later⟩ := last
  rw [replay_append, replay, List.foldl_cons]
  refine (store.entry_replay_of_others _ none_later).trans ?_
  exact (store.entry_apply _ c _).trans (if_pos rfl)

/-- All additions and then all removals leave of each file what the changes leave of it. -/
theorem entry_replay_partition (s : σ) (changes : List Change) (file : List Component) :
    store.entry (store.replay s ((partition changes).1 ++ (partition changes).2)) file =
      store.entry (store.replay s changes) file := by
  by_cases changed : ∃ c ∈ changes, c.key = file
  · obtain ⟨c, member, rfl⟩ := changed
    obtain ⟨d, last, same⟩ := exists_lastIn member
    rw [← same, store.entry_replay s last, store.entry_replay s last.partition]
  · have others : ∀ c ∈ changes, c.key ≠ file := fun c member same => changed ⟨c, member, same⟩
    have others' : ∀ c ∈ (partition changes).1 ++ (partition changes).2, c.key ≠ file := by
      intro c kept
      exact others c (mem_adds_or_removes_iff.1 kept).mem
    rw [store.entry_replay_of_others s others, store.entry_replay_of_others s others']

end Store

/-- **A partition loses nothing and replays to the same store.**  Of each file that changed there
is exactly one change among the additions and removals; it is an addition exactly if the last
change of the file is one.  Both sides are what stands at the last places of the list, in order.
So all additions and then all removals make of every store what the changes make of it one by
one. -/
theorem partition_replays (changes : List Change) :
    (∀ c ∈ changes,
      ((partition changes).1 ++ (partition changes).2).countP
          (fun d => decide (d.localPath.Same c.localPath)) = 1 ∧
        ((∃ d ∈ (partition changes).1, d.localPath.Same c.localPath) ↔
          ∃ d, LastIn changes d ∧ d.localPath.Same c.localPath ∧ d.kind = .add)) ∧
    (partition changes).1 = ((lastPlaces changes).map changes.get).filter (·.kind = .add) ∧
    (partition changes).2 = ((lastPlaces changes).map changes.get).filter (·.kind = .remove) ∧
    (partition changes).1.Sublist changes ∧ (partition changes).2.Sublist changes ∧
    ∀ (σ β : Type) (store : Store σ β) (s : σ),
      store.entry (store.replay (store.replay s (partition changes).1) (partition changes).2) =
        store.entry (store.replay s changes) := by
  refine ⟨fun c member => ⟨?_, ?_⟩, ?_, ?_, ?_, ?_, ?_⟩
  · exact (countP_partition changes c.key).trans (if_pos ⟨c, member, rfl⟩)
  · constructor
    · rintro ⟨d, added, same⟩
      obtain ⟨last, kind⟩ := mem_adds_iff.1 added
      exact ⟨d, last, same, kind⟩
    · rintro ⟨d, last, same, kind⟩
      exact ⟨d, mem_adds_iff.2 ⟨last, kind⟩, same⟩
  · rw [← latest_eq_map]
    rfl
  · rw [← latest_eq_map]
    rfl
  · exact List.filter_sublist.trans (latest_sublist changes)
  · exact List.filter_sublist.trans (latest_sublist changes)
  · intro σ β store s
    rw [← store.replay_append]
    funext file
    exact store.entry_replay_partition s changes file

/-- However a path is spelled, its last change counts. -/
example :
    let add (base path : String) : Change := ⟨.ofString base, .ofString path, .add⟩
    let remove (base path : String) : Change := ⟨.ofString base, .ofString path, .remove⟩
    partition [add "/w" "a", add "/w/" "b//c", remove "/w//" "./a", add "/w/b" "c"] =
      ([add "/w/b" "c"], [remove "/w//" "./a"]) := by
  decide

/-- With the additions first, a file is held as it was last, or not at all. -/
example :
    let add (base path : String) : Change := ⟨.ofString base, .ofString path, .add⟩
    let remove (base path : String) : Change := ⟨.ofString base, .ofString path, .remove⟩
    let changes := [add "/w" "a", remove "/w/b" "c", add "/w" "b/c", remove "/w//" "./a"]
    let store := Store.ofFunctions remoteRelative
    let behind := store.replay (store.replay (fun _ => none) (partition changes).1)
      (partition changes).2
    behind (add "/w/b" "c").key = some "b/c" ∧ behind (add "/w" "a").key = none := by
  decide

end Change

end DevMode
