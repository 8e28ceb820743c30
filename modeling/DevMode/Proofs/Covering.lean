/-
# DevMode.Proofs.Covering -- what is kept is the least cover

Among sources with absolute local paths, one covers another exactly if one way leads down from the
first to the second on both sides (`covers_iff`).  So covers are reflexive and transitive, and two
sources that cover each other name the same place on both sides (`mutual_iff`).  Without a root this
fails: the empty path covers `.`, and `.` covers `./a`, which the empty path does not.

`dedupe` asks of each source whether any other makes it redundant, also one that is dropped itself.
`keep_eq` says which sources stay, by their numbers and over all of the list at once, and with that
they are the only least cover (`LeastCover.eq`).  The rest follows from it: on what is kept nothing
more is dropped, another order of the sources leads to the same places, and no cover is shorter.
-/
import DevMode.Proofs.Delivery
import DevMode.Proofs.Descent
import Mathlib.Data.List.Forall2
import Mathlib.Data.List.Nodup
import Mathlib.Data.List.Perm.Basic
import Mathlib.Data.List.Perm.Subperm

namespace DevMode

set_option autoImplicit false

/-! ## The order of covers -/

theorem Component.isStep_chars {ss : List Segment} (whole : ∀ s ∈ ss, '/' ∉ s) {c : Component}
    (member : c ∈ Component.ofSegments ss) : Segment.IsStep c.chars := by
  rcases Component.mem_ofSegments whole member with rfl | ⟨s, rfl, solid, moves, -, one⟩
  · exact ⟨by decide, by decide, by decide⟩
  · exact ⟨solid, moves, one⟩

/-- Below an absolute base, an absolute path goes on by steps. -/
theorem LocalPath.isStep_behind {p base : LocalPath} {cs : List Component}
    (absolute : p.isAbsolute = true) (base_absolute : base.isAbsolute = true)
    (below : p.components = base.components ++ cs) :
    ∀ s ∈ cs.map Component.chars, Segment.IsStep s := by
  intro s member
  obtain ⟨c, inside, rfl⟩ := List.mem_map.1 member
  obtain ⟨y, rfl⟩ := exists_slash base_absolute
  obtain ⟨z, rfl⟩ := exists_slash absolute
  rw [components_slash, components_slash] at below
  have whole : ∀ s ∈ Text.pieces '/' z, '/' ∉ s := fun _ => Text.sep_notMem_of_mem_pieces
  apply Component.isStep_chars whole
  rw [(List.cons.inj below).2]
  exact List.mem_append_right _ inside

namespace Source

open Location

variable {s t u : Source}

/-- **One source covers another if one way leads down to it on both sides.** -/
theorem covers_iff (absolute : s.path.isAbsolute = true) (absolute' : t.path.isAbsolute = true) :
    s.covers t = true ↔ ∃ cs, t.path.components = s.path.components ++ cs ∧
      (parse s.remote.toList).Descends (parse t.remote.toList) (cs.map Component.chars) := by
  constructor
  · intro cover
    unfold covers at cover
    split at cover
    · cases cover
    · rename_i rel found
      obtain ⟨-, below⟩ := LocalPath.components_of_relativeTo? absolute found
      obtain ⟨ss, down, way⟩ := RemotePath.relative?_eq_some_iff.1 (eq_of_beq cover)
      have steps := LocalPath.isStep_behind absolute' absolute below
      rw [offset_eq_written steps] at way
      obtain rfl := RemotePath.written_injective steps (down.steps (wellFormed_parse _)) way
      exact ⟨rel.components, below, down⟩
  · rintro ⟨cs, below, down⟩
    obtain ⟨rel, found⟩ := LocalPath.relativeTo?_of_prefix absolute' absolute ⟨cs, below.symm⟩
    obtain ⟨-, below'⟩ := LocalPath.components_of_relativeTo? absolute found
    obtain rfl : cs = rel.components := List.append_cancel_left (below.symm.trans below')
    have steps := LocalPath.isStep_behind absolute' absolute below
    simp only [covers, found, beq_iff_eq]
    exact RemotePath.relative?_eq_some_iff.2 ⟨_, down, offset_eq_written steps⟩

theorem covers_refl (absolute : s.path.isAbsolute = true) : s.covers s = true :=
  covers_of_same absolute absolute rfl rfl

theorem covers_trans (hs : s.path.isAbsolute = true) (ht : t.path.isAbsolute = true)
    (hu : u.path.isAbsolute = true) (first : s.covers t = true) (second : t.covers u = true) :
    s.covers u = true := by
  obtain ⟨cs, below, down⟩ := (covers_iff hs ht).1 first
  obtain ⟨ds, below', down'⟩ := (covers_iff ht hu).1 second
  refine (covers_iff hs hu).2 ⟨cs ++ ds, ?_, ?_⟩
  · rw [below', below, List.append_assoc]
  · rw [List.map_append]
    exact down.trans (wellFormed_parse _) (wellFormed_parse _) down'

/-- What a source is about, on both sides. -/
def place (s : Source) : List Component × Location := (s.path.components, parse s.remote.toList)

/-- Two sources that deliver the same. -/
def Mutual (s t : Source) : Prop := s.covers t = true ∧ t.covers s = true

theorem covers_of_place_eq (absolute : s.path.isAbsolute = true)
    (absolute' : t.path.isAbsolute = true) (same : s.place = t.place) : s.covers t = true := by
  obtain ⟨same_path, same_remote⟩ := Prod.mk.inj same
  exact covers_of_same absolute' absolute same_path same_remote

/-- The covering source is the shorter one, or both are about the same. -/
theorem length_lt_or_place_eq (absolute : s.path.isAbsolute = true)
    (absolute' : t.path.isAbsolute = true) (cover : s.covers t = true) :
    s.path.components.length < t.path.components.length ∨ s.place = t.place := by
  obtain ⟨cs, below, down⟩ := (covers_iff absolute absolute').1 cover
  cases cs with
  | nil =>
      have same_remote := down.eq (wellFormed_parse _) (wellFormed_parse _)
      exact Or.inr (Prod.ext (by rw [place, place, below, List.append_nil]) same_remote)
  | cons c cs =>
      left
      rw [below, List.length_append, List.length_cons]
      omega

theorem mutual_iff (absolute : s.path.isAbsolute = true) (absolute' : t.path.isAbsolute = true) :
    Mutual s t ↔ s.place = t.place := by
  constructor
  · rintro ⟨down, up⟩
    rcases length_lt_or_place_eq absolute absolute' down with shorter | same
    · rcases length_lt_or_place_eq absolute' absolute up with shorter' | same
      · omega
      · exact same.symm
    · exact same
  · intro same
    exact ⟨covers_of_place_eq absolute absolute' same, covers_of_place_eq absolute' absolute same.symm⟩

/-! ## Which sources stay -/

/-- A source stays at its number if each that covers it is covered in turn, and comes no earlier. -/
def Stays (sources : List Source) (p : Source × Nat) : Prop :=
  ∀ q ∈ sources.zipIdx, q.1.covers p.1 = true → p.1.covers q.1 = true ∧ p.2 ≤ q.2

instance (sources : List Source) (p : Source × Nat) : Decidable (Stays sources p) :=
  inferInstanceAs (Decidable (∀ q ∈ sources.zipIdx, _))

/-- The sources that stay, with their numbers. -/
def kept (sources : List Source) : List (Source × Nat) :=
  sources.zipIdx.filter fun p => Stays sources p

theorem stays_at_iff (before : List Source) (s : Source) (rest : List Source) :
    Stays (before ++ s :: rest) (s, before.length) ↔
      (∀ t ∈ before, t.covers s = false) ∧
        ∀ t ∈ rest, t.covers s = true → s.covers t = true := by
  have numbered (xs : List Source) (k : Nat) {P : Source → Prop} :
      (∀ q ∈ xs.zipIdx k, P q.1) ↔ ∀ t ∈ xs, P t := by
    rw [← List.forall_mem_map, List.zipIdx_map_fst]
  unfold Stays
  rw [List.zipIdx_append, List.forall_mem_append, List.zipIdx_cons, List.forall_mem_cons,
    ← numbered before 0, ← numbered rest (0 + before.length + 1)]
  constructor
  · rintro ⟨early, -, late⟩
    refine ⟨fun q member => ?_, fun q member cover => (late q member cover).1⟩
    rw [← Bool.not_eq_true]
    intro cover
    have no_earlier : before.length ≤ q.2 := (early q member cover).2
    have earlier := List.snd_lt_of_mem_zipIdx member
    omega
  · rintro ⟨early, late⟩
    refine ⟨fun q member cover => ?_, fun cover => ⟨cover, by simp⟩,
      fun q member cover => ⟨late q member cover, ?_⟩⟩
    · rw [early q member] at cover
      cases cover
    · have later := List.le_snd_of_mem_zipIdx member
      show before.length ≤ q.2
      omega

/-- **Which sources stay, over all of the list at once.** -/
theorem keep_eq (before rest : List Source) :
    keep before rest =
      ((rest.zipIdx before.length).filter fun p => Stays (before ++ rest) p).map Prod.fst := by
  induction rest generalizing before with
  | nil => rfl
  | cons s rest ih =>
      have behind := ih (before ++ [s])
      rw [List.append_assoc, List.singleton_append, List.length_append, List.length_singleton]
        at behind
      have redundant : (before.any (·.covers s) || rest.any fun t => t.covers s && !s.covers t) = true ↔
          ¬ Stays (before ++ s :: rest) (s, before.length) := by
        rw [stays_at_iff, ← Bool.not_eq_false, not_iff_not]
        simp
      rw [keep, List.zipIdx_cons, List.filter_cons]
      simp only [redundant, behind, decide_eq_true_eq, ite_not]
      split <;> rfl

theorem dedupe_eq (sources : List Source) : dedupe sources = (kept sources).map Prod.fst :=
  keep_eq [] sources

/-- Numbers grow along a list. -/
theorem pairwise_zipIdx (sources : List Source) :
    sources.zipIdx.Pairwise fun p q => p.2 < q.2 := by
  rw [← List.pairwise_map, List.zipIdx_map_snd]
  exact List.pairwise_lt_range'

theorem eq_of_mem_zipIdx {sources : List Source} {p q : Source × Nat}
    (here : p ∈ sources.zipIdx) (there : q ∈ sources.zipIdx) (level : p.2 = q.2) : p = q := by
  rw [List.mem_zipIdx_iff_getElem?] at here there
  rw [level, there] at here
  exact Prod.ext (Option.some.inj here).symm level

theorem mem_kept {sources : List Source} {p : Source × Nat} :
    p ∈ kept sources ↔ p ∈ sources.zipIdx ∧ Stays sources p := by
  rw [kept, List.mem_filter, decide_eq_true_eq]

/-! ## Covers of all -/

/-- Some of the sources, with their numbers, that cover all of them with none to spare. -/
structure LeastCover (sources : List Source) (some_kept : List (Source × Nat)) : Prop where
  ordered : some_kept.Sublist sources.zipIdx
  covering : ∀ s ∈ sources, ∃ k ∈ some_kept, k.1.covers s = true
  apart : ∀ k ∈ some_kept, ∀ l ∈ some_kept, k.1.covers l.1 = true → k = l
  /-- Of those that cover each other it is the first that is kept. -/
  earliest : ∀ k ∈ some_kept, ∀ p ∈ sources.zipIdx, Mutual k.1 p.1 → k.2 ≤ p.2

theorem LeastCover.rising {sources : List Source} {some_kept : List (Source × Nat)}
    (least : LeastCover sources some_kept) : some_kept.Pairwise fun p q => p.2 < q.2 :=
  (pairwise_zipIdx sources).sublist least.ordered

theorem LeastCover.nodup {sources : List Source} {some_kept : List (Source × Nat)}
    (least : LeastCover sources some_kept) : some_kept.Nodup := by
  refine least.rising.imp ?_
  rintro p _ lt rfl
  exact Nat.lt_irrefl p.2 lt

section Absolute

variable {sources : List Source} (absolute : ∀ s ∈ sources, s.path.isAbsolute = true)
include absolute

/-- **Every source is covered by one that stays.** -/
theorem exists_kept_covers (p : Source × Nat) (inside : p ∈ sources.zipIdx) :
    ∃ k ∈ kept sources, k.1.covers p.1 = true := by
  have hp := absolute _ (List.fst_mem_of_mem_zipIdx inside)
  by_cases stays : Stays sources p
  · exact ⟨p, mem_kept.2 ⟨inside, stays⟩, covers_refl hp⟩
  · unfold Stays at stays
    push Not at stays
    obtain ⟨q, q_inside, cover, leaves⟩ := stays
    have hq := absolute _ (List.fst_mem_of_mem_zipIdx q_inside)
    -- What makes the source redundant has a shorter path, or the same one and comes earlier.
    have above : q.1.path.components.length < p.1.path.components.length ∨
        q.1.path.components.length = p.1.path.components.length ∧ q.2 < p.2 := by
      rcases length_lt_or_place_eq hq hp cover with shorter | same
      · exact Or.inl shorter
      · have level : q.1.path.components = p.1.path.components := congrArg Prod.fst same
        exact Or.inr ⟨congrArg List.length level, leaves (covers_of_place_eq hp hq same.symm)⟩
    obtain ⟨k, stays, cover'⟩ := exists_kept_covers q q_inside
    have hk := absolute _ (List.fst_mem_of_mem_zipIdx (mem_kept.1 stays).1)
    exact ⟨k, stays, covers_trans hk hq hp cover' cover⟩
termination_by (p.1.path.components.length, p.2)
decreasing_by
  rcases above with shorter | ⟨level, earlier⟩
  · exact Prod.Lex.left _ _ shorter
  · rw [level]
    exact Prod.Lex.right _ earlier

/-- **What stays is a least cover.** -/
theorem leastCover_kept : LeastCover sources (kept sources) where
  ordered := List.filter_sublist
  covering s member := by
    obtain ⟨p, inside, rfl⟩ := List.mem_map.1 ((List.zipIdx_map_fst 0 sources).symm ▸ member)
    exact exists_kept_covers absolute p inside
  apart k k_stays l l_stays cover := by
    obtain ⟨k_inside, k_first⟩ := mem_kept.1 k_stays
    obtain ⟨l_inside, l_first⟩ := mem_kept.1 l_stays
    obtain ⟨back, no_earlier⟩ := l_first k k_inside cover
    exact eq_of_mem_zipIdx k_inside l_inside
      (Nat.le_antisymm (k_first l l_inside back).2 no_earlier)
  earliest k stays p inside same := ((mem_kept.1 stays).2 p inside same.2).2

namespace LeastCover

variable {some_kept others : List (Source × Nat)}

theorem absolute_of_mem (least : LeastCover sources some_kept) {k : Source × Nat}
    (stays : k ∈ some_kept) : k.1.path.isAbsolute = true :=
  absolute _ (List.fst_mem_of_mem_zipIdx (least.ordered.subset stays))

/-- What covers one that stays is about the same. -/
theorem place_eq (least : LeastCover sources some_kept) {k : Source × Nat} (stays : k ∈ some_kept)
    {t : Source} (inside : t ∈ sources) (cover : t.covers k.1 = true) : t.place = k.1.place := by
  have hk := least.absolute_of_mem absolute stays
  have ht := absolute t inside
  obtain ⟨l, l_stays, cover'⟩ := least.covering t inside
  have hl := least.absolute_of_mem absolute l_stays
  obtain rfl := least.apart l l_stays k stays (covers_trans hl ht hk cover' cover)
  exact (mutual_iff ht hk).1 ⟨cover, cover'⟩

theorem subset (least : LeastCover sources some_kept) (least' : LeastCover sources others) :
    some_kept ⊆ others := by
  intro k stays
  have inside := least.ordered.subset stays
  have hk := least.absolute_of_mem absolute stays
  obtain ⟨l, l_stays, cover⟩ := least'.covering k.1 (List.fst_mem_of_mem_zipIdx inside)
  have l_inside := least'.ordered.subset l_stays
  have hl := least'.absolute_of_mem absolute l_stays
  have same := least.place_eq absolute stays (List.fst_mem_of_mem_zipIdx l_inside) cover
  have no_later := least.earliest k stays l l_inside ((mutual_iff hk hl).2 same.symm)
  have no_earlier := least'.earliest l l_stays k inside ((mutual_iff hl hk).2 same)
  rwa [eq_of_mem_zipIdx inside l_inside (Nat.le_antisymm no_later no_earlier)]

/-- **There is one least cover.** -/
theorem eq (least : LeastCover sources some_kept) (least' : LeastCover sources others) :
    some_kept = others := by
  have same : some_kept.Perm others := (List.perm_ext_iff_of_nodup least.nodup least'.nodup).2
    fun _ => ⟨(least.subset absolute least' ·), (least'.subset absolute least ·)⟩
  exact same.eq_of_pairwise (fun _ _ _ _ lt gt => absurd lt (Nat.lt_asymm gt)) least.rising
    least'.rising

end LeastCover

/-- No place is named twice by what stays. -/
theorem nodup_place_dedupe : ((dedupe sources).map place).Nodup := by
  have least := leastCover_kept absolute
  rw [dedupe_eq, List.map_map]
  apply List.Nodup.map_on
  · intro k k_stays l l_stays same
    have hk := least.absolute_of_mem absolute k_stays
    have hl := least.absolute_of_mem absolute l_stays
    exact least.apart k k_stays l l_stays (covers_of_place_eq hk hl same)
  · exact least.nodup

/-- Whatever covers all sources is about each place that is kept. -/
theorem place_mem_of_cover {cover : List Source} (inside : cover ⊆ sources)
    (covering : ∀ s ∈ sources, ∃ t ∈ cover, t.covers s = true) :
    (dedupe sources).map place ⊆ cover.map place := by
  have least := leastCover_kept absolute
  intro about member
  rw [dedupe_eq, List.map_map] at member
  obtain ⟨k, stays, rfl⟩ := List.mem_map.1 member
  obtain ⟨t, listed, cover_of⟩ :=
    covering k.1 (List.fst_mem_of_mem_zipIdx (least.ordered.subset stays))
  exact List.mem_map.2 ⟨t, listed, least.place_eq absolute stays (inside listed) cover_of⟩

theorem dedupe_covering : ∀ s ∈ sources, ∃ t ∈ dedupe sources, t.covers s = true := by
  intro s member
  obtain ⟨k, stays, cover⟩ := (leastCover_kept absolute).covering s member
  exact ⟨k.1, dedupe_eq sources ▸ List.mem_map_of_mem stays, cover⟩

/-- Nothing more is dropped from what is kept. -/
theorem dedupe_dedupe : dedupe (dedupe sources) = dedupe sources := by
  have least := leastCover_kept absolute
  have apart : ∀ s ∈ dedupe sources, ∀ t ∈ dedupe sources, t.covers s = true → t = s := by
    intro s s_stays t t_stays cover
    rw [dedupe_eq] at s_stays t_stays
    obtain ⟨k, k_stays, rfl⟩ := List.mem_map.1 s_stays
    obtain ⟨l, l_stays, rfl⟩ := List.mem_map.1 t_stays
    exact congrArg Prod.fst (least.apart l l_stays k k_stays cover)
  have all_stay : ∀ p ∈ (dedupe sources).zipIdx, Stays (dedupe sources) p := by
    intro p here q there cover
    have same := apart _ (List.fst_mem_of_mem_zipIdx here) _ (List.fst_mem_of_mem_zipIdx there) cover
    have p_at := List.mem_zipIdx_iff_getElem?.1 here
    have q_at := List.mem_zipIdx_iff_getElem?.1 there
    have bound := List.snd_lt_of_mem_zipIdx here
    have level : p.2 = q.2 :=
      (List.getElem?_inj (by simpa using bound) (nodup_place_dedupe absolute).of_map).1
        (by rw [p_at, q_at, same])
    exact ⟨by rwa [same] at cover ⊢, level.le⟩
  rw [dedupe_eq (dedupe sources), kept, List.filter_eq_self.2 (by simpa using all_stay),
    List.zipIdx_map_fst]

/-- Another order of the sources leads to the same places. -/
theorem dedupe_of_perm {shuffled : List Source} (perm : sources.Perm shuffled) :
    ∃ others, others.Perm (dedupe shuffled) ∧ List.Forall₂ Mutual (dedupe sources) others := by
  have absolute' : ∀ s ∈ shuffled, s.path.isAbsolute = true :=
    fun s member => absolute s (perm.mem_iff.2 member)
  have forth := place_mem_of_cover absolute
    (fun s stays => perm.mem_iff.2 (mem_of_mem_dedupe stays))
    (fun s member => dedupe_covering absolute' s (perm.mem_iff.1 member))
  have back := place_mem_of_cover absolute'
    (fun s stays => perm.mem_iff.1 (mem_of_mem_dedupe stays))
    (fun s member => dedupe_covering absolute s (perm.mem_iff.2 member))
  have places : ((dedupe sources).map place).Perm ((dedupe shuffled).map place) :=
    (List.perm_ext_iff_of_nodup (nodup_place_dedupe absolute) (nodup_place_dedupe absolute')).2
      fun _ => ⟨(forth ·), (back ·)⟩
  have named : List.Forall₂ (fun about s => about = place s) ((dedupe shuffled).map place)
      (dedupe shuffled) :=
    List.forall₂_map_left_iff.2 (List.forall₂_same.2 fun _ _ => rfl)
  obtain ⟨others, pairs, same⟩ := List.perm_comp_forall₂ places named
  rw [List.forall₂_map_left_iff, List.forall₂_iff_zip] at pairs
  obtain ⟨length, zipped⟩ := pairs
  refine ⟨others, same, List.forall₂_iff_zip.2 ⟨length, fun {s t} pair => ?_⟩⟩
  obtain ⟨s_stays, t_stays⟩ := List.of_mem_zip pair
  exact (mutual_iff (absolute s (mem_of_mem_dedupe s_stays))
    (absolute' t (mem_of_mem_dedupe (same.subset t_stays)))).2 (zipped pair)

end Absolute

/-- **`dedupe` keeps the least cover**, the only one there is, and none is shorter that is made of
the sources.  On what is kept it changes nothing, and from another order of the sources it keeps
the same but for sources that cover each other. -/
theorem dedupe_least {sources : List Source}
    (absolute : ∀ s ∈ sources, s.path.isAbsolute = true) :
    (∃ some_kept, some_kept.map Prod.fst = dedupe sources ∧
        ∀ others, LeastCover sources others ↔ others = some_kept) ∧
      (∀ cover ⊆ sources, (∀ s ∈ sources, ∃ t ∈ cover, t.covers s = true) →
        (dedupe sources).length ≤ cover.length) ∧
      dedupe (dedupe sources) = dedupe sources ∧
      ∀ shuffled, sources.Perm shuffled →
        ∃ others, others.Perm (dedupe shuffled) ∧ List.Forall₂ Mutual (dedupe sources) others := by
  have least := leastCover_kept absolute
  refine ⟨⟨kept sources, (dedupe_eq sources).symm, fun others => ?_⟩, ?_, dedupe_dedupe absolute,
    fun _ => dedupe_of_perm absolute⟩
  · exact ⟨fun least' => least'.eq absolute least, fun same => same ▸ least⟩
  · intro cover inside covering
    have places := (nodup_place_dedupe absolute).subperm (place_mem_of_cover absolute inside covering)
    simpa using places.length_le

/-- The first two are about the same, so it is the order that says which of them stays; the last one
goes elsewhere. -/
theorem dedupe_least_reversed :
    let sources : List Source :=
      [⟨.ofString "/src/", ""⟩, ⟨.ofString "/src", "./"⟩, ⟨.ofString "/src/app/lib", "app//lib"⟩,
        ⟨.ofString "/src/../src/app/", "../app"⟩]
    (∀ s ∈ sources, s.path.isAbsolute = true) ∧
      dedupe sources = [⟨.ofString "/src/", ""⟩, ⟨.ofString "/src/../src/app/", "../app"⟩] ∧
      dedupe sources.reverse =
        [⟨.ofString "/src/../src/app/", "../app"⟩, ⟨.ofString "/src", "./"⟩] ∧
      ∃ others, others.Perm (dedupe sources.reverse) ∧
        List.Forall₂ Mutual (dedupe sources) others := by
  intro sources
  have absolute : ∀ s ∈ sources, s.path.isAbsolute = true := by decide
  exact ⟨absolute, by decide, by decide,
    (dedupe_least absolute).2.2.2 _ (List.reverse_perm sources).symm⟩

end Source

end DevMode
