/-
# DevMode.Proofs.Beneath -- which ways down are right

A way down leads through names only: the steps of the clean target are those of the clean base and
then a way without a step up (`LeadsDown`).  What `relative?` finds is right in this sense but for
two kinds of pairs, `Misjudged`; `descends_right_iff` says that there are no others, and what is
found for these:

* a base that only climbs, with a target that climbs further: the steps up that are left over are
  found as a way down;
* the base `.`, with a target that starts with a name of two dots and more: the name is taken for a
  step up, and no way is found.

So nothing is misjudged from a base that is absolute or ends in a name.
-/
import DevMode.Proofs.Canonical

namespace DevMode

set_option autoImplicit false

/-! ## Steps up -/

namespace Location

variable {l : Location}

/-- Before a step up there are only steps up. -/
theorem WellFormed.climbs_before (wf : l.WellFormed) {front back : List Segment}
    (cut : l.segments = front ++ back) (climbs : ['.', '.'] ∈ back) :
    front = List.replicate front.length ['.', '.'] ∧
      List.replicate (front.length + 1) ['.', '.'] <+: l.segments := by
  rw [segments] at cut ⊢
  rcases List.append_eq_append_iff.1 cut with ⟨more, -, behind⟩ | ⟨left, climb, rfl⟩
  · refine absurd ?_ wf.climb_notMem
    rw [behind]
    exact List.mem_append_right more climbs
  · obtain ⟨height, front_climbs, -⟩ := List.append_eq_replicate_iff.1 climb.symm
    have some_left : left ≠ [] := by
      rintro rfl
      exact wf.climb_notMem climbs
    have enough : front.length + 1 ≤ l.up := by
      have some_length := List.length_pos_iff.2 some_left
      omega
    refine ⟨front_climbs, List.IsPrefix.trans ?_ (List.prefix_append _ _)⟩
    exact List.prefix_replicate_iff.2 (by simpa using enough)

/-- Behind a name there are only names. -/
theorem WellFormed.climb_notMem_of_head (wf : l.WellFormed) {s : Segment} {rest : List Segment}
    (first : l.segments = s :: rest) (named : s ≠ ['.', '.']) : ['.', '.'] ∉ l.segments := by
  have cut : l.segments = [s] ++ rest := first
  rw [first]
  rintro (_ | ⟨_, climbs⟩)
  · exact named rfl
  · obtain ⟨lone, -⟩ := wf.climbs_before cut climbs
    exact named (List.cons_eq_cons.1 lone).1

end Location

/-! ## Ways by the text -/

namespace RemotePath

open Location

/-- The steps lead from the base down to the target, through names. -/
structure LeadsDown (base target : String) (ss : List Segment) : Prop where
  alike : isAbsolute (clean base) = isAbsolute (clean target)
  behind : steps (clean target) = steps (clean base) ++ ss
  descends : ['.', '.'] ∉ ss

/-- A pair of paths that `relative?` takes wrong. -/
inductive Misjudged (base target : String) : Prop where
  /-- The base only climbs, and the target climbs further. -/
  | climb (k : Nat) (only_up : steps (clean base) = List.replicate (k + 1) ['.', '.'])
      (further : List.replicate (k + 2) ['.', '.'] <+: steps (clean target))
  /-- The base stands still, and the target starts with a name of two dots and more. -/
  | dotted (s : Segment) (rest : List Segment) (still : clean base = ".")
      (relative : isAbsolute (clean target) = false) (first : steps (clean target) = s :: rest)
      (named : s ≠ ['.', '.']) (dots : ['.', '.'] <+: s)

theorem steps_clean (path : String) : steps (clean path) = (parse path.toList).segments :=
  steps_render (wellFormed_parse path.toList)

theorem clean_eq_dot_iff (path : String) : clean path = "." ↔ parse path.toList = origin false := by
  rw [← render_eq_dot_iff (wellFormed_parse path.toList), clean, ← String.ofList_inj]

variable {base target : String} {ss : List Segment}

theorem leadsDown_iff :
    LeadsDown base target ss ↔ (parse base.toList).absolute = (parse target.toList).absolute ∧
      (parse target.toList).segments = (parse base.toList).segments ++ ss ∧ ['.', '.'] ∉ ss := by
  have kind (path : String) : isAbsolute (clean path) = (parse path.toList).absolute :=
    isAbsolute_render (wellFormed_parse path.toList)
  constructor
  · rintro ⟨alike, behind, descends⟩
    exact ⟨by rwa [kind, kind] at alike, by rwa [steps_clean, steps_clean] at behind, descends⟩
  · rintro ⟨alike, behind, descends⟩
    exact ⟨by rwa [kind, kind], by rwa [steps_clean, steps_clean], descends⟩

/-! ## Where no pair is misjudged -/

/-- A way that is found climbs from a base that only climbs, or not at all. -/
theorem leadsDown_of_descends (fair : ¬ Misjudged base target)
    (down : (parse base.toList).Descends (parse target.toList) ss) : LeadsDown base target ss := by
  refine leadsDown_iff.2 ⟨down.alike, down.behind, fun climbs => ?_⟩
  have wb := wellFormed_parse base.toList
  have wt := wellFormed_parse target.toList
  obtain ⟨only_up, further⟩ := wt.climbs_before down.behind climbs
  cases height : (parse base.toList).segments.length with
  | zero =>
      -- From where the path starts, the step up comes first, and no such way is found.
      have none_before := List.length_eq_zero_iff.1 height
      have relative := wt.relative_of_climb (down.behind ▸ List.mem_append_right _ climbs)
      have here : parse base.toList = origin false :=
        wb.ext (wellFormed_origin false) (down.alike.trans relative) none_before
      obtain ⟨rest, first⟩ := further
      rw [height, down.behind, none_before, List.nil_append] at first
      exact down.undotted here ['.', '.'] (by rw [← first]; rfl) (List.prefix_refl _)
  | succ k =>
      rw [height] at only_up further
      exact fair (.climb k ((steps_clean base).trans only_up) (by rwa [steps_clean]))

/-- A way through names is found, unless it starts with two dots. -/
theorem descends_of_leadsDown (fair : ¬ Misjudged base target) (down : LeadsDown base target ss) :
    (parse base.toList).Descends (parse target.toList) ss := by
  obtain ⟨alike, behind, descends⟩ := leadsDown_iff.1 down
  refine ⟨alike, behind, fun here s first dots => ?_⟩
  obtain ⟨rest, rfl⟩ := List.head?_eq_some_iff.1 first
  have still := (clean_eq_dot_iff base).2 here
  have relative : isAbsolute (clean target) = false := by
    rw [← down.alike, still]
    rfl
  have steps_target : steps (clean target) = s :: rest := by
    rw [down.behind, still]
    rfl
  have named : s ≠ ['.', '.'] := by
    rintro rfl
    exact descends List.mem_cons_self
  exact fair (.dotted s rest still relative steps_target named dots)

/-! ## Where one is -/

/-- From a base that only climbs, the steps up behind it are found as a way down. -/
theorem relative?_of_climb {k : Nat}
    (only_up : steps (clean base) = List.replicate (k + 1) ['.', '.'])
    (further : List.replicate (k + 2) ['.', '.'] <+: steps (clean target)) :
    ∃ rest, steps (clean target) = steps (clean base) ++ ['.', '.'] :: rest ∧
      relative? base target = some (written (['.', '.'] :: rest)) := by
  obtain ⟨rest, text⟩ := further
  have behind : steps (clean target) = steps (clean base) ++ ['.', '.'] :: rest := by
    rw [← text, only_up, List.replicate_succ' (n := k + 1), List.append_assoc]
    rfl
  refine ⟨rest, behind, relative?_eq_some_iff.2 ⟨_, ⟨?_, ?_, fun here => ?_⟩, rfl⟩⟩
  · rw [steps_clean] at only_up text
    have relative_base := (wellFormed_parse base.toList).relative_of_climb (by rw [only_up]; simp)
    have relative_target :=
      (wellFormed_parse target.toList).relative_of_climb (by rw [← text]; simp)
    exact relative_base.trans relative_target.symm
  · rwa [steps_clean, steps_clean] at behind
  · rw [steps_clean, here] at only_up
    cases only_up

/-- No way through names leads to where a step up is left over. -/
theorem not_leadsDown_of_climb {rest : List Segment}
    (behind : steps (clean target) = steps (clean base) ++ ['.', '.'] :: rest) :
    ¬ ∃ ss, LeadsDown base target ss := by
  rintro ⟨ss, lead⟩
  have same : ss = ['.', '.'] :: rest := List.append_cancel_left (lead.behind.symm.trans behind)
  exact lead.descends (same ▸ List.mem_cons_self)

/-- From where a path starts, a way through names leads down, whatever it starts with. -/
theorem leadsDown_of_dotted {s : Segment} {rest : List Segment} (still : clean base = ".")
    (relative : isAbsolute (clean target) = false) (first : steps (clean target) = s :: rest)
    (named : s ≠ ['.', '.']) : LeadsDown base target (s :: rest) := by
  refine ⟨?_, ?_, ?_⟩
  · rw [still, relative]
    rfl
  · rw [still, first]
    rfl
  · rw [steps_clean] at first
    rw [← first]
    exact (wellFormed_parse target.toList).climb_notMem_of_head first named

/-- From where a path starts, no way is found that starts with two dots. -/
theorem relative?_of_dotted {s : Segment} {rest : List Segment} (still : clean base = ".")
    (first : steps (clean target) = s :: rest) (dots : ['.', '.'] <+: s) :
    relative? base target = none := by
  rw [Option.eq_none_iff_forall_ne_some]
  intro way found
  obtain ⟨ss, down, -⟩ := relative?_eq_some_iff.1 found
  have here := (clean_eq_dot_iff base).1 still
  have same : s :: rest = ss := by
    rw [← first, steps_clean, down.behind, here]
    rfl
  exact down.undotted here s (by rw [← same]; rfl) dots

/-- What is found for a pair that is misjudged: a way that climbs, or none where one leads down. -/
theorem Misjudged.found (wrong : Misjudged base target) :
    (∃ rest, clean base ≠ "." ∧ steps (clean target) = steps (clean base) ++ ['.', '.'] :: rest ∧
        relative? base target = some (written (['.', '.'] :: rest)) ∧
        ¬ ∃ ss, LeadsDown base target ss) ∨
      clean base = "." ∧ relative? base target = none ∧ ∃ ss, LeadsDown base target ss := by
  rcases wrong with ⟨k, only_up, further⟩ | ⟨s, rest, still, relative, first, named, dots⟩
  · obtain ⟨rest, behind, found⟩ := relative?_of_climb only_up further
    refine .inl ⟨rest, fun still => ?_, behind, found, not_leadsDown_of_climb behind⟩
    rw [still] at only_up
    cases only_up
  · exact .inr ⟨still, relative?_of_dotted still first dots, _,
      leadsDown_of_dotted still relative first named⟩

/-- **Which ways down are right, and what is found instead.**  For all pairs but the misjudged
ones, a way is found just if it leads down through names.  For these, what is found is wrong: from
a base that only climbs, the steps up that are left over, where no way leads down; from `.`, nothing
where a way leads down. -/
theorem descends_right_iff (base target : String) :
    ((∀ way, relative? base target = some way ↔
        ∃ ss, LeadsDown base target ss ∧ way = written ss) ↔ ¬ Misjudged base target) ∧
      (Misjudged base target →
        (∃ rest, clean base ≠ "." ∧
            steps (clean target) = steps (clean base) ++ ['.', '.'] :: rest ∧
            relative? base target = some (written (['.', '.'] :: rest)) ∧
            ¬ ∃ ss, LeadsDown base target ss) ∨
          clean base = "." ∧ relative? base target = none ∧
            ∃ ss, LeadsDown base target ss) := by
  refine ⟨⟨fun right wrong => ?_, fun fair way => ?_⟩, Misjudged.found⟩
  · rcases wrong.found with ⟨rest, -, -, found, nowhere⟩ | ⟨-, missed, ss, lead⟩
    · obtain ⟨ss, lead, -⟩ := (right _).1 found
      exact nowhere ⟨ss, lead⟩
    · rw [(right _).2 ⟨ss, lead, rfl⟩] at missed
      cases missed
  · rw [relative?_eq_some_iff]
    exact exists_congr fun ss => and_congr_left fun _ =>
      ⟨leadsDown_of_descends fair, descends_of_leadsDown fair⟩

/-- A step up is found as a way down, and a name that starts with two dots is not found. -/
theorem climbs_as_way_down :
    (relative? ".." "../.." = some ".." ∧ ¬ ∃ ss, LeadsDown ".." "../.." ss ∧ ".." = written ss) ∧
      relative? "." "..foo" = none ∧ LeadsDown "." "..foo" ["..foo".toList] := by
  refine ⟨⟨rfl, ?_⟩, rfl, rfl, by decide, by decide⟩
  rintro ⟨ss, ⟨-, behind, descends⟩, -⟩
  have rest : [['.', '.'], ['.', '.']] = ['.', '.'] :: ss := behind
  obtain ⟨-, rfl⟩ := List.cons_eq_cons.1 rest
  exact descends List.mem_cons_self

/-- Below a directory with a name, dots in front of a name are no trouble. -/
theorem descends_right_iff_of_named :
    ¬ Misjudged "/srv/app" "/srv/./app/..cache/x" ∧
      ∀ way, relative? "/srv/app" "/srv/./app/..cache/x" = some way ↔
        ∃ ss, LeadsDown "/srv/app" "/srv/./app/..cache/x" ss ∧ way = written ss := by
  have fair : ¬ Misjudged "/srv/app" "/srv/./app/..cache/x" := by
    rintro (⟨k, only_up, -⟩ | ⟨-, -, still, -⟩)
    · have names : steps (clean "/srv/app") = ["srv".toList, "app".toList] := rfl
      rw [names] at only_up
      cases only_up
    · exact absurd still (by decide)
  exact ⟨fair, (descends_right_iff _ _).1.2 fair⟩

end RemotePath

end DevMode
