/-
# DevMode.Proofs.Routing -- which service a line of the log goes to

A line of the log is in the format exactly if it is what `LogEntry.toString` writes of an entry
whose parts keep to it (`LogEntry.Written`), and then it is read as that entry
(`ofString?_eq_some_iff`).

A line of the platform names the instance it is about, and the instance is named for its service:
the name, a hyphen, and more.  `system_line_routed` says where such a line goes.  A service may have
hyphens in its name, but what counts is the text before the first one, so the line of a service
with a hyphen in its name goes to another service or to none (`hyphenated_service_unheard`).
-/
import DevMode.Log.Entry
import DevMode.Manifest

namespace DevMode

set_option autoImplicit false

namespace LogEntry

/-! ## The format -/

theorem length_of_hasShape {shape s : List Char} (fits : hasShape shape s = true) :
    s.length = shape.length := by
  induction shape generalizing s with
  | nil => simpa [hasShape] using fits
  | cons x shape ih =>
      cases s with
      | nil => simp [hasShape] at fits
      | cons c s =>
          rw [hasShape, Bool.and_eq_true] at fits
          simp [ih fits.2]

theorem takeShape?_eq_some_iff {shape s front rest : List Char} :
    takeShape? shape s = some (front, rest) ↔ s = front ++ rest ∧ hasShape shape front = true := by
  unfold takeShape?
  constructor
  · intro taken
    obtain ⟨fits, same⟩ := Option.ite_none_right_eq_some.1 taken
    obtain ⟨rfl, rfl⟩ := Prod.mk.inj (Option.some.inj same)
    exact ⟨(List.take_append_drop shape.length s).symm, fits⟩
  · rintro ⟨rfl, fits⟩
    rw [← length_of_hasShape fits, List.take_left, List.drop_left, if_pos fits]

theorem takeField?_eq_some_iff {sep : Char} {s front rest : List Char} :
    takeField? sep s = some (front, rest) ↔
      s = front ++ sep :: rest ∧ front ≠ [] ∧ sep ∉ front := by
  unfold takeField?
  split
  · rename_i behind cut
    obtain ⟨rfl, -⟩ := Text.splitOnce?_eq_some_iff.1 cut
    constructor
    · intro taken
      cases taken
    · rintro ⟨text, solid, whole⟩
      have again := Text.splitOnce?_eq_some_iff.2 ⟨text, whole⟩
      rw [cut] at again
      exact absurd (Prod.mk.inj (Option.some.inj again)).1.symm solid
  · rename_i other
    rw [Text.splitOnce?_eq_some_iff]
    constructor
    · rintro ⟨text, whole⟩
      refine ⟨text, ?_, whole⟩
      rintro rfl
      exact other rest (Text.splitOnce?_eq_some_iff.2 ⟨text, whole⟩)
    · rintro ⟨text, -, whole⟩
      exact ⟨text, whole⟩

/-- An entry that can be written: date and clock have their shapes, and no other part holds what
ends it, or is empty unless it is the message. -/
structure Written (e : LogEntry) : Prop where
  date : hasShape dateShape e.date.toList = true
  time : hasShape timeShape e.time.toList = true
  kind : e.kind ≠ "" ∧ '/' ∉ e.kind.toList
  name : e.name ≠ "" ∧ '/' ∉ e.name.toList
  instanceId : e.instanceId ≠ "" ∧ ' ' ∉ e.instanceId.toList
  message : '\n' ∉ e.message.toList

theorem toList_toString (e : LogEntry) :
    e.toString.toList = e.date.toList ++ ('T' :: (e.time.toList ++ ('Z' :: ' ' :: (e.kind.toList ++
      ('/' :: (e.name.toList ++ ('/' :: (e.instanceId.toList ++ (' ' :: e.message.toList))))))))) := by
  simp [toString]

/-- **A line is read as an entry exactly if it is what is written of it.** -/
theorem ofString?_eq_some_iff {line : String} {e : LogEntry} :
    ofString? line = some e ↔ line = e.toString ∧ e.Written := by
  constructor
  · intro read
    unfold ofString? ofChars? at read
    obtain ⟨⟨date, s₁⟩, dated, read⟩ := Option.bind_eq_some_iff.1 read
    obtain ⟨s₂, mark, read⟩ := Option.bind_eq_some_iff.1 read
    obtain ⟨⟨time, s₃⟩, timed, read⟩ := Option.bind_eq_some_iff.1 read
    obtain ⟨s₄, zone, read⟩ := Option.bind_eq_some_iff.1 read
    obtain ⟨⟨kind, s₅⟩, kinded, read⟩ := Option.bind_eq_some_iff.1 read
    obtain ⟨⟨name, s₆⟩, named, read⟩ := Option.bind_eq_some_iff.1 read
    obtain ⟨⟨instanceId, message⟩, placed, read⟩ := Option.bind_eq_some_iff.1 read
    obtain ⟨one_line, same⟩ := Option.ite_none_left_eq_some.1 read
    obtain rfl := Option.some.inj same
    obtain ⟨text₁, date_fits⟩ := takeShape?_eq_some_iff.1 dated
    obtain ⟨rfl, time_fits⟩ := takeShape?_eq_some_iff.1 timed
    obtain ⟨rfl, kind_fits⟩ := takeField?_eq_some_iff.1 kinded
    obtain ⟨rfl, name_fits⟩ := takeField?_eq_some_iff.1 named
    obtain ⟨rfl, instance_fits⟩ := takeField?_eq_some_iff.1 placed
    have text₂ := Text.after?_eq_some_iff.1 mark
    have text₃ := Text.after?_eq_some_iff.1 zone
    have field {part : List Char} {sep : Char} (fits : part ≠ [] ∧ sep ∉ part) :
        String.ofList part ≠ "" ∧ sep ∉ (String.ofList part).toList := by
      rw [String.toList_ofList]
      exact ⟨fun empty => fits.1 (by simpa using congrArg String.toList empty), fits.2⟩
    constructor
    · apply String.toList_inj.1
      rw [toList_toString, text₁, text₂, text₃]
      simp
    · exact ⟨by rwa [String.toList_ofList], by rwa [String.toList_ofList], field kind_fits,
        field name_fits, field instance_fits, by rwa [String.toList_ofList]⟩
  · rintro ⟨rfl, written⟩
    have solid {part : String} (some_part : part ≠ "") : part.toList ≠ [] := by simpa using some_part
    unfold ofString? ofChars?
    refine Option.bind_eq_some_iff.2
      ⟨(e.date.toList, _), takeShape?_eq_some_iff.2 ⟨toList_toString e, written.date⟩, ?_⟩
    refine Option.bind_eq_some_iff.2 ⟨_, Text.after?_eq_some_iff.2 rfl, ?_⟩
    refine Option.bind_eq_some_iff.2
      ⟨(e.time.toList, _), takeShape?_eq_some_iff.2 ⟨rfl, written.time⟩, ?_⟩
    refine Option.bind_eq_some_iff.2 ⟨_, Text.after?_eq_some_iff.2 rfl, ?_⟩
    refine Option.bind_eq_some_iff.2 ⟨(e.kind.toList, _),
      takeField?_eq_some_iff.2 ⟨rfl, solid written.kind.1, written.kind.2⟩, ?_⟩
    refine Option.bind_eq_some_iff.2 ⟨(e.name.toList, _),
      takeField?_eq_some_iff.2 ⟨rfl, solid written.name.1, written.name.2⟩, ?_⟩
    refine Option.bind_eq_some_iff.2 ⟨(e.instanceId.toList, _),
      takeField?_eq_some_iff.2 ⟨rfl, solid written.instanceId.1, written.instanceId.2⟩, ?_⟩
    simp only [if_neg written.message, String.ofList_toList]

/-! ## The service of an instance -/

/-- What counts of an instance is the text before its first hyphen. -/
theorem ownerOf_append {first : String} (plain : '-' ∉ first.toList) (more : String) :
    ownerOf (first ++ "-" ++ more) = first := by
  have text : (first ++ "-" ++ more).toList = first.toList ++ '-' :: more.toList := by simp
  rw [ownerOf, text, Text.takeWhile_ne_append plain, String.ofList_toList]

theorem route?_of_system {e : LogEntry} (system : e.kind = "system") (interest : List String) :
    e.route? interest =
      if ownerOf e.instanceId ∈ interest then some ⟨ownerOf e.instanceId, e.message⟩ else none := by
  have other : e.kind ≠ "service" := by simp [system]
  simp only [route?, if_neg other, if_pos system, List.contains_iff_mem]

end LogEntry

/-! ## Names of services -/

namespace Manifest

theorem isServiceName_of_validate {m : Manifest} (valid : m.validate = .ok ()) {s : Service}
    (member : s ∈ m.services) : isServiceName s.name = true := by
  unfold validate at valid
  split at valid
  · cases valid
  · split at valid
    · cases valid
    · rename_i none_bad
      simpa using List.find?_eq_none.1 none_bad s member

theorem space_notMem_of_isServiceName {name : String} (named : isServiceName name = true) :
    ' ' ∉ name.toList := by
  unfold isServiceName at named
  split at named
  · cases named
  · rename_i c rest text
    intro space
    rw [text] at space
    rw [Bool.and_eq_true, List.all_eq_true] at named
    rcases List.mem_cons.1 space with rfl | inside
    · exact absurd named.1 (by decide)
    · exact absurd (named.2 ' ' inside) (by decide)

/-- A text with a hyphen, cut at the first one. -/
theorem exists_cut_of_hyphen {name : String} (hyphen : '-' ∈ name.toList) :
    ∃ first more : String, name = first ++ "-" ++ more ∧ '-' ∉ first.toList := by
  obtain ⟨front, behind, cut, plain⟩ := List.eq_append_cons_of_mem hyphen
  refine ⟨.ofList front, .ofList behind, String.toList_inj.1 ?_, by simpa using plain⟩
  simp [cut]

end Manifest

namespace LogEntry

/-- **Where a line of the platform goes.**  The line of an instance of a service that a manifest may
have is read.  It reaches that service exactly if there is no hyphen in the name of the service;
otherwise what stands before the first hyphen is taken for the service. -/
theorem system_line_routed {m : Manifest} (valid : m.validate = .ok ()) {s : Service}
    (member : s ∈ m.services) {date time origin message suffix : String}
    (dated : hasShape dateShape date.toList = true) (timed : hasShape timeShape time.toList = true)
    (from_somewhere : origin ≠ "" ∧ '/' ∉ origin.toList) (one_line : '\n' ∉ message.toList)
    (unspaced : ' ' ∉ suffix.toList) :
    let e : LogEntry := ⟨date, time, "system", origin, s.name ++ "-" ++ suffix, message⟩
    ofString? (date ++ "T" ++ time ++ "Z system/" ++ origin ++ "/" ++ s.name ++ "-" ++ suffix ++
        " " ++ message) = some e ∧
      e.route? [s.name] = (if '-' ∈ s.name.toList then none else some ⟨s.name, message⟩) ∧
      ∀ first more : String, s.name = first ++ "-" ++ more → '-' ∉ first.toList →
        ∀ interest, e.route? interest = if first ∈ interest then some ⟨first, message⟩ else none := by
  intro e
  have named := Manifest.isServiceName_of_validate valid member
  have instance_fits : e.instanceId ≠ "" ∧ ' ' ∉ e.instanceId.toList := by
    have unspaced_name := Manifest.space_notMem_of_isServiceName named
    constructor
    · simp [e]
    · simp [e, unspaced_name, unspaced]
  have system : "system" ≠ "" ∧ '/' ∉ "system".toList := by decide
  have written : e.Written := ⟨dated, timed, system, from_somewhere, instance_fits, one_line⟩
  have elsewhere : ∀ first more : String, s.name = first ++ "-" ++ more → '-' ∉ first.toList →
      ∀ interest, e.route? interest = if first ∈ interest then some ⟨first, message⟩ else none := by
    intro first more cut plain interest
    have owner : ownerOf e.instanceId = first := by
      have text : e.instanceId = first ++ "-" ++ (more ++ "-" ++ suffix) := by
        simp [e, cut, String.append_assoc]
      rw [text, ownerOf_append plain]
    rw [route?_of_system rfl, owner]
  refine ⟨ofString?_eq_some_iff.2 ⟨?_, written⟩, ?_, elsewhere⟩
  · apply String.toList_inj.1
    simp [toList_toString, e]
  · split
    · rename_i hyphen
      obtain ⟨first, more, cut, plain⟩ := Manifest.exists_cut_of_hyphen hyphen
      have other : first ∉ [s.name] := by
        intro same
        rw [← List.mem_singleton.1 same] at hyphen
        exact plain hyphen
      rw [elsewhere first more cut plain, if_neg other]
    · rename_i plain
      have owner : ownerOf e.instanceId = s.name := ownerOf_append plain suffix
      rw [route?_of_system rfl, owner, if_pos (List.mem_singleton_self _)]

/-- The line of an instance of `web-api` goes to `web` if both are of interest, and to nobody if only
`web-api` is. -/
theorem system_line_routed_misled :
    let api : Service := ⟨"web-api", .default, none⟩
    let m : Manifest := ⟨[⟨"web", .default, none⟩, api]⟩
    let e : LogEntry :=
      ⟨"2024-01-01", "00:00:00", "system", "k8s", "web-api-5d8f7-abc", "Scheduled on node/1"⟩
    m.validate = .ok () ∧ api ∈ m.services ∧
      ofString? "2024-01-01T00:00:00Z system/k8s/web-api-5d8f7-abc Scheduled on node/1" = some e ∧
      e.route? ["web-api"] = none ∧
      e.route? ["web", "web-api"] = some ⟨"web", "Scheduled on node/1"⟩ := by
  intro api m e
  have valid : m.validate = .ok () := by
    simp only [m, api]
    rfl
  have member : api ∈ m.services := by simp [m]
  obtain ⟨read, alone, elsewhere⟩ :=
    system_line_routed valid member (by decide : hasShape dateShape "2024-01-01".toList = true)
      (by decide : hasShape timeShape "00:00:00".toList = true)
      (by decide : "k8s" ≠ "" ∧ '/' ∉ "k8s".toList)
      (by decide : '\n' ∉ "Scheduled on node/1".toList) (by decide : ' ' ∉ "5d8f7-abc".toList)
  exact ⟨valid, member, read, alone.trans (if_pos (by decide)), elsewhere "web" "api" rfl (by decide) ["web", "web-api"]⟩

/-- A service that a manifest may have hears nothing of its own instance. -/
theorem hyphenated_service_unheard :
    let m : Manifest := ⟨[⟨"web-api", .default, none⟩]⟩
    let e : LogEntry := ⟨"2024-01-01", "00:00:00", "system", "k8s", "web-api-5d8f7", "Scheduled"⟩
    m.validate = .ok () ∧
      ofString? "2024-01-01T00:00:00Z system/k8s/web-api-5d8f7 Scheduled" = some e ∧
      e.instanceId = "web-api" ++ "-" ++ "5d8f7" ∧ e.route? ["web-api"] = none := by
  intro m e
  exact ⟨rfl, by decide, rfl, by decide⟩

end LogEntry

end DevMode
