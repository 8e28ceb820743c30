/-
# DevMode.Proofs.RemoteFile -- additions and removals of a file address one remote file

An added file is unpacked under the root of a process, at the name that its entry has in the
archive, and a removed file is deleted at a path of its own making.  `Sync.addresses_agree` says
that both are the same place, and where it lies under the directory that the source leads to.

* `render_of_absolute` is what the shortest path to an absolute location looks like.
* `entryName_of_absolute`: the slash that an entry name lacks is the only one it lacks.
* `relative?_walk_names`: from an absolute location, the way down through names is those names.
-/
import DevMode.Platform.Memory
import DevMode.Proofs.Delivery
import DevMode.Proofs.Descent
import DevMode.Sync.Script

namespace DevMode

set_option autoImplicit false

/-! ## Absolute paths -/

namespace Location

variable {l : Location}

theorem WellFormed.render_of_absolute (wf : l.WellFormed) (absolute : l.absolute = true) :
    l.render = '/' :: Text.glue '/' l.names := by
  rw [render, if_pos absolute, segments, wf.root absolute, List.replicate_zero, List.nil_append]

theorem WellFormed.walk_names {names : List Segment} (wf : l.WellFormed)
    (named : ∀ s ∈ names, Segment.IsName s) : (l.walk names).WellFormed :=
  wf.walk fun s member => (named s member).2.2.2

end Location

namespace RemotePath

open Location

/-- A path that is joined to the shortest path to a location. -/
theorem join_render {l : Location} (wf : l.WellFormed) (rel : String) :
    join (String.ofList l.render) rel =
      String.ofList (l.walk (Text.pieces '/' rel.toList)).render := by
  rw [join_eq (ne_empty_of_render wf rfl), String.toList_ofList, parse_render wf]

/-- **From an absolute location, the way down through names is those names.** -/
theorem relative?_walk_names {l : Location} (wf : l.WellFormed) (absolute : l.absolute = true)
    {names : List Segment} (named : ∀ s ∈ names, Segment.IsName s) :
    relative? (String.ofList l.render) (String.ofList (l.walk names).render) =
      some (written names) := by
  have down : l.Descends (l.walk names) names := by
    refine ⟨(walk_absolute l names).symm, ?_, fun here => ?_⟩
    · rw [Location.walk_names l named]
      exact (List.append_assoc _ _ _).symm
    · rw [here] at absolute
      cases absolute
  refine relative?_eq_some_iff.2 ⟨names, ?_, rfl⟩
  rwa [String.toList_ofList, String.toList_ofList, parse_render wf, parse_render (wf.walk_names named)]

end RemotePath

/-- What an offset is written as. -/
theorem Source.offset_eq {rel : LocalPath} (named : rel.Named) :
    offset rel = RemotePath.written rel.names :=
  offset_eq_written fun _ member =>
    have name := named.isName member
    ⟨name.1, name.2.1, name.2.2.2⟩

namespace Sync

open RemotePath

/-! ## The place of an entry -/

/-- Where the entry for an added file is unpacked: its name, taken from the root. -/
def unpackedAt (remote : String) (c : Change) : String := "/" ++ entryName remote c.remoteRelative

/-- **An entry name lacks just the slash at its start.** -/
theorem entryName_of_absolute {l : Location} (wf : l.WellFormed) (absolute : l.absolute = true)
    (rel : String) :
    "/" ++ entryName (String.ofList l.render) rel = join (String.ofList l.render) rel := by
  have wf' := wf.walk_pieces rel.toList
  have place := wf'.render_of_absolute (by rw [Location.walk_absolute, absolute])
  have bare : (Text.glue '/' (l.walk (Text.pieces '/' rel.toList)).names).dropWhile (· = '/') =
      Text.glue '/' (l.walk (Text.pieces '/' rel.toList)).names := by
    have lead := Location.head?_glue (fun s member => (wf'.names s member).1)
      fun s member => (wf'.names s member).2.2.2
    cases text : Text.glue '/' (l.walk (Text.pieces '/' rel.toList)).names with
    | nil => rfl
    | cons c cs =>
        rw [text, List.head?_cons, ne_eq, Option.some.injEq] at lead
        exact List.dropWhile_cons_of_neg (by simpa using lead)
  rw [entryName, join_render wf, String.toList_ofList, place, List.dropWhile_cons_of_pos (by simp),
    bare]
  exact String.toList_injective (by simp)

/-- The entry of an added file has its name from where the file is unpacked. -/
theorem exists_fileEntry {disk : Disk} {remote : String} {c : Change} {bytes : ByteArray}
    (present : entry? disk remote c = .ok (some bytes)) :
    ∃ mode mtime size content,
      Archive.fileEntry (entryName remote c.remoteRelative) mode mtime size content = .ok bytes := by
  unfold entry? at present
  split at present
  · cases present
  · cases present
  · rename_i stat _
    split at present
    · cases present
    · split at present
      · cases present
      · cases present
      · rename_i written
        obtain rfl := Option.some.inj (Except.ok.inj present)
        obtain ⟨content, -, named⟩ := exists_of_bind written
        refine ⟨stat.mode % 0o10000, stat.mtime.toNat, stat.size, content.extract 0 stat.size, ?_⟩
        cases entry : Archive.fileEntry (entryName remote c.remoteRelative) (stat.mode % 0o10000)
            stat.mtime.toNat stat.size (content.extract 0 stat.size) with
        | error e => rw [entry] at named; cases named
        | ok bytes' => rw [entry] at named; exact congrArg _ (Except.ok.inj named)

/-! ## The place of a removed file -/

theorem handleRemoves_apply {σ : Type} (platform : Platform σ) (app pid remote : String)
    {removes : List Change} (some_removes : removes ≠ []) (w : World σ) :
    (handleRemoves platform app pid remote removes w).2 =
      w.answered platform (.filesDelete app pid (removedPaths remote removes)) := by
  have given : removes.isEmpty = false := by simpa using some_removes
  simp only [handleRemoves, given, Bool.false_eq_true, if_false]
  rw [Attempt.bind_ok rfl]
  cases (platform.answer (.filesDelete app pid (removedPaths remote removes)) w.state).1 <;> rfl

/-! ## The directory of a source -/

variable {σ : Type} {platform : Platform σ} {app pid remote : String} {w : World σ}

/-- In a process that tells an absolute directory, every remote leads to an absolute location. -/
theorem exists_resolveRemote
    (stands : isAbsolute remote = false →
      ∃ told, (platform.answer (.processExec app pid workDirCommand) w.state).1 = .ok told ∧
        (Text.trim told.toList).head? = some '/') :
    ∃ l : Location, l.WellFormed ∧ l.absolute = true ∧
      (resolveRemote platform app pid remote w).1 = .ok (String.ofList l.render) := by
  have wf := Location.wellFormed_parse remote.toList
  have lead := Location.parse_absolute remote.toList
  cases absolute : isAbsolute remote with
  | true =>
      refine ⟨Location.parse remote.toList, wf, lead.trans absolute, ?_⟩
      rw [resolveRemote, if_pos absolute]
      rfl
  | false =>
      obtain ⟨told, answer, rooted⟩ := stands absolute
      have some_dir : String.ofList (Text.trim told.toList) ≠ "" := by
        intro none_told
        have no_text := congrArg String.toList none_told
        rw [String.toList_ofList] at no_text
        simp [no_text] at rooted
      refine ⟨_, wf.against (Location.wellFormed_parse _), ?_,
        (resolveRemote_ok platform app pid remote answer).trans
          (congrArg _ (against_eq some_dir remote))⟩
      rw [Location.against, lead.trans absolute, if_neg Bool.false_ne_true, Location.walk_absolute,
        Location.parse_absolute, String.toList_ofList, rooted]
      rfl

/-- **Additions and removals of a file address one remote file**, in whatever way the remote and
the directory of the process are spelled: the place at which an addition is unpacked is the path
that a removal deletes, and it lies under the directory of the source as the file lies under the
source. -/
theorem addresses_agree
    (stands : isAbsolute remote = false →
      ∃ told, (platform.answer (.processExec app pid workDirCommand) w.state).1 = .ok told ∧
        (Text.trim told.toList).head? = some '/') :
    ∃ dir, (resolveRemote platform app pid remote w).1 = .ok dir ∧ isAbsolute dir = true ∧
      clean dir = dir ∧
      (∀ c : Change, c.path.Named →
        (∀ disk bytes, entry? disk dir c = .ok (some bytes) → ∃ mode mtime size content,
          Archive.fileEntry (entryName dir c.remoteRelative) mode mtime size content = .ok bytes) ∧
        relative? dir (unpackedAt dir c) = some (Source.offset c.path)) ∧
      ∀ removes : List Change, removes ≠ [] → ∀ w',
        (handleRemoves platform app pid dir removes w').2 =
          w'.answered platform (.filesDelete app pid (removes.map (unpackedAt dir))) := by
  obtain ⟨l, wf, absolute, resolved⟩ := exists_resolveRemote stands
  have place (c : Change) : unpackedAt (String.ofList l.render) c =
      join (String.ofList l.render) c.remoteRelative := entryName_of_absolute wf absolute _
  refine ⟨String.ofList l.render, resolved, ?_, clean_render wf, fun c named => ⟨?_, ?_⟩, ?_⟩
  · rw [isAbsolute_render wf, absolute]
  · exact fun disk bytes present => exists_fileEntry present
  · have way : l.walk (Text.pieces '/' c.remoteRelative.toList) = l.walk c.path.names := by
      rw [Change.remoteRelative, LocalPath.posix, String.toList_ofList]
      exact Location.walk_pieces_glue l named.whole
    rw [place, join_render wf, way,
      relative?_walk_names wf absolute fun s member => named.isName member, Source.offset_eq named]
  · intro removes some_removes w'
    have same : removes.map (unpackedAt (String.ofList l.render)) =
        removedPaths (String.ofList l.render) removes := List.map_congr_left fun c _ => place c
    rw [handleRemoves_apply platform app pid _ some_removes, same]

/-- A remote that climbs out of the directory of a process, which is told with blanks around it. -/
theorem addresses_agree_behind_climb :
    let w := World.start { Memory.empty with workDir := " /srv//app\n" }
    let remote := "../lib//."
    let file : Change := ⟨.ofString "/src/lib/", .ofString "js//main.js", .remove⟩
    (isAbsolute remote = false → ∃ told,
        (Memory.platform.answer (.processExec "dev" "web-1" workDirCommand) w.state).1 = .ok told ∧
          (Text.trim told.toList).head? = some '/') ∧ file.path.Named ∧
      (resolveRemote Memory.platform "dev" "web-1" remote w).1 = .ok "/srv/lib" ∧
      relative? "/srv/lib" (unpackedAt "/srv/lib" file) = some "js/main.js" ∧
      (handleRemoves Memory.platform "dev" "web-1" "/srv/lib" [file] w).2.state.deletes =
        [("web-1", [unpackedAt "/srv/lib" file])] := by
  intro w remote file
  have stands : isAbsolute remote = false → ∃ told,
      (Memory.platform.answer (.processExec "dev" "web-1" workDirCommand) w.state).1 = .ok told ∧
        (Text.trim told.toList).head? = some '/' := fun _ => ⟨" /srv//app\n", rfl, by decide⟩
  have named : file.path.Named := by
    intro c member
    have spelled : file.path.components = [.name "js".toList, .name "main.js".toList] := by decide
    simp only [spelled, List.mem_cons, List.not_mem_nil, or_false] at member
    rcases member with rfl | rfl
    · exact ⟨_, rfl⟩
    · exact ⟨_, rfl⟩
  obtain ⟨dir, resolved, -, -, placed, deleted⟩ := addresses_agree stands
  have here : (resolveRemote Memory.platform "dev" "web-1" remote w).1 = .ok "/srv/lib" := by
    decide +kernel
  obtain rfl : dir = "/srv/lib" := Except.ok.inj (resolved.symm.trans here)
  refine ⟨stands, named, here, (placed file named).2, ?_⟩
  rw [deleted [file] (List.cons_ne_nil _ _)]
  rfl

end Sync

end DevMode
