/-
# DevMode.Proofs.Upload -- additions are uploaded as a whole or not at all

`archive` says what bytes a list of additions comes to, entry after entry, or which of them
fails first; a script writes just that (`scriptFrom_spec`).  With what a transfer comes to on
every schedule, `handleAdds_all_or_nothing` tells all that an upload can come to.
-/
import DevMode.Proofs.Transfer
import DevMode.Proofs.World
import DevMode.Platform.Memory
import DevMode.Sync.Engine

namespace DevMode.Sync

set_option autoImplicit false

/-! ## Archives -/

/-- The entries of additions in order; what has gone has none. -/
def entries (disk : Disk) (remote : String) : List Change → Except SyncError (List ByteArray)
  | [] => .ok []
  | add :: rest =>
    match entry? disk remote add with
    | .error fault => .error (.io add.localPath.toString fault)
    | .ok entry => (entries disk remote rest).map (entry.toList ++ ·)

/-- The complete archive of additions, or the failure of the first that has one. -/
def archive (disk : Disk) (remote : String) (adds : List Change) : Except SyncError ByteArray :=
  (entries disk remote adds).map fun es => Pipe.joined es ++ Archive.trailer

variable (disk : Disk) (remote : String)

/-- **A script writes the archive**, or ends with the failure of it. -/
theorem scriptFrom_spec (count : Nat) (adds : List Change) :
    match entries disk remote adds with
    | .ok es =>
      (scriptFrom disk remote count adds).outcome = .ok (count + es.length) ∧
        written (scriptFrom disk remote count adds).writes = Pipe.joined es ++ Archive.trailer
    | .error e => (scriptFrom disk remote count adds).outcome = .error e := by
  induction adds generalizing count with
  | nil => simp [entries, scriptFrom]
  | cons add rest ih =>
      simp only [entries, scriptFrom]
      cases entry? disk remote add with
      | error fault => rfl
      | ok entry =>
          cases entry with
          | none =>
              have later := ih count
              cases found : entries disk remote rest with
              | ok es => simpa [found, Except.map] using later
              | error e => simpa [found, Except.map] using later
          | some bytes =>
              have later := ih (count + 1)
              cases found : entries disk remote rest with
              | error e => simpa [found, Except.map] using later
              | ok es =>
                  simp only [found] at later
                  obtain ⟨outcome, whole⟩ := later
                  refine ⟨?_, ?_⟩
                  · rw [outcome]
                    simp only [Option.toList_some, List.cons_append, List.nil_append, List.length_cons,
                      Except.ok.injEq]
                    omega
                  · simp [whole, ByteArray.append_assoc]

theorem script_of_archive {adds : List Change} {bytes : ByteArray}
    (whole : archive disk remote adds = .ok bytes) :
    (∃ n, (script disk remote adds).outcome = .ok n) ∧ (script disk remote adds).bytes = bytes := by
  have spec := scriptFrom_spec disk remote 0 adds
  unfold archive at whole
  cases found : entries disk remote adds with
  | error e => simp [found, Except.map] at whole
  | ok es =>
      simp only [found, Except.map, Except.ok.injEq] at whole spec
      refine ⟨⟨_, spec.1⟩, ?_⟩
      rw [Script.bytes_eq, script, spec.2, whole]

theorem script_of_archive_error {adds : List Change} {e : SyncError}
    (broken : archive disk remote adds = .error e) : (script disk remote adds).outcome = .error e := by
  have spec := scriptFrom_spec disk remote 0 adds
  unfold archive at broken
  cases found : entries disk remote adds with
  | ok es => simp [found, Except.map] at broken
  | error e' =>
      obtain rfl : e' = e := by simpa [found, Except.map] using broken
      simpa [found, script] using spec

/-- No entry fails for want of a reader. -/
theorem entry?_own {add : Change} {fault : ArchiveFault}
    (failed : entry? disk remote add = .error fault) (f : WriteFault) : fault ≠ .pipe f := by
  rintro rfl
  unfold entry? at failed
  split at failed
  · simp at failed
  · simp at failed
  · rename_i stat looked
    split at failed
    · simp at failed
    · split at failed
      · simp at failed
      · rename_i e _ broken
        obtain rfl := Except.error.inj failed
        unfold fileEntry at broken
        cases read : disk.read add.localPath with
        | error e => simp [read, bind, Except.bind] at broken
        | ok data =>
            simp only [read, mapError_ok, bind, Except.bind] at broken
            obtain ⟨e, never⟩ := exists_of_mapError broken
            cases never
      · simp at failed

/-- A script's failure is one of the files'. -/
theorem script_own (adds : List Change) : ¬ Transfer.IsBroken (script disk remote adds).outcome := by
  rintro ⟨path, f, outcome⟩
  have no_pipe : ∀ l, entries disk remote l ≠ .error (.io path (.pipe f)) := by
    intro l
    induction l with
    | nil => simp [entries]
    | cons add rest ih =>
        simp only [entries]
        cases found : entry? disk remote add with
        | error fault =>
            have own := entry?_own disk remote found f
            simp [own]
        | ok entry =>
            cases later : entries disk remote rest with
            | ok es => simp [Except.map]
            | error e =>
                rw [later] at ih
                simpa [Except.map] using ih
  have spec := scriptFrom_spec disk remote 0 adds
  rw [script] at outcome
  cases found : entries disk remote adds with
  | ok es => simp [found, outcome] at spec
  | error e =>
      simp only [found, outcome, Except.error.injEq] at spec
      exact no_pipe adds (by rw [found, spec])

theorem entries_ok_iff (adds : List Change) :
    (∃ es, entries disk remote adds = .ok es) ↔
      ∀ add ∈ adds, ∃ entry, entry? disk remote add = .ok entry := by
  induction adds with
  | nil => simp [entries]
  | cons add rest ih =>
      rw [List.forall_mem_cons, ← ih, entries]
      cases entry? disk remote add with
      | error fault => simp
      | ok entry => cases entries disk remote rest <;> simp [Except.map]

/-- An archive is complete if every addition has an entry or has gone. -/
theorem archive_ok_iff (adds : List Change) :
    (∃ bytes, archive disk remote adds = .ok bytes) ↔
      ∀ add ∈ adds, ∃ entry, entry? disk remote add = .ok entry := by
  rw [← entries_ok_iff, archive]
  cases entries disk remote adds <;> simp [Except.map]

variable {disk remote}

/-- A file that can be read has an entry if its name can stand in an archive. -/
theorem entry?_of_file {add : Change} {stat : FileStat} {data : ByteArray} {name : List UInt8}
    (looked : disk.stat add.localPath = .ok stat) (is_file : stat.isDir = false)
    (read : disk.read add.localPath = .ok data)
    (named : Archive.nameBytes (entryName remote add.remoteRelative) = .ok name) :
    ∃ entry, entry? disk remote add = .ok (some entry) := by
  simp [ entry?, looked, is_file, fileEntry, read, Archive.fileEntry, named, bind, Except.bind, pure,
    Except.pure]

variable (disk remote)

/-! ## Uploads -/

variable {σ : Type} (platform : Platform σ) (app pid : String)

/-- An upload on a schedule of its own: `run` takes its transfer to the end. -/
def handleAddsBy (run : Transfer → Transfer) (adds : List Change) : Attempt σ SyncError Unit := do
  if adds.isEmpty then return
  let answer ← Act.call platform (.filesUpload app pid)
  match (run (Transfer.start remote (script disk remote adds) answer)).result? with
  | some (.ok bytes) => modify fun w => { w with state := platform.receive app pid bytes w.state }
  | some (.error e) => throw e
  | none => throw (.io remote (.pipe .readerClosed))

/-- An upload takes one of the schedules. -/
theorem handleAddsBy_settle (adds : List Change) :
    handleAddsBy disk remote platform app pid Transfer.settle adds =
      handleAdds platform disk app pid remote adds := rfl

section Apply

variable {disk remote platform app pid} {run : Transfer → Transfer} {adds : List Change} {w : World σ}

theorem handleAddsBy_apply (some_adds : adds ≠ []) :
    handleAddsBy disk remote platform app pid run adds w =
      (match (run (Transfer.start remote (script disk remote adds)
          (platform.answer (.filesUpload app pid) w.state).1)).result? with
        | some (.ok bytes) => modify fun w => { w with state := platform.receive app pid bytes w.state }
        | some (.error e) => throw e
        | none => throw (.io remote (.pipe .readerClosed)) : Attempt σ SyncError Unit)
        (w.answered platform (.filesUpload app pid)) := by
  have not_empty : adds.isEmpty = false := by simpa using some_adds
  rw [handleAddsBy, not_empty]
  simp only [Bool.false_eq_true, if_false]
  rw [Attempt.bind_ok (a := (platform.answer (.filesUpload app pid) w.state).1) (by simp)]
  rfl

theorem handleAddsBy_ok (some_adds : adds ≠ []) {bytes : ByteArray}
    (result : (run (Transfer.start remote (script disk remote adds)
      (platform.answer (.filesUpload app pid) w.state).1)).result? = some (.ok bytes)) :
    handleAddsBy disk remote platform app pid run adds w =
      (.ok (), { w.answered platform (.filesUpload app pid) with
        state := platform.receive app pid bytes (w.answered platform (.filesUpload app pid)).state }) := by
  rw [handleAddsBy_apply some_adds, result]
  rfl

theorem handleAddsBy_error (some_adds : adds ≠ []) {e : SyncError}
    (result : (run (Transfer.start remote (script disk remote adds)
      (platform.answer (.filesUpload app pid) w.state).1)).result? = some (.error e)) :
    handleAddsBy disk remote platform app pid run adds w =
      (.error e, w.answered platform (.filesUpload app pid)) := by
  rw [handleAddsBy_apply some_adds, result]
  rfl

end Apply

/-- **An upload brings all or nothing**, whatever the schedule of the archive's writer and of
the platform.  Every run of the two ends, and `handleAdds` takes one of these runs.  A platform
that reads has recorded the complete archive, exactly if the upload succeeds; if there is no
complete archive the upload fails as the archive does.  A platform that refuses has recorded
nothing, and its refusal is told, except that an archive which fails for itself may tell that. -/
theorem handleAdds_all_or_nothing {adds : List Change} (some_adds : adds ≠ []) (w : World σ) :
    let answer := (platform.answer (.filesUpload app pid) w.state).1
    let told := w.answered platform (.filesUpload app pid)
    let begun := Transfer.start remote (script disk remote adds) answer
    (∀ run : Nat → Transfer, run 0 = begun → ∃ n, ¬ (run n).Step (run (n + 1))) ∧
    begun.Comes begun.settle ∧
    handleAdds platform disk app pid remote adds =
      handleAddsBy disk remote platform app pid Transfer.settle adds ∧
    ∀ run : Transfer → Transfer, begun.Comes (run begun) →
      let outcome := handleAddsBy disk remote platform app pid run adds w
      let recorded := (run begun).recorded?
      match answer, archive disk remote adds with
      | .ok (), .ok bytes =>
        outcome = (.ok (), { told with state := platform.receive app pid bytes told.state }) ∧
          recorded = some bytes
      | .ok (), .error e => outcome = (.error e, told) ∧ recorded = none
      | .error refusal, .ok _ => outcome = (.error (.platform refusal), told) ∧ recorded = none
      | .error refusal, .error e =>
        (outcome = (.error (.platform refusal), told) ∨ outcome = (.error e, told)) ∧
          recorded = none := by
  intro answer told begun
  have settles := (handleAddsBy_settle disk remote platform app pid adds).symm
  refine ⟨?_, Transfer.comes_settle _ _ _, settles, ?_⟩
  · rintro run first
    exact Transfer.exists_no_step (first ▸ Transfer.formed_start _ _ _)
  intro run comes outcome recorded
  have settled := comes.settled (script_own disk remote adds)
  unfold Transfer.Settled at settled
  cases whole : archive disk remote adds with
  | ok bytes =>
      obtain ⟨⟨n, complete⟩, rfl⟩ := script_of_archive disk remote whole
      rw [complete] at settled
      cases platform_told : answer with
      | ok =>
          simp only [platform_told] at settled
          exact ⟨handleAddsBy_ok some_adds settled.1, settled.2⟩
      | error refusal =>
          simp only [platform_told] at settled
          exact ⟨handleAddsBy_error some_adds settled.1, settled.2⟩
  | error e =>
      rw [script_of_archive_error disk remote whole] at settled
      cases platform_told : answer with
      | ok =>
          simp only [platform_told] at settled
          exact ⟨handleAddsBy_error some_adds settled.1, settled.2⟩
      | error refusal =>
          simp only [platform_told] at settled
          exact ⟨settled.1.imp (handleAddsBy_error some_adds) (handleAddsBy_error some_adds), settled.2⟩

/-- A file of two bytes, whatever its path. -/
def twoBytes : Disk := ⟨fun _ => .ok ⟨false, 0o644, 0, 2⟩, fun _ => .ok ⟨#[104, 105]⟩⟩

def oneFile : Change := ⟨.ofString "/app", .ofString "a.txt", .add⟩

theorem exists_archive_oneFile : ∃ bytes, archive twoBytes "/srv" [oneFile] = .ok bytes := by
  refine (archive_ok_iff twoBytes "/srv" [oneFile]).2 fun add member => ?_
  obtain rfl := List.mem_singleton.1 member
  have named : Archive.nameBytes (entryName "/srv" oneFile.remoteRelative) =
      .ok (Archive.utf8 (Archive.spell (.ofString "srv/a.txt"))) := by decide
  have looked : twoBytes.stat oneFile.localPath = .ok ⟨false, 0o644, 0, 2⟩ := rfl
  have read : twoBytes.read oneFile.localPath = .ok ⟨#[104, 105]⟩ := rfl
  obtain ⟨entry, found⟩ := entry?_of_file looked rfl read named
  exact ⟨_, found⟩

/-- One file, brought to a process of a platform in memory. -/
theorem handleAdds_brings_file :
    [oneFile] ≠ [] ∧ ∃ bytes, archive twoBytes "/srv" [oneFile] = .ok bytes ∧
      ∃ w, handleAdds Memory.platform twoBytes "app" "web-1" "/srv" [oneFile]
        (World.start Memory.empty) = (.ok (), w) ∧ w.state.uploads = [("web-1", bytes)] := by
  obtain ⟨bytes, whole⟩ := exists_archive_oneFile
  obtain ⟨-, comes, same, all⟩ := handleAdds_all_or_nothing twoBytes "/srv" Memory.platform "app" "web-1"
    (List.cons_ne_nil oneFile []) (World.start .empty)
  have outcome := all Transfer.settle comes
  rw [whole] at outcome
  rw [same]
  exact ⟨List.cons_ne_nil oneFile [], bytes, whole, _, outcome.1, rfl⟩

end DevMode.Sync
