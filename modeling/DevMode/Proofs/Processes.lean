/-
# DevMode.Proofs.Processes -- a process that fails does not touch the others

What changes leave behind at the processes of a service is known from what the platform answers for
each of them (`Answers`): `account` is the whole of it for one process, and nothing in it is about
another one.

* `directory`, `uploaded` and `deleted` are what the three parts come to that can fail.
* `leaves_applyTo` says that bringing changes to one process leaves just its account.
* `processes_apart` says that a run over any processes leaves their accounts in order, each the same as if its
  process were the only one, and which calls and reports an account has.
-/
import DevMode.Proofs.Trace
import DevMode.Proofs.Upload

namespace DevMode

set_option autoImplicit false

namespace Occurrence

def call? : Occurrence → Option Call
  | called c _ => some c
  | _ => none

def report? : Occurrence → Option Report
  | reported r => some r
  | _ => none

end Occurrence

namespace Sync

/-- What a platform answers for one process: to the question for its working directory, to an upload
and to a deletion. -/
structure Answers where
  dir : Except PlatformError String
  upload : Except PlatformError Unit
  delete : Except PlatformError Unit

variable (disk : Disk) (app service : String) (source : Source) (adds removes : List Change)

/-! ## What one process comes to -/

/-- The directory of a process that changes go to. -/
def directory (pid : String) (a : Answers) : Except SyncError String :=
  if RemotePath.isAbsolute source.remote then .ok (RemotePath.clean source.remote)
  else (a.dir.mapError (.workDir pid)).map fun dir =>
    RemotePath.join (String.ofList (Text.trim dir.toList)) source.remote

/-- The archive that an upload brings, if it is answered so. -/
def transferred (remote : String) (answer : Except PlatformError Unit) : Except SyncError ByteArray :=
  (Transfer.start remote (script disk remote adds) answer).settle.result?.getD
    (.error (.io remote (.pipe .readerClosed)))

/-- What the additions come to; without any there is nothing that could fail. -/
def uploaded (remote : String) (a : Answers) : Except SyncError Unit :=
  if adds.isEmpty then .ok () else (transferred disk adds remote a.upload).map fun _ => ()

/-- What the removals come to. -/
def deleted (a : Answers) : Except SyncError Unit :=
  if removes.isEmpty then .ok () else a.delete.mapError .platform

/-- The report of a failure, and none of a success. -/
def failures {α : Type} (context : String) : Except SyncError α → List Report
  | .ok _ => []
  | .error e => [⟨context, e.message⟩]

def shows (messages : List String) : List Occurrence :=
  messages.map fun message => .shown (Console.control message)

def asks (pid : String) (a : Answers) : List Occurrence :=
  if RemotePath.isAbsolute source.remote then []
  else [.called (.processExec app pid workDirCommand) (Act.failure? a.dir)]

def uploads (pid : String) (a : Answers) : List Occurrence :=
  if adds.isEmpty then [] else [.called (.filesUpload app pid) (Act.failure? a.upload)]

def deletes (pid remote : String) (a : Answers) : List Occurrence :=
  if removes.isEmpty then []
  else [.called (.filesDelete app pid (removedPaths remote removes)) (Act.failure? a.delete)]

/-- All that is left behind by bringing changes to one process, as the platform answers for it. -/
def account (process : Container) (a : Answers) : List Occurrence :=
  asks app source process.id a ++
    match directory source process.id a with
    | .error e => [.reported ⟨"sync " ++ placeName service source, e.message⟩]
    | .ok remote =>
      (shows (addMessages service source adds) ++ uploads app adds process.id a ++
        (failures ("sync add " ++ placeName service source) (uploaded disk adds remote a)).map
          .reported) ++
      (shows (removeMessages service source removes) ++ deletes app removes process.id remote a ++
        (failures ("sync remove " ++ placeName service source) (deleted removes a)).map .reported)

/-- An upload is a success if it is accepted and the archive is complete. -/
theorem transferred_ok_iff (remote : String) (answer : Except PlatformError Unit) :
    (∃ bytes, transferred disk adds remote answer = .ok bytes) ↔
      answer = .ok () ∧ ∃ bytes, archive disk remote adds = .ok bytes := by
  have settled := (Transfer.comes_settle remote (script disk remote adds) answer).settled
    (script_own disk remote adds)
  unfold Transfer.Settled at settled
  unfold transferred
  cases whole : archive disk remote adds with
  | ok bytes =>
      obtain ⟨⟨n, complete⟩, -⟩ := script_of_archive disk remote whole
      rw [complete] at settled
      cases answer with
      | ok u => simp [settled.1]
      | error refusal => simp [settled.1]
  | error e =>
      rw [script_of_archive_error disk remote whole] at settled
      cases answer with
      | ok u => simp [settled.1]
      | error refusal =>
          rcases settled.1 with told | told
          · simp [told]
          · simp [told]

theorem uploaded_ok_iff (remote : String) (a : Answers) :
    uploaded disk adds remote a = .ok () ↔
      adds = [] ∨ a.upload = .ok () ∧ ∃ bytes, archive disk remote adds = .ok bytes := by
  unfold uploaded
  rw [← transferred_ok_iff]
  cases adds with
  | nil => simp
  | cons add rest =>
      cases transferred disk (add :: rest) remote a.upload <;> simp [Except.map]

theorem deleted_ok_iff (a : Answers) :
    deleted removes a = .ok () ↔ removes = [] ∨ a.delete = .ok () := by
  unfold deleted
  cases removes with
  | nil => simp
  | cons remove rest => cases a.delete <;> simp

/-! ## Steps -/

section Steps

variable {σ : Type} (platform : Platform σ)

variable {disk app service source adds removes platform} {pid remote : String} {a : Answers}

theorem resolveRemote_spec {w : World σ}
    (answered : RemotePath.isAbsolute source.remote = false →
      (platform.answer (.processExec app pid workDirCommand) w.state).1 = a.dir) :
    ∃ w', resolveRemote platform app pid source.remote w = (directory source pid a, w') ∧
      World.Leaves (asks app source pid a) w w' := by
  unfold resolveRemote directory asks
  cases absolute : RemotePath.isAbsolute source.remote with
  | true => exact ⟨w, rfl, .refl w⟩
  | false =>
      have leaves := World.leaves_answered w platform (.processExec app pid workDirCommand)
      rw [answered absolute] at leaves
      simp only [Bool.false_eq_true, if_false]
      rw [Attempt.bind_lift, Act.call_apply, answered absolute]
      cases told : a.dir with
      | ok dir =>
          rw [told] at leaves
          exact ⟨_, rfl, leaves⟩
      | error e =>
          rw [told] at leaves
          exact ⟨_, rfl, leaves⟩

theorem handleAdds_spec {w : World σ}
    (answered : adds ≠ [] → (platform.answer (.filesUpload app pid) w.state).1 = a.upload) :
    ∃ w', handleAdds platform disk app pid remote adds w = (uploaded disk adds remote a, w') ∧
      World.Leaves (uploads app adds pid a) w w' := by
  by_cases none_added : adds = []
  · subst none_added
    exact ⟨w, rfl, .refl w⟩
  · have some_added : adds.isEmpty = false := by simpa using none_added
    have leaves := World.leaves_answered w platform (.filesUpload app pid)
    rw [answered none_added] at leaves
    rw [uploaded, uploads, some_added, ← handleAddsBy_settle, handleAddsBy_apply none_added,
      answered none_added]
    simp only [transferred, Bool.false_eq_true, if_false]
    cases (Transfer.start remote (script disk remote adds) a.upload).settle.result? with
    | none => exact ⟨_, rfl, leaves⟩
    | some result =>
        cases result with
        | ok bytes => exact ⟨_, rfl, leaves.receive _⟩
        | error e => exact ⟨_, rfl, leaves⟩

theorem handleRemoves_spec {w : World σ} (answered : removes ≠ [] →
      (platform.answer (.filesDelete app pid (removedPaths remote removes)) w.state).1 = a.delete) :
    ∃ w', handleRemoves platform app pid remote removes w = (deleted removes a, w') ∧
      World.Leaves (deletes app removes pid remote a) w w' := by
  by_cases none_removed : removes = []
  · subst none_removed
    exact ⟨w, rfl, .refl w⟩
  · have some_removed : removes.isEmpty = false := by simpa using none_removed
    have leaves := World.leaves_answered w platform
      (.filesDelete app pid (removedPaths remote removes))
    rw [answered none_removed] at leaves
    simp only [handleRemoves, deleted, deletes, some_removed, Bool.false_eq_true, if_false]
    rw [Attempt.bind_lift, Act.call_apply, answered none_removed]
    cases told : a.delete with
    | ok u =>
        rw [told] at leaves
        exact ⟨_, rfl, leaves⟩
    | error e =>
        rw [told] at leaves
        exact ⟨_, rfl, leaves⟩

/-- What an upload leaves of the platform does not depend on what happened before. -/
theorem handleAdds_state {w w' : World σ} (same : w.state = w'.state) :
    (handleAdds platform disk app pid remote adds w).2.state =
      (handleAdds platform disk app pid remote adds w').2.state := by
  by_cases none_added : adds = []
  · subst none_added
    exact same
  · rw [← handleAddsBy_settle, handleAddsBy_apply none_added, handleAddsBy_apply none_added, same]
    cases (Transfer.start remote (script disk remote adds)
      (platform.answer (.filesUpload app pid) w'.state).1).settle.result? with
    | none => exact congrArg (fun s => (platform.answer (.filesUpload app pid) s).2) same
    | some result =>
        cases result with
        | ok bytes =>
            exact congrArg (fun s => platform.receive app pid bytes
              (platform.answer (.filesUpload app pid) s).2) same
        | error e => exact congrArg (fun s => (platform.answer (.filesUpload app pid) s).2) same

end Steps

/-! ## Parts of the work -/

section Parts

variable {σ : Type} (messages : List String) (context : String)

/-- A part of the work at a process is announced, and its failure is reported. -/
def part (x : Attempt σ SyncError Unit) : Act σ Unit := do
  Act.displayAll (messages.map Console.control)
  let outcome ← x.run
  reportFailure context outcome

theorem leaves_shows (w : World σ) :
    World.Leaves (shows messages) w (Act.displayAll (messages.map Console.control) w).2 := by
  have leaves := Act.leaves_displayAll (messages.map Console.control) w
  rw [List.map_map] at leaves
  exact leaves

variable {messages context} {x : Attempt σ SyncError Unit} {r : Except SyncError Unit}
  {os : List Occurrence} {w : World σ}

/-- What a part leaves, if its work comes to something wherever the platform is the same. -/
theorem leaves_part
    (works : ∀ w', w'.state = w.state → ∃ w₁, x w' = (r, w₁) ∧ World.Leaves os w' w₁) :
    World.Leaves (shows messages ++ os ++ (failures context r).map .reported) w
      (part messages context x w).2 := by
  have announced := leaves_shows messages w
  have still := (Act.quiet_displayAll (messages.map Console.control) w).2
  obtain ⟨w₁, went, does⟩ := works _ still
  have reports : World.Leaves ((failures context r).map .reported) w₁ (reportFailure context r w₁).2 := by
    cases r with
    | ok u => exact .refl w₁
    | error e => exact Act.leaves_report _ w₁
  have last : part messages context x w = reportFailure context r w₁ := by
    rw [part, Act.bind_apply, Act.bind_apply]
    show reportFailure context (x _).1 (x _).2 = _
    rw [went]
  rw [last]
  exact (announced.trans does).trans reports

theorem part_state : (part messages context x w).2.state =
    (x (Act.displayAll (messages.map Console.control) w).2).2.state := by
  show (reportFailure context (x (Act.displayAll (messages.map Console.control) w).2).1 _).2.state = _
  cases (x (Act.displayAll (messages.map Console.control) w).2).1 <;> rfl

end Parts

/-! ## Processes -/

section Processes

variable {σ : Type} (platform : Platform σ)

/-- The platform answers so for one process, wherever it is asked. -/
structure Serves (process : Container) (w : World σ) (a : Answers) : Prop where
  dir : RemotePath.isAbsolute source.remote = false →
    (platform.answer (.processExec app process.id workDirCommand) w.state).1 = a.dir
  upload : ∀ remote w₁, resolveRemote platform app process.id source.remote w = (.ok remote, w₁) →
    adds ≠ [] → (platform.answer (.filesUpload app process.id) w₁.state).1 = a.upload
  delete : ∀ remote w₁, resolveRemote platform app process.id source.remote w = (.ok remote, w₁) →
    removes ≠ [] → (platform.answer (.filesDelete app process.id (removedPaths remote removes))
      (handleAdds platform disk app process.id remote adds w₁).2.state).1 = a.delete

variable {disk app service source adds removes platform}

theorem applyTo_error {process : Container} {w w₁ : World σ} {e : SyncError}
    (failed : resolveRemote platform app process.id source.remote w = (.error e, w₁)) :
    applyTo platform disk app service source adds removes process w =
      Act.report ⟨"sync " ++ placeName service source, e.message⟩ w₁ := by
  show (match (resolveRemote platform app process.id source.remote w).1 with
    | .error e => Act.report ⟨"sync " ++ placeName service source, e.message⟩
    | .ok remote => _ : Act σ Unit) (resolveRemote platform app process.id source.remote w).2 = _
  rw [failed]

theorem applyTo_ok {process : Container} {w w₁ : World σ} {remote : String}
    (found : resolveRemote platform app process.id source.remote w = (.ok remote, w₁)) :
    applyTo platform disk app service source adds removes process w =
      (part (addMessages service source adds) ("sync add " ++ placeName service source)
          (handleAdds platform disk app process.id remote adds) >>= fun _ =>
        part (removeMessages service source removes) ("sync remove " ++ placeName service source)
          (handleRemoves platform app process.id remote removes)) w₁ := by
  show (match (resolveRemote platform app process.id source.remote w).1 with
    | .error e => _
    | .ok remote => _ : Act σ Unit) (resolveRemote platform app process.id source.remote w).2 = _
  rw [found]
  rfl

/-- **Bringing changes to one process leaves its account.** -/
theorem leaves_applyTo {process : Container} {w : World σ} {a : Answers}
    (serves : Serves disk app source adds removes platform process w a) :
    World.Leaves (account disk app service source adds removes process a) w
      (applyTo platform disk app service source adds removes process w).2 := by
  obtain ⟨w₁, went, asked⟩ := resolveRemote_spec serves.dir
  unfold account
  refine asked.trans ?_
  cases located : directory source process.id a with
  | error e =>
      rw [located] at went
      rw [applyTo_error went]
      exact Act.leaves_report _ w₁
  | ok remote =>
      rw [located] at went
      rw [applyTo_ok went, Act.bind_apply]
      refine (leaves_part fun w' same => ?_).trans (leaves_part fun w' same => ?_)
      · refine handleAdds_spec fun some_added => ?_
        rw [same]
        exact serves.upload remote w₁ went some_added
      · -- Neither the announcements nor the reports change how the removals are answered.
        have behind : w'.state = (handleAdds platform disk app process.id remote adds w₁).2.state := by
          rw [same, part_state]
          exact handleAdds_state (Act.quiet_displayAll _ w₁).2
        refine handleRemoves_spec fun some_removed => ?_
        rw [behind]
        exact serves.delete remote w₁ went some_removed

variable (disk app service source adds removes platform) in
/-- The platform answers so for each of some processes, one after another. -/
def ServesAll : List (Container × Answers) → World σ → Prop
  | [], _ => True
  | (process, a) :: rest, w =>
    Serves disk app source adds removes platform process w a ∧
      ServesAll rest (applyTo platform disk app service source adds removes process w).2

theorem leaves_forM {served : List (Container × Answers)} {w : World σ}
    (serves : ServesAll disk app service source adds removes platform served w) :
    World.Leaves (served.flatMap fun s => account disk app service source adds removes s.1 s.2) w
      ((served.map (·.1)).forM (applyTo platform disk app service source adds removes) w).2 := by
  induction served generalizing w with
  | nil => exact .refl w
  | cons s rest ih =>
      obtain ⟨first, later⟩ := serves
      rw [List.flatMap_cons]
      exact (leaves_applyTo first).trans (ih later)

/-- A run leaves the accounts of its processes in order. -/
theorem leaves_apply (some_change : adds ≠ [] ∨ removes ≠ []) {served : List (Container × Answers)}
    {w : World σ}
    (listed : (platform.answer (.processList app (some service)) w.state).1 = .ok (served.map (·.1)))
    (serves : ServesAll disk app service source adds removes platform served
      (w.answered platform (.processList app (some service)))) :
    World.Leaves (.called (.processList app (some service)) none ::
        served.flatMap fun s => account disk app service source adds removes s.1 s.2) w
      (apply platform disk app service source adds removes w).2 := by
  have asked := World.leaves_answered w platform (.processList app (some service))
  rw [listed] at asked
  have goes_on : (adds.isEmpty && removes.isEmpty) = false := by
    simpa [← not_and_or] using some_change
  have run : apply platform disk app service source adds removes w =
      (served.map (·.1)).forM (applyTo platform disk app service source adds removes)
        (w.answered platform (.processList app (some service))) := by
    simp only [apply, goes_on, Bool.false_eq_true, if_false]
    rw [Act.bind_apply, Act.call_apply, listed]
  rw [run]
  exact asked.trans (leaves_forM serves)

end Processes

/-! ## Platforms with given answers -/

/-- A platform that answers for each process as it is assigned, and is another platform in all else. -/
def assigned {σ : Type} (p : Platform σ) (answers : String → Answers) : Platform σ where
  answer
    | .processExec _ pid _, s => ((answers pid).dir, s)
    | .filesUpload _ pid, s => ((answers pid).upload, s)
    | .filesDelete _ pid _, s => ((answers pid).delete, s)
    | c, s => p.answer c s
  receive := p.receive

variable {disk app service source adds removes} in
/-- **Whatever is assigned to the processes, there is a platform that answers so.** -/
theorem servesAll_assigned {σ : Type} (p : Platform σ) (answers : String → Answers)
    (processes : List Container) (w : World σ) :
    ServesAll disk app service source adds removes (assigned p answers)
      (processes.map fun process => (process, answers process.id)) w := by
  induction processes generalizing w with
  | nil => trivial
  | cons process rest ih =>
      exact ⟨⟨fun _ => rfl, fun _ _ _ _ => rfl, fun _ _ _ _ => rfl⟩, ih _⟩

/-! ## Accounts -/

section Accounts

variable {disk app service source adds removes} {process : Container} {a : Answers}

theorem account_of_dir_error {failure : PlatformError}
    (relative : RemotePath.isAbsolute source.remote = false) (failed : a.dir = .error failure) :
    account disk app service source adds removes process a =
      [.called (.processExec app process.id workDirCommand) (some failure),
        .reported ⟨"sync " ++ placeName service source,
          (SyncError.workDir process.id failure).message⟩] := by
  simp only [account, asks, directory, relative, failed, Bool.false_eq_true, if_false]
  rfl

theorem exists_directory (found : RemotePath.isAbsolute source.remote = true ∨ ∃ dir, a.dir = .ok dir) :
    ∃ remote, directory source process.id a = .ok remote := by
  unfold directory
  split
  · exact ⟨_, rfl⟩
  · rename_i relative
    rcases found with absolute | ⟨dir, told⟩
    · exact absurd absolute relative
    · exact ⟨_, by rw [told]; rfl⟩

theorem calls_shows (messages : List String) : (shows messages).filterMap Occurrence.call? = [] := by
  simp [shows, Occurrence.call?, List.filterMap_map, Function.comp_def]

theorem reports_shows (messages : List String) :
    (shows messages).filterMap Occurrence.report? = [] := by
  simp [shows, Occurrence.report?, List.filterMap_map, Function.comp_def]

theorem calls_reported (rs : List Report) :
    (rs.map Occurrence.reported).filterMap Occurrence.call? = [] := by
  simp [Occurrence.call?, List.filterMap_map, Function.comp_def]

theorem reports_reported (rs : List Report) :
    (rs.map Occurrence.reported).filterMap Occurrence.report? = rs := by
  simp [Occurrence.report?, List.filterMap_map, Function.comp_def]

/-- The calls for a process whose directory is known. -/
theorem calls_account {remote : String} (found : directory source process.id a = .ok remote) :
    (account disk app service source adds removes process a).filterMap Occurrence.call? =
      (if RemotePath.isAbsolute source.remote then []
        else [.processExec app process.id workDirCommand]) ++
      (if adds = [] then [] else [.filesUpload app process.id]) ++
      (if removes = [] then []
        else [.filesDelete app process.id (removedPaths remote removes)]) := by
  have asked : (asks app source process.id a).filterMap Occurrence.call? =
      if RemotePath.isAbsolute source.remote then []
        else [.processExec app process.id workDirCommand] := by
    unfold asks
    split <;> rfl
  have up : (uploads app adds process.id a).filterMap Occurrence.call? =
      if adds = [] then [] else [.filesUpload app process.id] := by
    cases adds <;> rfl
  have down : (deletes app removes process.id remote a).filterMap Occurrence.call? =
      if removes = [] then [] else [.filesDelete app process.id (removedPaths remote removes)] := by
    cases removes <;> rfl
  simp only [account, found, List.filterMap_append, calls_shows, calls_reported, asked, up, down,
    List.nil_append, List.append_nil, List.append_assoc]

/-- The reports for a process whose directory is known. -/
theorem reports_account {remote : String} (found : directory source process.id a = .ok remote) :
    (account disk app service source adds removes process a).filterMap Occurrence.report? =
      failures ("sync add " ++ placeName service source) (uploaded disk adds remote a) ++
        failures ("sync remove " ++ placeName service source) (deleted removes a) := by
  have asked : (asks app source process.id a).filterMap Occurrence.report? = [] := by
    unfold asks
    split <;> rfl
  have up : (uploads app adds process.id a).filterMap Occurrence.report? = [] := by
    cases adds <;> rfl
  have down : (deletes app removes process.id remote a).filterMap Occurrence.report? = [] := by
    cases removes <;> rfl
  simp only [account, found, List.filterMap_append, reports_shows, reports_reported, asked, up, down,
    List.nil_append]

theorem announcements_ne_nil {head direction : String} {changes : List Change} (some : changes ≠ []) :
    announcements head direction service source changes ≠ [] := by
  unfold announcements
  split
  · exact List.cons_ne_nil _ _
  · simpa using some

/-- Something is announced directly before a call. -/
def AnnouncedFirst (messages : List String) (c : Call) (os : List Occurrence) : Prop :=
  messages ≠ [] ∧ ∃ before failure after, os = before ++ shows messages ++ .called c failure :: after

theorem upload_announced {remote : String} (found : directory source process.id a = .ok remote)
    (some_added : adds ≠ []) : AnnouncedFirst (addMessages service source adds)
      (.filesUpload app process.id) (account disk app service source adds removes process a) := by
  refine ⟨announcements_ne_nil some_added, asks app source process.id a, Act.failure? a.upload,
    (failures ("sync add " ++ placeName service source) (uploaded disk adds remote a)).map .reported ++
      (shows (removeMessages service source removes) ++ deletes app removes process.id remote a ++
        (failures ("sync remove " ++ placeName service source) (deleted removes a)).map .reported), ?_⟩
  have up : uploads app adds process.id a =
      [.called (.filesUpload app process.id) (Act.failure? a.upload)] := by
    simp [uploads, some_added]
  simp only [account, found, up, List.append_assoc, List.cons_append, List.nil_append]

theorem deletion_announced {remote : String} (found : directory source process.id a = .ok remote)
    (some_removed : removes ≠ []) : AnnouncedFirst (removeMessages service source removes)
      (.filesDelete app process.id (removedPaths remote removes))
      (account disk app service source adds removes process a) := by
  refine ⟨announcements_ne_nil some_removed, asks app source process.id a ++
    (shows (addMessages service source adds) ++ uploads app adds process.id a ++
      (failures ("sync add " ++ placeName service source) (uploaded disk adds remote a)).map .reported),
    Act.failure? a.delete,
    (failures ("sync remove " ++ placeName service source) (deleted removes a)).map .reported, ?_⟩
  have down : deletes app removes process.id remote a =
      [.called (.filesDelete app process.id (removedPaths remote removes))
        (Act.failure? a.delete)] := by
    simp [deletes, some_removed]
  simp only [account, found, down, List.append_assoc, List.cons_append, List.nil_append]

end Accounts

/-- **Processes do not touch one another.**  When changes are brought to the processes of a service, each
with whatever the platform answers for it, what happens is that they are listed and then the accounts
of all in order; and where one of them is the only one, on any platform that answers so for it, its
account is what happens there.  If the question for its directory fails, the account is that question
and one report.  Otherwise there is one upload just if something is added and one deletion just if
something is removed, whatever became of the upload; each is announced directly before, and each that
fails has one report. -/
theorem processes_apart {σ : Type} {platform : Platform σ} {disk : Disk} {app service : String} {source : Source}
    {adds removes : List Change} (some_change : adds ≠ [] ∨ removes ≠ [])
    {served : List (Container × Answers)} {w : World σ}
    (listed : (platform.answer (.processList app (some service)) w.state).1 = .ok (served.map (·.1)))
    (serves : ServesAll disk app service source adds removes platform served
      (w.answered platform (.processList app (some service)))) :
    let list : Occurrence := .called (.processList app (some service)) none
    let account := account disk app service source adds removes
    (apply platform disk app service source adds removes w).2.occurrences =
        w.occurrences ++ (list :: served.flatMap fun s => account s.1 s.2).map (w.now, ·) ∧
      ∀ process a,
        (∀ (τ : Type) (alone : Platform τ) (v : World τ),
          (alone.answer (.processList app (some service)) v.state).1 = .ok [process] →
          Serves disk app source adds removes alone process
            (v.answered alone (.processList app (some service))) a →
          (apply alone disk app service source adds removes v).2.occurrences =
            v.occurrences ++ (list :: account process a).map (v.now, ·)) ∧
        (∀ failure, RemotePath.isAbsolute source.remote = false → a.dir = .error failure →
          account process a = [.called (.processExec app process.id workDirCommand) (some failure),
            .reported ⟨"sync " ++ placeName service source,
              (SyncError.workDir process.id failure).message⟩]) ∧
        (RemotePath.isAbsolute source.remote = true ∨ (∃ dir, a.dir = .ok dir) →
          ∃ remote, directory source process.id a = .ok remote ∧
            (account process a).filterMap Occurrence.call? =
              (if RemotePath.isAbsolute source.remote then []
                else [.processExec app process.id workDirCommand]) ++
              (if adds = [] then [] else [.filesUpload app process.id]) ++
              (if removes = [] then []
                else [.filesDelete app process.id (removedPaths remote removes)]) ∧
            (account process a).filterMap Occurrence.report? =
              failures ("sync add " ++ placeName service source) (uploaded disk adds remote a) ++
                failures ("sync remove " ++ placeName service source) (deleted removes a) ∧
            (uploaded disk adds remote a = .ok () ↔
              adds = [] ∨ a.upload = .ok () ∧ ∃ bytes, archive disk remote adds = .ok bytes) ∧
            (deleted removes a = .ok () ↔ removes = [] ∨ a.delete = .ok ()) ∧
            (adds ≠ [] → AnnouncedFirst (addMessages service source adds)
              (.filesUpload app process.id) (account process a)) ∧
            (removes ≠ [] → AnnouncedFirst (removeMessages service source removes)
              (.filesDelete app process.id (removedPaths remote removes)) (account process a))) := by
  refine ⟨(leaves_apply some_change listed serves).occurrences, fun process a => ⟨?_, ?_, ?_⟩⟩
  · intro τ alone v listed' serves'
    have only : (alone.answer (.processList app (some service)) v.state).1 =
        .ok ([(process, a)].map (·.1)) := listed'
    have leaves := leaves_apply some_change only ⟨serves', trivial⟩
    rw [List.flatMap_singleton] at leaves
    exact leaves.occurrences
  · intro failure relative failed
    exact account_of_dir_error relative failed
  · intro known
    obtain ⟨remote, found⟩ := exists_directory known
    exact ⟨remote, found, calls_account found, reports_account found, uploaded_ok_iff disk adds remote a,
      deleted_ok_iff removes a, upload_announced found, deletion_announced found⟩

/-- Two processes of a service: one cannot be asked for its directory, the other refuses uploads. -/
def troubledPair : Memory :=
  { Memory.empty with processes := [⟨"web-1", "web"⟩, ⟨"web-2", "web"⟩] }

def troubles (pid : String) : Answers :=
  if pid = "web-1" then ⟨.error (.request "process exec" "gone"), .ok (), .ok ()⟩
  else ⟨.ok "/srv\n", .error (.request "files upload" "full"), .ok ()⟩

/-- Of two processes in trouble the first has one report and nothing else, and the second has its
deletion although its upload fails. -/
theorem processes_apart_in_trouble :
    let source : Source := ⟨.ofString "/app", "app"⟩
    let removed : Change := ⟨.ofString "/app", .ofString "b.txt", .remove⟩
    let out := apply (assigned Memory.platform troubles) twoBytes "dev" "web" source [oneFile] [removed]
      (World.start troubledPair)
    let account (pid : String) := account twoBytes "dev" "web" source [oneFile] [removed] ⟨pid, "web"⟩
      (troubles pid)
    out.2.occurrences = (.called (.processList "dev" (some "web")) none ::
        (account "web-1" ++ account "web-2")).map (0, ·) ∧
      (account "web-1").filterMap Occurrence.call? = [.processExec "dev" "web-1" "pwd"] ∧
      (account "web-1").filterMap Occurrence.report? =
        [⟨"sync web:app", "web-1 pwd: process exec failed: gone"⟩] ∧
      (account "web-2").filterMap Occurrence.call? = [.processExec "dev" "web-2" "pwd",
        .filesUpload "dev" "web-2", .filesDelete "dev" "web-2" ["/srv/app/b.txt"]] := by
  intro source removed out account
  have serves (w : World Memory) : ServesAll twoBytes "dev" "web" source [oneFile] [removed]
      (assigned Memory.platform troubles)
      (troubledPair.processes.map fun process => (process, troubles process.id)) w :=
    servesAll_assigned Memory.platform troubles troubledPair.processes w
  have run := processes_apart (.inl (List.cons_ne_nil oneFile [])) (w := World.start troubledPair) rfl
    (serves _)
  refine ⟨?_, ?_, ?_, ?_⟩
  · have both := run.1
    rw [show troubledPair.processes = [⟨"web-1", "web"⟩, ⟨"web-2", "web"⟩] from rfl] at both
    simp only [List.map_cons, List.map_nil, List.flatMap_cons, List.flatMap_nil, List.append_nil] at both
    exact both
  · have told := (run.2 ⟨"web-1", "web"⟩ (troubles "web-1")).2.1 _ (by decide) rfl
    exact (congrArg (List.filterMap Occurrence.call?) told).trans rfl
  · have told := (run.2 ⟨"web-1", "web"⟩ (troubles "web-1")).2.1 _ (by decide) rfl
    exact (congrArg (List.filterMap Occurrence.report?) told).trans rfl
  · obtain ⟨remote, found, calls, -⟩ := (run.2 ⟨"web-2", "web"⟩ (troubles "web-2")).2.2 (.inr ⟨_, rfl⟩)
    have located : directory source "web-2" (troubles "web-2") = .ok "/srv/app" :=
      eq_ok_of_toOption (by decide +kernel)
    obtain rfl : "/srv/app" = remote := Except.ok.inj (located.symm.trans found)
    have path : removedPaths "/srv/app" [removed] = ["/srv/app/b.txt"] := by decide +kernel
    have relative : RemotePath.isAbsolute source.remote = false := by decide
    rw [calls, path, relative, if_neg Bool.false_ne_true, if_neg (List.cons_ne_nil _ _),
      if_neg (List.cons_ne_nil _ _)]
    rfl

end Sync

end DevMode
