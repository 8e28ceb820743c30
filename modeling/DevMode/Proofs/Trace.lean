/-
# DevMode.Proofs.Trace -- what a run leaves behind

What happened in a run is only ever added to.  `World.Adds` says that everything added is of one
kind, and `Act.Adds` says it of a step from whatever world it starts.  The rules follow the
constructs that runs are written in, so that a step is known by what it is made of
(`Act.adds_bind`, `Attempt.adds_bind`), and waiting by what goes on meanwhile (`Act.adds_poll`).
To ask the platform for nothing but what is listed is one such kind (`World.Grows`, `Act.Asks`).
-/
import DevMode.Proofs.World

namespace DevMode

set_option autoImplicit false

/-! ## Purposes -/

/-- What the platform is asked about: the app, a build, a promotion, the log of the app, its
processes. -/
inductive Purpose where
  | app
  | build
  | promotion
  | log
  | process
  deriving DecidableEq, Repr

/-- What a call is about. -/
def Call.purpose : Call → Purpose
  | appGet .. | appCreate .. | appEnvironment .. => .app
  | rackGet | objectStore .. | buildCreate .. | buildGet .. | buildUpdate .. | buildLogs ..
  | releaseCreate .. => .build
  | releasePromote .. => .promotion
  | appLogs .. => .log
  | processList .. | processExec .. | processStop .. | filesUpload .. | filesDelete .. => .process

/-- If something is a call, it is about something listed. -/
def Occurrence.Within (listed : List Purpose) : Occurrence → Prop
  | called c _ => c.purpose ∈ listed
  | _ => True

theorem Occurrence.Within.mono {few many : List Purpose} (more : few ⊆ many) {o : Occurrence}
    (within : o.Within few) : o.Within many := by
  cases o with
  | called c failure => exact more within
  | shown | reported | imageBuilt => trivial

/-! ## Worlds -/

namespace World

variable {σ : Type} {kind : Occurrence → Prop} {listed : List Purpose}

/-- A world comes after another, with nothing added but what is of a kind. -/
def Adds (kind : Occurrence → Prop) (w w' : World σ) : Prop :=
  ∃ added, w'.past = added ++ w.past ∧ ∀ o ∈ added, kind o.2

/-- A world comes after another, with nothing added but what is listed. -/
def Grows (listed : List Purpose) (w w' : World σ) : Prop :=
  ∃ added, w'.past = added ++ w.past ∧ ∀ o ∈ added, o.2.Within listed

theorem Adds.of_past {w w' : World σ} (same : w'.past = w.past) : Adds kind w w' :=
  ⟨[], same, by simp⟩

theorem Adds.refl (w : World σ) : Adds kind w w := .of_past rfl

theorem Adds.trans {w₁ w₂ w₃ : World σ} (first : Adds kind w₁ w₂) (later : Adds kind w₂ w₃) :
    Adds kind w₁ w₃ := by
  obtain ⟨added, past, fine⟩ := first
  obtain ⟨more, past', fine'⟩ := later
  refine ⟨more ++ added, by rw [past', past, List.append_assoc], fun o member => ?_⟩
  rcases List.mem_append.1 member with member | member
  · exact fine' o member
  · exact fine o member

theorem Adds.mono {wide : Occurrence → Prop} (wider : ∀ o, kind o → wide o) {w w' : World σ}
    (adds : Adds kind w w') : Adds wide w w' := by
  obtain ⟨added, past, fine⟩ := adds
  exact ⟨added, past, fun o member => wider o.2 (fine o member)⟩

theorem Adds.one {o : Occurrence} (of_kind : kind o) {w w' : World σ}
    (past : w'.past = (w.now, o) :: w.past) : Adds kind w w' := by
  refine ⟨[(w.now, o)], past, fun o' member => ?_⟩
  obtain rfl := List.mem_singleton.1 member
  exact of_kind

theorem Adds.suffix {w w' : World σ} (adds : Adds kind w w') : w.past <:+ w'.past := by
  obtain ⟨added, past, -⟩ := adds
  exact ⟨added, past.symm⟩

/-- From the start on, everything is added. -/
theorem Adds.past {s : σ} {w : World σ} (adds : Adds kind (start s) w) {o : Nat × Occurrence}
    (member : o ∈ w.past) : kind o.2 := by
  obtain ⟨added, past, fine⟩ := adds
  rw [past, start, List.append_nil] at member
  exact fine o member

theorem grows_iff_adds {w w' : World σ} : Grows listed w w' ↔ Adds (Occurrence.Within listed) w w' :=
  Iff.rfl

theorem Grows.refl (w : World σ) : Grows listed w w := grows_iff_adds.2 (.refl w)

theorem Grows.trans {w₁ w₂ w₃ : World σ} (first : Grows listed w₁ w₂) (later : Grows listed w₂ w₃) :
    Grows listed w₁ w₃ :=
  grows_iff_adds.2 ((grows_iff_adds.1 first).trans (grows_iff_adds.1 later))

theorem Grows.mono {few many : List Purpose} (more : few ⊆ many) {w w' : World σ}
    (grows : Grows few w w') : Grows many w w' :=
  grows_iff_adds.2 ((grows_iff_adds.1 grows).mono fun _ => Occurrence.Within.mono more)

end World

/-! ## Calls -/

def Occurrence.isCall : Occurrence → Bool
  | called .. => true
  | _ => false

namespace World

variable {σ : Type}

/-- What was asked of the platform, in order, each call at its time and with its failure. -/
def asked (w : World σ) : List (Nat × Occurrence) := w.occurrences.filter (·.2.isCall)

theorem asked_of_past {w w' : World σ} (same : w'.past = w.past) : w'.asked = w.asked := by
  rw [asked, asked, occurrences, occurrences, same]

theorem asked_answered (w : World σ) (p : Platform σ) (c : Call) :
    (w.answered p c).asked =
      w.asked ++ [(w.now, .called c (Act.failure? (p.answer c w.state).1))] := by
  simp [asked, occurrences, answered, record, List.filter_append, Occurrence.isCall]

theorem asked_awaited (w : World σ) (p : Platform σ) (c : Call) :
    (w.awaited p c).asked =
      w.asked ++ [(w.now, .called c (Act.failure? (p.answer c w.state).1))] :=
  asked_answered w p c

/-- Where nothing is added but calls, these are all that was asked. -/
theorem Adds.asked_append {w w' : World σ} (adds : Adds (·.isCall = true) w w') :
    ∃ added, w'.occurrences = w.occurrences ++ added ∧ w'.asked = w.asked ++ added := by
  obtain ⟨added, past, calls⟩ := adds
  have later : w'.occurrences = w.occurrences ++ added.reverse := by
    rw [occurrences, past, List.reverse_append]
    rfl
  refine ⟨added.reverse, later, ?_⟩
  rw [asked, later, List.filter_append, List.filter_eq_self.2 fun o member =>
    calls o (List.mem_reverse.1 member)]
  rfl

/-- Where no call is added, nothing more was asked. -/
theorem Adds.asked_eq {w w' : World σ} (adds : Adds (·.isCall = false) w w') :
    w'.asked = w.asked := by
  obtain ⟨added, past, none_called⟩ := adds
  have nothing : added.reverse.filter (·.2.isCall) = [] := by
    rw [List.filter_eq_nil_iff]
    intro o member
    rw [none_called o (List.mem_reverse.1 member)]
    exact Bool.false_ne_true
  rw [asked, occurrences, past, List.reverse_append, List.filter_append, nothing, List.append_nil]
  rfl

end World

/-! ## What is left at one time -/

/-- A world comes after another at the same time, with just some things added in order. -/
structure World.Leaves {σ : Type} (os : List Occurrence) (w w' : World σ) : Prop where
  now : w'.now = w.now
  occurrences : w'.occurrences = w.occurrences ++ os.map (w.now, ·)

namespace World

variable {σ : Type}

theorem Leaves.refl (w : World σ) : Leaves [] w w := ⟨rfl, (List.append_nil _).symm⟩

theorem Leaves.trans {os os' : List Occurrence} {w₁ w₂ w₃ : World σ} (first : Leaves os w₁ w₂)
    (later : Leaves os' w₂ w₃) : Leaves (os ++ os') w₁ w₃ := by
  refine ⟨later.now.trans first.now, ?_⟩
  rw [later.occurrences, first.occurrences, first.now, List.append_assoc, List.map_append]

theorem Leaves.one {o : Occurrence} {w w' : World σ} (now : w'.now = w.now)
    (past : w'.past = (w.now, o) :: w.past) : Leaves [o] w w' := by
  refine ⟨now, ?_⟩
  rw [World.occurrences, past, List.reverse_cons]
  rfl

/-- Only the state of the platform is another. -/
theorem Leaves.receive {os : List Occurrence} {w w' : World σ} (leaves : Leaves os w w') (s : σ) :
    Leaves os w { w' with state := s } :=
  ⟨leaves.now, leaves.occurrences⟩

/-- Where only lines are added, nothing more was asked. -/
theorem Leaves.asked_eq {ls : List Line} {w w' : World σ} (leaves : Leaves (ls.map .shown) w w') :
    w'.asked = w.asked := by
  have none_called : ((ls.map Occurrence.shown).map (w.now, ·)).filter (·.2.isCall) = [] := by
    simp [List.filter_eq_nil_iff, Occurrence.isCall]
  rw [asked, leaves.occurrences, List.filter_append, none_called, List.append_nil]
  rfl

theorem leaves_answered (w : World σ) (p : Platform σ) (c : Call) :
    Leaves [.called c (Act.failure? (p.answer c w.state).1)] w (w.answered p c) :=
  .one rfl rfl

end World

/-! ## Steps -/

namespace Act

variable {σ α β : Type} {kind : Occurrence → Prop}

theorem leaves_report (r : Report) (w : World σ) :
    World.Leaves [.reported r] w (report r w).2 :=
  .one rfl rfl

theorem leaves_displayAll (ls : List Line) (w : World σ) :
    World.Leaves (ls.map .shown) w (displayAll ls w).2 := by
  induction ls generalizing w with
  | nil => exact .refl w
  | cons l ls ih =>
      have first : World.Leaves [.shown l] w (display l w).2 := .one rfl rfl
      exact first.trans (ih _)

/-- A step adds nothing but what is of a kind. -/
def Adds (kind : Occurrence → Prop) (x : Act σ α) : Prop := ∀ w, World.Adds kind w (x w).2

/-- A step adds nothing but what is listed. -/
def Asks (listed : List Purpose) (x : Act σ α) : Prop := ∀ w, World.Grows listed w (x w).2

theorem Adds.mono {wide : Occurrence → Prop} {x : Act σ α} (adds : Adds kind x)
    (wider : ∀ o, kind o → wide o) : Adds wide x :=
  fun w => (adds w).mono wider

theorem adds_pure (a : α) : Adds kind (pure a : Act σ α) := fun w => .refl w

theorem adds_get : Adds kind (get : Act σ (World σ)) := fun w => .refl w

theorem adds_modify {f : World σ → World σ} (keeps : ∀ w, (f w).past = w.past) :
    Adds kind (modify f : Act σ Unit) :=
  fun w => .of_past (keeps w)

/-- **One step after another.** -/
theorem adds_bind {x : Act σ α} {f : α → Act σ β} (first : Adds kind x)
    (later : ∀ a, Adds kind (f a)) : Adds kind (x >>= f) :=
  fun w => (first w).trans (later _ _)

theorem adds_call {platform : Platform σ} {c : Call} (of_kind : ∀ failure, kind (.called c failure)) :
    Adds kind (call platform c) :=
  fun _ => .one (of_kind _) rfl

theorem adds_await {platform : Platform σ} {c : Call} (of_kind : ∀ failure, kind (.called c failure)) :
    Adds kind (await platform c) :=
  fun w => .one (of_kind _) (w.past_awaited platform c)

theorem adds_lasting {platform : Platform σ} {c : Call} : Adds kind (lasting platform c) :=
  adds_bind adds_get fun _ => adds_pure _

theorem adds_display {l : Line} (of_kind : kind (.shown l)) : Adds kind (display l : Act σ Unit) :=
  fun _ => .one of_kind rfl

theorem adds_report {r : Report} (of_kind : kind (.reported r)) : Adds kind (report r : Act σ Unit) :=
  fun _ => .one of_kind rfl

theorem adds_forM {l : List α} {f : α → Act σ PUnit} (each : ∀ a ∈ l, Adds kind (f a)) :
    Adds kind (l.forM f) := by
  induction l with
  | nil => exact adds_pure _
  | cons a l ih =>
      exact adds_bind (each a List.mem_cons_self) fun _ =>
        ih fun b member => each b (List.mem_cons_of_mem a member)

theorem adds_mapM {l : List α} {f : α → Act σ β} (each : ∀ a ∈ l, Adds kind (f a)) :
    Adds kind (l.mapM f) := by
  induction l with
  | nil =>
      rw [List.mapM_nil]
      exact adds_pure _
  | cons a l ih =>
      rw [List.mapM_cons]
      exact adds_bind (each a List.mem_cons_self) fun _ =>
        adds_bind (ih fun b member => each b (List.mem_cons_of_mem a member)) fun _ => adds_pure _

theorem adds_displayAll {ls : List Line} (of_kind : ∀ l ∈ ls, kind (.shown l)) :
    Adds kind (displayAll ls : Act σ Unit) :=
  adds_forM fun l member => adds_display (of_kind l member)

theorem adds_displayReports (of_kind : ∀ r : Report, kind (.shown r.line)) :
    Adds kind (displayReports : Act σ Unit) := by
  refine adds_bind adds_get fun w => adds_bind (adds_modify fun _ => rfl) fun _ =>
    adds_displayAll fun l member => ?_
  obtain ⟨r, -, rfl⟩ := List.mem_map.1 member
  exact of_kind r

/-! ### Steps that only show something -/

/-- A step that takes no time and leaves the platform alone. -/
def Quiet (x : Act σ α) : Prop := ∀ w, (x w).2.now = w.now ∧ (x w).2.state = w.state

theorem quiet_pure (a : α) : Quiet (pure a : Act σ α) := fun _ => ⟨rfl, rfl⟩

theorem quiet_get : Quiet (get : Act σ (World σ)) := fun _ => ⟨rfl, rfl⟩

theorem quiet_bind {x : Act σ α} {f : α → Act σ β} (first : Quiet x) (later : ∀ a, Quiet (f a)) :
    Quiet (x >>= f) := fun w =>
  ⟨(later _ _).1.trans (first w).1, (later _ _).2.trans (first w).2⟩

theorem quiet_displayAll (ls : List Line) : Quiet (displayAll ls : Act σ Unit) := by
  induction ls with
  | nil => exact quiet_pure _
  | cons l ls ih => exact quiet_bind (fun _ => ⟨rfl, rfl⟩) fun _ => ih

/-! ### Results -/

/-- Whatever world a step starts from, it comes to something of some sort. -/
def Gives (sort : α → Prop) (x : Act σ α) : Prop := ∀ w, sort (x w).1

theorem gives_pure {sort : α → Prop} {a : α} (of_sort : sort a) : Gives sort (pure a : Act σ α) :=
  fun _ => of_sort

theorem gives_bind {sort : β → Prop} {x : Act σ α} {f : α → Act σ β}
    (later : ∀ a, Gives sort (f a)) : Gives sort (x >>= f) :=
  fun _ => later _ _

/-! ### Waiting -/

theorem adds_tick : Adds kind (tick : Act σ Unit) := adds_modify fun _ => rfl

section Waiting

/-! What goes on beside stays of some sort, and as long as it is of that sort it adds nothing but what
is of the kind. -/

variable {beside : β → Act σ β} {sort : β → Prop} (meanwhile : ∀ b, sort b → Adds kind (beside b))
  (stays : ∀ b, sort b → Gives sort (beside b))
include stays

theorem gives_passFor (n : Nat) {b : β} (of_sort : sort b) : Gives sort (passFor beside n b) := by
  intro w
  induction n generalizing b w with
  | zero => exact of_sort
  | succ n ih => exact ih (stays b of_sort w) _

theorem gives_passUntil (time : Nat) {b : β} (of_sort : sort b) :
    Gives sort (passUntil beside time b) :=
  gives_bind fun _ => gives_passFor stays _ of_sort

include meanwhile

theorem adds_passFor (n : Nat) {b : β} (of_sort : sort b) : Adds kind (passFor beside n b) := by
  intro w
  induction n generalizing b w with
  | zero => exact .refl w
  | succ n ih =>
      exact (meanwhile b of_sort w).trans ((adds_tick _).trans (ih (stays b of_sort w) _))

theorem adds_passUntil (time : Nat) {b : β} (of_sort : sort b) :
    Adds kind (passUntil beside time b) :=
  adds_bind adds_get fun _ => adds_passFor meanwhile stays _ of_sort

section Calls

variable {platform : Platform σ} {c : Call} (called : ∀ failure, kind (.called c failure))
include called

/-- Waiting for an answer adds the call and what goes on beside. -/
theorem adds_awaitBeside {b : β} (of_sort : sort b) (w : World σ) :
    World.Adds kind w (awaitBeside platform beside c b w).2 ∧
      sort (awaitBeside platform beside c b w).1.2 := by
  have asked : World.Adds kind w (w.answered platform c) := adds_call called w
  rw [awaitBeside_apply]
  exact ⟨asked.trans (adds_passFor meanwhile stays _ of_sort _), gives_passFor stays _ of_sort _⟩

/-- **A wait adds what its calls and what goes on beside add**, and what goes on beside stays what
it is. -/
theorem adds_poll {i : Interruption} {verdict? : c.Answer → Option α} (ticker : Ticker) {b : β}
    (of_sort : sort b) (w : World σ) :
    World.Adds kind w (poll i platform beside c verdict? ticker b w).2 ∧
      sort (poll i platform beside c verdict? ticker b w).1.2 := by
  induction ticker, b using poll.induct (σ := σ) i generalizing w with
  | case1 ticker b ih =>
      rw [poll_apply]
      dsimp only
      split
      · exact ⟨adds_passUntil meanwhile stays _ of_sort w, gives_passUntil stays _ of_sort w⟩
      · rename_i going
        have waited := adds_passUntil meanwhile stays (max w.now ticker.deadline) of_sort w
        have still := gives_passUntil stays (max w.now ticker.deadline) of_sort w
        obtain ⟨asked, still⟩ := adds_awaitBeside meanwhile stays called still
          (passUntil beside (max w.now ticker.deadline) b w).2
        split
        · exact ⟨waited.trans asked, still⟩
        · obtain ⟨rest, last⟩ := ih w going _ still _
          exact ⟨(waited.trans asked).trans rest, last⟩

end Calls

end Waiting

end Act

namespace Attempt

variable {σ ε δ α β : Type} {kind : Occurrence → Prop}

/-- An attempt adds nothing but what is of a kind, however it ends. -/
def Adds (kind : Occurrence → Prop) (x : Attempt σ ε α) : Prop := ∀ w, World.Adds kind w (x w).2

/-- An attempt adds nothing but what is listed, however it ends. -/
def Asks (listed : List Purpose) (x : Attempt σ ε α) : Prop :=
  ∀ w, World.Grows listed w (x w).2

theorem Adds.mono {wide : Occurrence → Prop} {x : Attempt σ ε α} (adds : Adds kind x)
    (wider : ∀ o, kind o → wide o) : Adds wide x :=
  Act.Adds.mono adds wider

theorem Adds.of_apply {x : Attempt σ ε α} (adds : Adds kind x) {w w' : World σ} {r : Except ε α}
    (came : x w = (r, w')) : World.Adds kind w w' := by
  have added := adds w
  rwa [came] at added

theorem Asks.mono {few many : List Purpose} {x : Attempt σ ε α} (asks : Asks few x)
    (more : few ⊆ many) : Asks many x :=
  fun w => (asks w).mono more

theorem adds_pure (a : α) : Adds kind (pure a : Attempt σ ε α) := fun w => .refl w

theorem adds_throw (e : ε) : Adds kind (throw e : Attempt σ ε α) := fun w => .refl w

theorem adds_ofExcept (r : Except ε α) : Adds kind (ofExcept r : Attempt σ ε α) :=
  fun w => .refl w

theorem adds_lift {x : Act σ α} (adds : Act.Adds kind x) :
    Adds kind (liftM x : Attempt σ ε α) := adds

theorem adds_act {x : Act σ α} (adds : Act.Adds kind x) : Adds kind (act x : Attempt σ ε α) :=
  adds

theorem adds_adapt {x : Attempt σ ε α} (adds : Adds kind x) (f : ε → δ) :
    Adds kind (ExceptT.adapt f x : Attempt σ δ α) := adds

/-- **One attempt after another.** -/
theorem adds_bind {x : Attempt σ ε α} {f : α → Attempt σ ε β} (first : Adds kind x)
    (later : ∀ a, Adds kind (f a)) : Adds kind (x >>= f) := by
  intro w
  rw [bind_apply]
  split
  · exact (first w).trans (later _ _)
  · exact first w

theorem adds_mapM {l : List α} {f : α → Attempt σ ε β} (each : ∀ a ∈ l, Adds kind (f a)) :
    Adds kind (l.mapM f) := by
  induction l with
  | nil =>
      rw [List.mapM_nil]
      exact adds_pure _
  | cons a l ih =>
      rw [List.mapM_cons]
      exact adds_bind (each a List.mem_cons_self) fun _ =>
        adds_bind (ih fun b member => each b (List.mem_cons_of_mem a member)) fun _ => adds_pure _

end Attempt

namespace Scene

variable {σ ε : Type} {kind : Occurrence → Prop} (scene : Scene σ)

theorem adds_tree : Act.Adds kind scene.tree := Act.adds_bind Act.adds_get fun _ => Act.adds_pure _

theorem adds_isFired : Act.Adds kind scene.isFired :=
  Act.adds_bind Act.adds_get fun _ => Act.adds_pure _

theorem adds_isReleased : Act.Adds kind scene.isReleased :=
  Act.adds_bind Act.adds_get fun _ => Act.adds_pure _

theorem adds_require {failure : PlatformError → ε} {c : Call}
    (of_kind : ∀ failure, kind (.called c failure)) :
    Attempt.Adds kind (scene.require failure c) := by
  refine Attempt.adds_bind (Attempt.adds_lift (Act.adds_await of_kind)) fun r => ?_
  cases r with
  | ok a => exact Attempt.adds_pure a
  | error e => exact Attempt.adds_throw _

end Scene

end DevMode
