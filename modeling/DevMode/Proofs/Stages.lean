/-
# DevMode.Proofs.Stages -- which stages of a recipe stand alone

A recipe may build several images, each of them from its own image on.  Such a stage takes its
working directory from its image, but it keeps whatever environment the instructions before it
have left and only adds to that.  So what a stage copies where can depend on the stages before it.

`Scope` tells what a stage has from its own instructions: names whose values do not depend on what
was before, and whether the working directory does not.  `Scope.holds` follows that through a
stage, and `standsAlone_iff` says that this is exact: a stage for which it holds does the same
behind everything, and for any other there are two beginnings behind which it does not.

* `State.Agrees` is what two runs of a stage have in common, `Agrees.after` the step that keeps it.
* `Astray` is what two runs have that begin with far-apart values of every name, `Astray.after` the
  step that keeps it, and `Astray.leads` where this comes out.
-/
import DevMode.Proofs.Gaps

namespace DevMode

set_option autoImplicit false

namespace Recipe

variable {inspector : Inspector} {buildDir : LocalPath}

/-! ## What a stage does -/

namespace State

/-- The sources that an instruction records. -/
def recorded (s : State) (buildDir : LocalPath) : Instruction → List Pending
  | .copy sources target =>
    let target := s.expand target
    (sources.filter (!Instruction.isUrl ·)).map fun w =>
      ⟨buildDir.join ⟨w⟩, s.targetOf target, namesDirectory target || decide (1 < sources.length)⟩
  | _ => []

theorem foldl_setting (settings : List (Word × Word)) (s : State) :
    (settings.foldl setting s).workDir = s.workDir ∧
      (settings.foldl setting s).pending = s.pending := by
  induction settings generalizing s with
  | nil => exact ⟨rfl, rfl⟩
  | cons kv settings ih => exact ih (s.setting kv)

theorem effect_pending {i : Instruction} {f : State → State}
    (does : effect inspector buildDir i = .ok f) (s : State) :
    (f s).pending = s.pending ++ s.recorded buildDir i := by
  cases i with
  | from_ image =>
      rw [effect] at does
      cases looked : inspector.look image with
      | error e => rw [looked] at does; cases does
      | ok found =>
          rw [looked] at does
          obtain rfl := Except.ok.inj does
          cases found <;> simp [based, recorded]
  | env settings =>
      obtain rfl := Except.ok.inj does
      simp [recorded, (foldl_setting settings s).2]
  | workdir dir =>
      obtain rfl := Except.ok.inj does
      simp [recorded]
  | copy sources target =>
      obtain rfl := Except.ok.inj does
      rfl

/-- How many sources an instruction records is up to the instruction. -/
theorem length_recorded (s t : State) (i : Instruction) :
    (s.recorded buildDir i).length = (t.recorded buildDir i).length := by
  cases i <;> simp [recorded]

end State

/-- What a stage records, and the working directory at its end. -/
def outcome (inspector : Inspector) (buildDir : LocalPath) (s : State) (stage : List Instruction) :
    Except ResolveError (List Pending × String) :=
  (follow inspector buildDir s stage).map fun t => (t.pending.drop s.pending.length, t.workDir)

/-- A stage only adds to what is recorded. -/
theorem exists_recorded {s s' : State} {stage : List Instruction}
    (went : follow inspector buildDir s stage = .ok s') : ∃ more, s'.pending = s.pending ++ more := by
  induction stage generalizing s with
  | nil =>
      obtain rfl := Except.ok.inj went
      exact ⟨[], by simp⟩
  | cons i rest ih =>
      rw [follow_cons] at went
      cases does : State.effect inspector buildDir i with
      | error e => rw [does] at went; cases went
      | ok f =>
          rw [does] at went
          obtain ⟨more, later⟩ := ih went
          exact ⟨s.recorded buildDir i ++ more, by
            rw [later, State.effect_pending does, List.append_assoc]⟩

theorem outcome_nil (s : State) : outcome inspector buildDir s [] = .ok ([], s.workDir) := by
  simp [outcome, Except.map]

/-- What a stage records begins with what its first instruction does. -/
theorem outcome_cons (s : State) (i : Instruction) (rest : List Instruction) :
    outcome inspector buildDir s (i :: rest) =
      (State.effect inspector buildDir i).bind fun f =>
        (outcome inspector buildDir (f s) rest).map fun (found, dir) =>
          (s.recorded buildDir i ++ found, dir) := by
  rw [outcome, follow_cons]
  cases does : State.effect inspector buildDir i with
  | error e => rfl
  | ok f =>
      simp only [Except.bind, outcome]
      cases went : follow inspector buildDir (f s) rest with
      | error e => rfl
      | ok s' =>
          obtain ⟨more, later⟩ := exists_recorded went
          simp [Except.map, later, State.effect_pending does]

/-! ## Scopes -/

/-- What a stage has from its own instructions: names whose values do not depend on what was
before it, and whether the working directory does not. -/
structure Scope where
  names : List String
  dir : Bool
  deriving DecidableEq, Repr

namespace Scope

/-- Nothing is a stage's own before it begins. -/
def empty : Scope := ⟨[], false⟩

/-- All names that a text refers to are a stage's own. -/
def owns (c : Scope) (w : Word) : Bool :=
  (Environment.names (String.ofList w)).all fun name => decide (name ∈ c.names)

theorem owns_iff {c : Scope} {w : Word} :
    c.owns w = true ↔ ∀ name ∈ Environment.names (String.ofList w), name ∈ c.names := by
  simp [owns]

/-- A path leads where the stage alone says: by its text, or from a directory of the stage. -/
def leads (c : Scope) (s : State) (w : Word) : Bool :=
  c.owns w && (c.dir || RemotePath.isAbsolute (s.expand w))

/-- A name becomes the stage's own with a value that is, and is lost with any other. -/
def set (c : Scope) (kv : Word × Word) : Scope :=
  { c with
    names :=
      if c.owns kv.2 then String.ofList kv.1 :: c.names
      else c.names.filter (· ≠ String.ofList kv.1) }

/-- The names of entries of the form `NAME=value`. -/
def entryNames (entries : List String) : List String :=
  entries.filterMap fun entry =>
    (Text.splitOnce? '=' entry.toList).map fun kv => String.ofList kv.1

/-- An image gives names their values, and the working directory. -/
def based (c : Scope) : Option (List String × String) → Scope
  | none => c
  | some (entries, _) => ⟨entryNames entries ++ c.names, true⟩

/-- The scope behind an instruction. -/
def after (inspector : Inspector) (s : State) (c : Scope) : Instruction → Scope
  | .from_ image => c.based (inspector.look image).toOption.join
  | .env settings => settings.foldl set c
  | .workdir dir => { c with dir := c.leads s dir }
  | .copy .. => c

/-- Whether all that an instruction records goes where the stage alone says. -/
def places (s : State) (c : Scope) : Instruction → Bool
  | .copy sources target => sources.all Instruction.isUrl || c.leads s target
  | _ => true

/-- Whether all that a stage records goes where the stage alone says, and so does its last
working directory. -/
def holds (inspector : Inspector) (buildDir : LocalPath) (s : State) (c : Scope) :
    List Instruction → Bool
  | [] => c.dir
  | i :: rest =>
    match State.effect inspector buildDir i with
    | .ok f => c.places s i && (c.after inspector s i).holds inspector buildDir (f s) rest
    | .error _ => true

end Scope

/-- Whether a stage stands alone.  A stage that cannot be followed to its end does. -/
def standsAlone (inspector : Inspector) (buildDir : LocalPath) (stage : List Instruction) : Bool :=
  match follow inspector buildDir .start stage with
  | .ok _ => Scope.empty.holds inspector buildDir .start stage
  | .error _ => true

/-! ## What stands alone does the same behind everything -/

namespace State

/-- Two states have in common what is in a scope. -/
structure Agrees (c : Scope) (s t : State) : Prop where
  env : ∀ name ∈ c.names, s.env.value? name = t.env.value? name
  dir : c.dir = true → s.workDir = t.workDir

namespace Agrees

variable {c : Scope} {s t : State}

theorem expand (agrees : Agrees c s t) {w : Word} (owned : c.owns w = true) :
    s.expand w = t.expand w :=
  Environment.expand_congr fun name refers => agrees.env name (Scope.owns_iff.1 owned name refers)

theorem setting (agrees : Agrees c s t) (kv : Word × Word) :
    Agrees (c.set kv) (s.setting kv) (t.setting kv) := by
  refine ⟨fun name own => ?_, agrees.dir⟩
  by_cases same : name = String.ofList kv.1
  · subst same
    by_cases owned : c.owns kv.2 = true
    · simp [State.setting, agrees.expand owned]
    · simp [Scope.set, owned] at own
  · have kept : name ∈ c.names := by
      by_cases owned : c.owns kv.2 = true
      · simpa [Scope.set, owned, same] using own
      · simp only [Scope.set, owned, if_false, Bool.false_eq_true] at own
        exact (List.mem_filter.1 own).1
    simp only [State.setting, Environment.value?_set_ne _ _ _ _ same]
    exact agrees.env name kept

theorem settings (settings : List (Word × Word)) :
    ∀ {c : Scope} {s t : State}, Agrees c s t →
      Agrees (settings.foldl Scope.set c) (settings.foldl State.setting s)
        (settings.foldl State.setting t) := by
  induction settings with
  | nil => exact fun agrees => agrees
  | cons kv settings ih => exact fun agrees => ih (agrees.setting kv)

end Agrees

end State

/-- Entries give a name the same value whatever it was, or leave it. -/
theorem value?_overlay {name : String} (entries : List String) :
    ∀ {e₁ e₂ : Environment}, name ∈ Scope.entryNames entries ∨ e₁.value? name = e₂.value? name →
      (overlay e₁ entries).value? name = (overlay e₂ entries).value? name := by
  induction entries with
  | nil => exact fun h => h.elim (fun none_given => by simp [Scope.entryNames] at none_given) id
  | cons entry entries ih =>
      intro e₁ e₂ h
      rw [overlay, overlay, List.foldl_cons, List.foldl_cons]
      cases split : Text.splitOnce? '=' entry.toList with
      | none =>
          refine ih (h.imp_left fun member => ?_)
          simpa [Scope.entryNames, split] using member
      | some kv =>
          by_cases same : name = String.ofList kv.1
          · refine ih (.inr ?_)
            simp [same]
          · refine ih (h.imp (fun member => ?_) fun alike => ?_)
            · simpa [Scope.entryNames, split, same] using member
            · rw [Environment.value?_set_ne _ _ _ _ same, Environment.value?_set_ne _ _ _ _ same,
                alike]

namespace State.Agrees

variable {c : Scope} {s t : State}

theorem based (agrees : Agrees c s t) (found : Option (List String × String)) :
    Agrees (c.based found) (s.based found) (t.based found) := by
  cases found with
  | none => exact agrees
  | some image =>
      refine ⟨fun name own => value?_overlay image.1 ?_, fun _ => rfl⟩
      exact (List.mem_append.1 own).imp_right (agrees.env name)

/-- What leads where the stage alone says leads there from both states. -/
theorem targetOf (agrees : Agrees c s t) {w : Word} (led : c.leads s w = true) :
    s.expand w = t.expand w ∧ s.targetOf (s.expand w) = t.targetOf (t.expand w) := by
  obtain ⟨owned, from_own⟩ := Bool.and_eq_true_iff.1 led
  have same := agrees.expand owned
  refine ⟨same, ?_⟩
  rw [← same]
  rcases Bool.or_eq_true_iff.1 from_own with dir | absolute
  · simp [State.targetOf, agrees.dir dir]
  · simp [State.targetOf, absolute]

theorem enter (agrees : Agrees c s t) {w : Word} (led : c.leads s w = true) :
    (s.enter w).workDir = (t.enter w).workDir := by
  obtain ⟨owned, from_own⟩ := Bool.and_eq_true_iff.1 led
  have same := agrees.expand owned
  rcases Bool.or_eq_true_iff.1 from_own with dir | absolute
  · simp [State.enter, same, agrees.dir dir]
  · have absolute' := same ▸ absolute
    simp [State.enter, absolute', same]

/-- **An instruction keeps what two runs have in common.** -/
theorem after (agrees : Agrees c s t) {i : Instruction} {f : State → State}
    (does : effect inspector buildDir i = .ok f) :
    Agrees (c.after inspector s i) (f s) (f t) := by
  cases i with
  | from_ image =>
      rw [effect] at does
      cases looked : inspector.look image with
      | error e => rw [looked] at does; cases does
      | ok found =>
          rw [looked] at does
          obtain rfl := Except.ok.inj does
          rw [Scope.after, looked]
          exact agrees.based found
  | env settings =>
      obtain rfl := Except.ok.inj does
      exact Agrees.settings settings agrees
  | workdir dir =>
      obtain rfl := Except.ok.inj does
      exact ⟨by simpa only [enter_env, Scope.after] using agrees.env, agrees.enter⟩
  | copy sources target =>
      obtain rfl := Except.ok.inj does
      exact ⟨agrees.env, agrees.dir⟩

theorem recorded (agrees : Agrees c s t) {i : Instruction} (placed : c.places s i = true) :
    s.recorded buildDir i = t.recorded buildDir i := by
  cases i with
  | from_ | env | workdir => rfl
  | copy sources target =>
      rcases Bool.or_eq_true_iff.1 placed with urls | led
      · have none_left : sources.filter (!Instruction.isUrl ·) = [] := by
          simpa [List.filter_eq_nil_iff] using urls
        simp [State.recorded, none_left]
      · obtain ⟨same, target⟩ := agrees.targetOf led
        rw [← same] at target
        simp only [State.recorded, ← same, target]

/-- **A stage that stands alone comes to the same from both states.** -/
theorem outcome_eq {stage : List Instruction} (agrees : Agrees c s t)
    (holds : c.holds inspector buildDir s stage = true) :
    outcome inspector buildDir s stage = outcome inspector buildDir t stage := by
  induction stage generalizing c s t with
  | nil => rw [outcome_nil, outcome_nil, agrees.dir holds]
  | cons i rest ih =>
      rw [outcome_cons, outcome_cons]
      cases does : effect inspector buildDir i with
      | error e => rfl
      | ok f =>
          simp only [Scope.holds, does, Bool.and_eq_true] at holds
          simp only [Except.bind]
          rw [ih (agrees.after does) holds.2, agrees.recorded holds.1]

end State.Agrees

/-! ## What does not stand alone does something else behind something -/

/-- The texts of an instruction that are expanded. -/
def Instruction.texts : Instruction → List Word
  | .from_ _ => []
  | .env settings => settings.map Prod.snd
  | .workdir dir => [dir]
  | .copy _ target => [target]

/-- The names that an instruction refers to. -/
def Instruction.names (i : Instruction) : List String :=
  i.texts.flatMap fun w => Environment.names (String.ofList w)

/-- Two runs, each for every length of the values that they began with.  What is in the scope is
as in a run of the stage alone; every other name of a vocabulary has a value with gaps, filled
with stems that begin differently; and if the working directory is not in the scope, the two
drift apart. -/
structure Astray (vocabulary : List String) (c : Scope) (s : State) (one other : Nat → State) :
    Prop where
  forms : ∃ fs : Forms, (∀ n, (one n).env = fs.fill (Form.stem 'a' n)) ∧
    (∀ n, (other n).env = fs.fill (Form.stem 'b' n)) ∧
    ∀ name ∈ vocabulary, name ∉ c.names → ∃ f, fs.lookup name = some f ∧ none ∈ f
  one_agrees : ∀ n, State.Agrees c s (one n)
  other_agrees : ∀ n, State.Agrees c s (other n)
  dir : c.dir = false → Location.Drift (fun n => Location.parse (one n).workDir.toList)
    (fun n => Location.parse (other n).workDir.toList)

/-- A text that is not a stage's own has a gap. -/
theorem Forms.gap_expand_of_foreign {vocabulary : List String} {c : Scope} {fs : Forms}
    (gaps : ∀ name ∈ vocabulary, name ∉ c.names → ∃ f, fs.lookup name = some f ∧ none ∈ f) {w : Word}
    (known : Environment.names (String.ofList w) ⊆ vocabulary) (foreign : c.owns w = false) :
    none ∈ fs.expand (String.ofList w) := by
  obtain ⟨name, refers, other⟩ : ∃ name ∈ Environment.names (String.ofList w), name ∉ c.names := by
    simpa [Scope.owns] using foreign
  obtain ⟨f, found, gap⟩ := gaps name (known refers) other
  exact Forms.gap_expand refers found gap

namespace Astray

variable {vocabulary : List String} {c : Scope} {s : State} {one other : Nat → State}

open Location

/-- **What does not lead where the stage alone says drifts apart.** -/
theorem leads (astray : Astray vocabulary c s one other) {w : Word}
    (known : Environment.names (String.ofList w) ⊆ vocabulary) (strays : c.leads s w = false) :
    Drift (fun n => (parse ((one n).expand w).toList).against (parse (one n).workDir.toList))
      (fun n => (parse ((other n).expand w).toList).against (parse (other n).workDir.toList)) := by
  by_cases owned : c.owns w = true
  · -- The text is the same in both runs, and is taken against directories that drift apart.
    have foreign : c.dir = false ∧ RemotePath.isAbsolute (s.expand w) = false := by
      simpa [Scope.leads, owned] using strays
    have relative : (s.expand w).toList.head? ≠ some '/' := fun head => by
      simp [(RemotePath.isAbsolute_iff _).2 head] at foreign
    have walked := (astray.dir foreign.1).walk (fun _ => (s.expand w).toList)
      (fun _ => (s.expand w).toList) (fun _ => Nat.le_refl _) fun _ => Nat.le_refl _
    obtain ⟨least, apart⟩ := walked
    refine ⟨least, fun n long => ?_⟩
    dsimp only
    rw [← (astray.one_agrees n).expand owned, ← (astray.other_agrees n).expand owned,
      RemotePath.against_relative relative, RemotePath.against_relative relative]
    exact apart n long
  · obtain ⟨fs, one_env, other_env, gaps⟩ := astray.forms
    have gap := Forms.gap_expand_of_foreign gaps known (by simpa using owned)
    have far : (fun n => parse (one n).workDir.toList) = (fun n => parse (other n).workDir.toList) ∨
        Drift (fun n => parse (one n).workDir.toList) (fun n => parse (other n).workDir.toList) := by
      by_cases own : c.dir = true
      · left
        funext n
        rw [← (astray.one_agrees n).dir own, ← (astray.other_agrees n).dir own]
      · exact .inr (astray.dir (by simpa using own))
    have one_expand (n : Nat) : ((one n).expand w).toList =
        (fs.expand (String.ofList w)).fill (Form.stem 'a' n) := by
      rw [State.expand, one_env, Forms.fill_expand, String.toList_ofList]
    have other_expand (n : Nat) : ((other n).expand w).toList =
        (fs.expand (String.ofList w)).fill (Form.stem 'b' n) := by
      rw [State.expand, other_env, Forms.fill_expand, String.toList_ofList]
    simpa only [one_expand, other_expand] using Form.drift_against gap far

theorem setting (astray : Astray vocabulary c s one other) (kv : Word × Word)
    (known : Environment.names (String.ofList kv.2) ⊆ vocabulary) :
    Astray vocabulary (c.set kv) (s.setting kv) (fun n => (one n).setting kv)
      (fun n => (other n).setting kv) := by
  obtain ⟨fs, one_env, other_env, gaps⟩ := astray.forms
  have fills (gap : List Char) (name value : String) :
      (fs.fill gap).set name ((fs.fill gap).expand value) =
        Forms.fill gap ((name, fs.expand value) :: fs) := by
    rw [Forms.fill_expand]
    rfl
  refine ⟨⟨(String.ofList kv.1, fs.expand (String.ofList kv.2)) :: fs, fun n => ?_, fun n => ?_,
    fun name member foreign => ?_⟩, fun n => (astray.one_agrees n).setting kv,
    fun n => (astray.other_agrees n).setting kv, astray.dir⟩
  · rw [← fills]
    simp only [State.setting, State.expand, one_env]
  · rw [← fills]
    simp only [State.setting, State.expand, other_env]
  · by_cases same : name = String.ofList kv.1
    · subst same
      refine ⟨_, Forms.lookup_cons_same _ _ _, Forms.gap_expand_of_foreign gaps known ?_⟩
      cases owned : c.owns kv.2 with
      | false => rfl
      | true => simp [Scope.set, owned] at foreign
    · have foreign' : name ∉ c.names := by
        intro own
        refine foreign ?_
        by_cases owned : c.owns kv.2 = true
        · simp [Scope.set, owned, own]
        · simp [Scope.set, owned, own, same]
      obtain ⟨f, found, gap⟩ := gaps name member foreign'
      exact ⟨f, (Forms.lookup_cons_other same _ fs).trans found, gap⟩

theorem settings (settings : List (Word × Word)) :
    ∀ {c : Scope} {s : State} {one other : Nat → State}, Astray vocabulary c s one other →
      (Instruction.env settings).names ⊆ vocabulary →
      Astray vocabulary (settings.foldl Scope.set c) (settings.foldl State.setting s)
        (fun n => settings.foldl State.setting (one n))
        (fun n => settings.foldl State.setting (other n)) := by
  induction settings with
  | nil => exact fun astray _ => astray
  | cons kv settings ih =>
      intro c s one other astray known
      obtain ⟨first, later⟩ := List.append_subset.1 known
      exact ih (astray.setting kv first) later

end Astray

/-! ### Images -/

/-- Forms with the values of entries on top, which have no gaps. -/
def overlayForms (fs : Forms) (entries : List String) : Forms :=
  entries.foldl (fun fs entry =>
    match Text.splitOnce? '=' entry.toList with
    | some (k, v) => (String.ofList k, v.map some) :: fs
    | none => fs) fs

theorem fill_overlayForms (gap : List Char) (entries : List String) :
    ∀ fs : Forms, (overlayForms fs entries).fill gap = overlay (fs.fill gap) entries := by
  induction entries with
  | nil => exact fun fs => rfl
  | cons entry entries ih =>
      intro fs
      rw [overlayForms, overlay, List.foldl_cons, List.foldl_cons]
      cases Text.splitOnce? '=' entry.toList with
      | none => exact ih fs
      | some kv =>
          refine (ih _).trans (congrArg (overlay · entries) ?_)
          simp [Forms.fill, Environment.set]

/-- Entries leave the forms of other names. -/
theorem lookup_overlayForms {name : String} (entries : List String) :
    ∀ fs : Forms, name ∉ Scope.entryNames entries →
      (overlayForms fs entries).lookup name = fs.lookup name := by
  induction entries with
  | nil => exact fun fs _ => rfl
  | cons entry entries ih =>
      intro fs other
      rw [overlayForms, List.foldl_cons]
      cases split : Text.splitOnce? '=' entry.toList with
      | none => exact ih fs (by simpa [Scope.entryNames, split] using other)
      | some kv =>
          obtain ⟨ne, other⟩ : name ≠ String.ofList kv.1 ∧ name ∉ Scope.entryNames entries := by
            simpa [Scope.entryNames, split] using other
          exact (ih _ other).trans (Forms.lookup_cons_other ne _ fs)

namespace Astray

variable {vocabulary : List String} {c : Scope} {s : State} {one other : Nat → State}

theorem based (astray : Astray vocabulary c s one other) (found : Option (List String × String)) :
    Astray vocabulary (c.based found) (s.based found) (fun n => (one n).based found)
      (fun n => (other n).based found) := by
  cases found with
  | none => exact astray
  | some image =>
      obtain ⟨fs, one_env, other_env, gaps⟩ := astray.forms
      refine ⟨⟨overlayForms fs image.1, fun n => ?_, fun n => ?_, fun name member foreign => ?_⟩,
        fun n => (astray.one_agrees n).based _, fun n => (astray.other_agrees n).based _,
        fun unknown => by cases unknown⟩
      · rw [fill_overlayForms, ← one_env, State.based]
      · rw [fill_overlayForms, ← other_env, State.based]
      · obtain ⟨new, old⟩ : name ∉ Scope.entryNames image.1 ∧ name ∉ c.names := by
          simpa [Scope.based] using foreign
        rw [lookup_overlayForms _ _ new]
        exact gaps name member old

/-- **An instruction leads two runs that go astray further astray.** -/
theorem after (astray : Astray vocabulary c s one other) {i : Instruction} {f : State → State}
    (does : State.effect inspector buildDir i = .ok f) (known : i.names ⊆ vocabulary) :
    Astray vocabulary (c.after inspector s i) (f s) (fun n => f (one n)) (fun n => f (other n)) := by
  cases i with
  | from_ image =>
      rw [State.effect] at does
      cases looked : inspector.look image with
      | error e => rw [looked] at does; cases does
      | ok found =>
          rw [looked] at does
          obtain rfl := Except.ok.inj does
          rw [Scope.after, looked]
          exact astray.based found
  | env settings =>
      obtain rfl := Except.ok.inj does
      exact Astray.settings settings astray known
  | workdir dir =>
      have one_agrees (n : Nat) := (astray.one_agrees n).after does
      have other_agrees (n : Nat) := (astray.other_agrees n).after does
      obtain rfl := Except.ok.inj does
      refine ⟨by simpa only [State.enter_env, Scope.after] using astray.forms, one_agrees, other_agrees,
        fun strays => ?_⟩
      simpa only [State.parse_enter] using
        astray.leads (by simpa [Instruction.names, Instruction.texts] using known) strays
  | copy sources target =>
      have one_agrees (n : Nat) := (astray.one_agrees n).after does
      have other_agrees (n : Nat) := (astray.other_agrees n).after does
      obtain rfl := Except.ok.inj does
      exact ⟨astray.forms, one_agrees, other_agrees, astray.dir⟩

/-- What a copy records of two runs differs in the end, if the stage alone does not say where it
goes. -/
theorem recorded_ne (astray : Astray vocabulary c s one other) {i : Instruction}
    (known : i.names ⊆ vocabulary) (strays : c.places s i = false) :
    ∃ least, ∀ n ≥ least, (one n).recorded buildDir i ≠ (other n).recorded buildDir i := by
  cases i with
  | from_ | env | workdir => cases strays
  | copy sources target =>
      obtain ⟨some_file, strays⟩ : (∃ w ∈ sources, Instruction.isUrl w = false) ∧
          c.leads s target = false := by
        simpa [Scope.places] using strays
      obtain ⟨w, member, file⟩ := some_file
      obtain ⟨least, apart⟩ := astray.leads
        (by simpa [Instruction.names, Instruction.texts] using known) strays
      refine ⟨least, fun n long same => (apart n long).ne ?_⟩
      dsimp only
      rw [← State.parse_targetOf, ← State.parse_targetOf]
      have left : w ∈ sources.filter (!Instruction.isUrl ·) := List.mem_filter.2 ⟨member, by simp [file]⟩
      obtain ⟨v, rest, split⟩ := List.exists_cons_of_ne_nil (List.ne_nil_of_mem left)
      simp only [State.recorded, split, List.map_cons, List.cons.injEq, Pending.mk.injEq] at same
      rw [same.1.2.1]

end Astray

/-- Stages that come to the same record the same with their first instruction, and come to the same
behind it. -/
theorem outcome_tail {s t : State} {i : Instruction} {rest : List Instruction} {f : State → State}
    (does : State.effect inspector buildDir i = .ok f) {s' : State}
    (went : follow inspector buildDir (f s) rest = .ok s')
    (same : outcome inspector buildDir s (i :: rest) = outcome inspector buildDir t (i :: rest)) :
    s.recorded buildDir i = t.recorded buildDir i ∧
      outcome inspector buildDir (f s) rest = outcome inspector buildDir (f t) rest := by
  obtain ⟨t', went'⟩ := exists_follow went (f t)
  rw [outcome_cons, outcome_cons, does] at same
  simp only [outcome, went, went', Except.bind, Except.map, Except.ok.injEq, Prod.mk.injEq] at same ⊢
  obtain ⟨recorded, found⟩ := List.append_inj same.1 (State.length_recorded s t i)
  exact ⟨recorded, found, same.2⟩

/-- **Two runs of a stage that does not stand alone come to different ends.** -/
theorem Astray.outcome_ne {vocabulary : List String} {stage : List Instruction} :
    ∀ {c : Scope} {s s' : State} {one other : Nat → State}, Astray vocabulary c s one other →
      (∀ i ∈ stage, i.names ⊆ vocabulary) → follow inspector buildDir s stage = .ok s' →
      c.holds inspector buildDir s stage = false →
      ∃ least, ∀ n ≥ least,
        outcome inspector buildDir (one n) stage ≠ outcome inspector buildDir (other n) stage := by
  induction stage with
  | nil =>
      intro c s s' one other astray _ _ strays
      obtain ⟨least, apart⟩ := astray.dir strays
      refine ⟨least, fun n long same => (apart n long).ne ?_⟩
      rw [outcome_nil, outcome_nil] at same
      exact congrArg (fun dir => Location.parse dir.toList) (Prod.mk.inj (Except.ok.inj same)).2
  | cons i rest ih =>
      intro c s s' one other astray known went strays
      rw [follow_cons] at went
      cases does : State.effect inspector buildDir i with
      | error e => rw [does] at went; cases went
      | ok f =>
          rw [does] at went
          have known_first := known i List.mem_cons_self
          rw [Scope.holds, does] at strays
          obtain ⟨least, differ⟩ : ∃ least, ∀ n ≥ least,
              (one n).recorded buildDir i ≠ (other n).recorded buildDir i ∨
                outcome inspector buildDir (f (one n)) rest ≠
                  outcome inspector buildDir (f (other n)) rest := by
            rcases Bool.and_eq_false_iff.1 strays with here | later
            · obtain ⟨least, differ⟩ := astray.recorded_ne known_first here
              exact ⟨least, fun n long => .inl (differ n long)⟩
            · obtain ⟨least, differ⟩ := ih (astray.after does known_first)
                (fun j member => known j (List.mem_cons_of_mem i member)) went later
              exact ⟨least, fun n long => .inr (differ n long)⟩
          refine ⟨least, fun n long same => ?_⟩
          obtain ⟨t', went'⟩ := exists_follow went (f (one n))
          obtain ⟨recorded, found⟩ := outcome_tail does went' same
          exact (differ n long).elim (· recorded) (· found)

/-! ### Beginnings -/

/-- A beginning that gives each name of a vocabulary a long path. -/
def stems (vocabulary : List String) (c : Char) (n : Nat) : List Instruction :=
  [.env (vocabulary.map fun name => (name.toList, Form.stem c n))]

/-- A text without references stands for itself. -/
theorem expand_of_notMem {env : Environment} {text : List Char} (plain : '$' ∉ text) :
    env.expand (String.ofList text) = String.ofList text := by
  have from_text : Environment.tokensFrom .text text = Environment.plainly text := by
    induction text with
    | nil => rfl
    | cons c cs ih =>
        obtain ⟨other, plain⟩ : '$' ≠ c ∧ '$' ∉ cs := by simpa using plain
        rw [Environment.tokensFrom, if_neg (Ne.symm other), ih plain]
        rfl
  rw [Environment.expand_eq, Environment.tokens, String.toList_ofList, from_text,
    Environment.spell_plainly]

theorem settings_stems {c : Char} (no_reference : '$' ≠ c) (n : Nat) (vocabulary : List String) :
    ∀ fs : Forms, ∀ s : State, s.env = fs.fill (Form.stem c n) →
      ((vocabulary.map fun name => (name.toList, Form.stem c n)).foldl State.setting s).env =
        Forms.fill (Form.stem c n) (vocabulary.foldl (fun fs name => (name, [none]) :: fs) fs) := by
  induction vocabulary with
  | nil => exact fun fs s same => same
  | cons name vocabulary ih =>
      intro fs s same
      refine ih _ _ ?_
      have plain : '$' ∉ Form.stem c n :=
        Form.notMem_stem no_reference (by decide) (by decide) n
      simp [State.setting, State.expand, expand_of_notMem plain, same, Forms.fill, Environment.set]

theorem lookup_stems {name : String} (vocabulary : List String) :
    ∀ fs : Forms, name ∈ vocabulary ∨ fs.lookup name = some [none] →
      List.lookup name (vocabulary.foldl (fun fs name => (name, [none]) :: fs) fs) =
        some [none] := by
  induction vocabulary with
  | nil => exact fun fs h => h.elim (fun absurd => by cases absurd) id
  | cons other vocabulary ih =>
      intro fs h
      refine ih _ ?_
      by_cases same : name = other
      · subst same
        exact .inr (Forms.lookup_cons_same _ _ _)
      · refine h.imp (fun member => (List.mem_cons.1 member).resolve_left same) fun found => ?_
        exact (Forms.lookup_cons_other same _ fs).trans found

/-- Behind two such beginnings, runs go astray as soon as the working directory is given. -/
theorem exists_astray (vocabulary : List String) : ∃ one other : Nat → State,
    Astray vocabulary { Scope.empty with dir := true } .start one other ∧
      (∀ n, follow inspector buildDir .start (stems vocabulary 'a' n) = .ok (one n)) ∧
        ∀ n, follow inspector buildDir .start (stems vocabulary 'b' n) = .ok (other n) := by
  let begun (c : Char) (n : Nat) : State :=
    (vocabulary.map fun name => (name.toList, Form.stem c n)).foldl State.setting .start
  have same_dir (c : Char) (n : Nat) : State.start.workDir = (begun c n).workDir :=
    (State.foldl_setting _ State.start).1.symm
  refine ⟨begun 'a', begun 'b', ⟨⟨vocabulary.foldl (fun fs name => (name, [none]) :: fs) [],
    fun n => settings_stems (by decide) n vocabulary [] .start rfl,
    fun n => settings_stems (by decide) n vocabulary [] .start rfl,
    fun name member _ => ⟨[none], lookup_stems vocabulary [] (.inl member), List.mem_singleton_self none⟩⟩,
    fun n => ⟨fun _ own => (nomatch own), fun _ => same_dir 'a' n⟩,
    fun n => ⟨fun _ own => (nomatch own), fun _ => same_dir 'b' n⟩, fun unknown => by cases unknown⟩,
    fun n => rfl, fun n => rfl⟩

/-! ## Which stages stand alone -/

/-- **A stage from an image on does the same behind everything just if it stands alone.** -/
theorem standsAlone_iff {image : Word} {entries : List String} {dir : String}
    (env_found : inspector.env (String.ofList image) = .ok entries)
    (dir_found : inspector.workDir (String.ofList image) = .ok dir) (rest : List Instruction) :
    standsAlone inspector buildDir (.from_ image :: rest) = true ↔
      ∀ before₁ before₂ s₁ s₂, follow inspector buildDir .start before₁ = .ok s₁ →
        follow inspector buildDir .start before₂ = .ok s₂ →
          outcome inspector buildDir s₁ (.from_ image :: rest) =
            outcome inspector buildDir s₂ (.from_ image :: rest) := by
  have looked : inspector.look image = .ok (some (entries, String.ofList (Text.trim dir.toList))) := by
    simp [Inspector.look, env_found, dir_found, Except.map]
  rw [standsAlone]
  cases went : follow inspector buildDir .start (.from_ image :: rest) with
  | error e =>
      have fails (s : State) : outcome inspector buildDir s (.from_ image :: rest) = .error e := by
        rw [outcome, (follow_error_iff .start s _ e).1 went]
        rfl
      simp [fails]
  | ok s' =>
      constructor
      · intro holds _ _ s₁ s₂ _ _
        have agrees (s : State) : State.Agrees Scope.empty .start s :=
          ⟨fun _ own => (nomatch own), fun own => (nomatch own)⟩
        rw [← (agrees s₁).outcome_eq holds, ← (agrees s₂).outcome_eq holds]
      · intro same
        dsimp only
        rw [← Bool.not_eq_false]
        intro strays
        have strays' : Scope.holds inspector buildDir .start { Scope.empty with dir := true }
            (.from_ image :: rest) = false := by
          simpa [Scope.holds, State.effect, looked, Except.map, Scope.places, Scope.after,
            Except.toOption, Scope.based] using strays
        obtain ⟨one, other, astray, began, began'⟩ := @exists_astray inspector buildDir
          ((Instruction.from_ image :: rest).flatMap Instruction.names)
        obtain ⟨least, differ⟩ := astray.outcome_ne
          (fun i member _ named => List.mem_flatMap.2 ⟨i, member, named⟩) went strays'
        exact differ least (Nat.le_refl least) (same _ _ _ _ (began least) (began' least))

/-- All images set nothing and work in one directory. -/
def plainImages : Inspector := ⟨fun _ => .ok [], fun _ => .ok "/usr/src/app"⟩

/-- **A setting of one stage changes where the next one copies to.** -/
theorem setting_reaches_next_stage :
    let stage := instructions "FROM node\nCOPY src $DEST\n"
    let source := LocalPath.ofString "/app/src"
    follow plainImages (.ofString "/app") .start [] = .ok .start ∧
      outcome plainImages (.ofString "/app") .start stage =
        .ok ([⟨source, "/usr/src/app/$DEST", false⟩], "/usr/src/app") ∧
      ∃ s, follow plainImages (.ofString "/app") .start
          (instructions "FROM bare AS build\nENV DEST=/opt\n") = .ok s ∧
        outcome plainImages (.ofString "/app") s stage =
          .ok ([⟨source, "/opt", false⟩], "/usr/src/app") := by
  exact ⟨rfl, rfl, ⟨[("DEST", "/opt")], "/usr/src/app", []⟩, rfl, rfl⟩

/-- A stage that sets what it refers to stands alone. -/
theorem standsAlone_iff_of_own_setting :
    let image := "node".toList
    let rest := instructions "ENV DEST=/opt\nWORKDIR $DEST\nCOPY src .\n"
    plainImages.env (String.ofList image) = .ok [] ∧
      plainImages.workDir (String.ofList image) = .ok "/usr/src/app" ∧
      standsAlone plainImages (.ofString "/app") (.from_ image :: rest) = true ∧
      ∀ before₁ before₂ s₁ s₂, follow plainImages (.ofString "/app") .start before₁ = .ok s₁ →
        follow plainImages (.ofString "/app") .start before₂ = .ok s₂ →
          outcome plainImages (.ofString "/app") s₁ (.from_ image :: rest) =
            outcome plainImages (.ofString "/app") s₂ (.from_ image :: rest) := by
  intro image rest
  have alone : standsAlone plainImages (.ofString "/app") (.from_ image :: rest) = true := by
    decide +kernel
  have env_found : plainImages.env (String.ofList image) = .ok [] := rfl
  have dir_found : plainImages.workDir (String.ofList image) = .ok "/usr/src/app" := rfl
  exact ⟨env_found, dir_found, alone, (standsAlone_iff env_found dir_found rest).1 alone⟩

end Recipe

end DevMode
