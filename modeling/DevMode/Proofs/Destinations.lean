/-
# DevMode.Proofs.Destinations -- where a stage means its copies to go

`Here` says what the instructions of a stage mean as the image is built: in which directory it
stands at a line, the root if its image names none, and what is set; all values of one line are
read before any of them is set.  `Here.copies` are the copies of a stage with the directories they
are taken against, and `Copied.destination` is where a source of a copy ends up.

`resolveRemote_eq` says that each source of a stage reaches its destination in a process that
stands in the directory where the stage ends.  While no directory is given, neither by the image
nor by the stage, what is relative stays open until the end, and is then taken against that last
directory: `open_target_follows` is a stage where this is not where the line stands.

A stage is `Clear` if it is of one image, sets nothing on a line that is read on the same line, and
does not change to a relative directory before one is given.
-/
import DevMode.Proofs.Delivery
import DevMode.Proofs.Stages
import Mathlib.Data.List.Forall2

namespace DevMode

set_option autoImplicit false

/-! ## File names -/

namespace LocalPath

theorem whole_split (p : LocalPath) : ∀ s ∈ p.split.2, '/' ∉ s := by
  intro s member
  refine Text.sep_notMem_of_mem_pieces (?_ : s ∈ Text.pieces '/' p.chars)
  unfold split at member
  split at member <;> simp_all

theorem isName_of_fileName? {p : LocalPath} {s : Segment} (named : p.fileName? = some s) :
    Segment.IsName s := by
  have last : p.components.getLast? = some (.name s) := by
    unfold fileName? at named
    split at named
    · rename_i t found
      rw [found, Option.some.inj named]
    · cases named
  rcases List.mem_append.1 (List.mem_of_getLast? last) with lead | behind
  · unfold split at lead
    split at lead <;> simp at lead
  · rcases Component.mem_ofSegments p.whole_split behind with climb | ⟨t, same, name⟩
    · cases climb
    · rwa [Component.name.inj same]

end LocalPath

namespace Recipe

open Location

/-! ## What a stage means -/

/-- What the lines of a stage so far mean: what is set, the directory, and whether the image or the
stage has given it. -/
structure Here where
  env : Environment
  dir : Location
  given : Bool

/-- What is copied to a target, and the directory of that line. -/
structure Copied where
  path : LocalPath
  target : String
  several : Bool
  dir : Location
  given : Bool

namespace Here

def expand (h : Here) (w : Word) : String := h.env.expand (String.ofList w)

/-- On an image, in the directory that it names, or else in the root. -/
def onImage (entries : List String) (dir : String) : Here :=
  let dir := Text.trim dir.toList
  ⟨overlay [] entries, if dir = [] then origin true else parse dir, decide (dir ≠ [])⟩

/-- Behind an instruction.  The values of a line are read before any of them is set. -/
def after (h : Here) : Instruction → Here
  | .from_ _ => h
  | .env settings =>
    { h with
      env := settings.foldl (fun env kv => env.set (String.ofList kv.1) (h.expand kv.2)) h.env }
  | .workdir dir => { h with dir := (parse (h.expand dir).toList).against h.dir, given := true }
  | .copy .. => h

/-- Behind all instructions. -/
def final (h : Here) (is : List Instruction) : Here := is.foldl after h

/-- What an instruction copies. -/
def copied (h : Here) (buildDir : LocalPath) : Instruction → List Copied
  | .copy sources target =>
    (sources.filter (!Instruction.isUrl ·)).map fun w =>
      ⟨buildDir.join ⟨w⟩, h.expand target, decide (1 < sources.length), h.dir, h.given⟩
  | _ => []

/-- What instructions copy. -/
def copies (h : Here) (buildDir : LocalPath) : List Instruction → List Copied
  | [] => []
  | i :: rest => h.copied buildDir i ++ (h.after i).copies buildDir rest

/-- Whether an instruction is clear here. -/
def Clear (h : Here) : Instruction → Prop
  | .from_ _ => False
  | .env settings => settings.Pairwise fun kv later =>
      String.ofList kv.1 ∉ Environment.names (String.ofList later.2)
  | .workdir dir => h.given = true ∨ RemotePath.isAbsolute (h.expand dir) = true
  | .copy .. => True

instance (h : Here) : (i : Instruction) → Decidable (h.Clear i)
  | .from_ _ => inferInstanceAs (Decidable False)
  | .env settings => inferInstanceAs (Decidable (settings.Pairwise fun kv later =>
      String.ofList kv.1 ∉ Environment.names (String.ofList later.2)))
  | .workdir dir =>
    inferInstanceAs (Decidable (h.given = true ∨ RemotePath.isAbsolute (h.expand dir) = true))
  | .copy .. => inferInstanceAs (Decidable True)

/-- Whether all instructions are clear where they stand. -/
def AllClear (h : Here) : List Instruction → Prop
  | [] => True
  | i :: rest => h.Clear i ∧ (h.after i).AllClear rest

instance decidableAllClear (h : Here) : (is : List Instruction) → Decidable (h.AllClear is)
  | [] => inferInstanceAs (Decidable True)
  | i :: rest =>
    have := decidableAllClear (h.after i) rest
    inferInstanceAs (Decidable (h.Clear i ∧ (h.after i).AllClear rest))

end Here

namespace Copied

/-- The source, as an absolute path. -/
def source (c : Copied) (tree : FileTree) : LocalPath := (c.path.against tree.current).clean

def isDirectory (c : Copied) (tree : FileTree) : Bool :=
  match tree.stat (c.source tree) with
  | .ok .dir => true
  | _ => false

/-- Whether the target can only be a directory: for several sources, or if it ends in no name. -/
def toDirectory (c : Copied) : Bool :=
  c.several || ((Text.pieces '/' c.target.toList).getLast?.all fun last => !decide (Segment.IsName last))

/-- Where the target lies, if the stage ends in a directory. -/
def place (c : Copied) (final : Location) : Location :=
  (parse c.target.toList).against (if c.given then c.dir else final)

/-- Where the source goes: a file that goes to a directory keeps its name there. -/
def destination (c : Copied) (tree : FileTree) (final : Location) : Location :=
  if c.toDirectory && !c.isDirectory tree then
    (c.place final).walk (c.source tree).fileName?.toList
  else c.place final

/-- A file does not go to an empty text. -/
def Solid (c : Copied) (tree : FileTree) : Prop :=
  c.target ≠ "" ∨ c.several = true ∨ c.isDirectory tree = true

end Copied

/-! ## A stage as it is followed -/

/-- A state has what the lines so far mean. -/
structure Here.Met (h : Here) (s : State) : Prop where
  env : s.env = h.env
  dir : h.given = true → parse s.workDir.toList = h.dir
  empty : h.given = false → s.workDir = ""
  absolute : h.dir.absolute = true

/-- What is recorded of a copy. -/
structure Copied.Recorded (c : Copied) (p : Pending) : Prop where
  path : p.path = c.path
  isDir : p.targetIsDir = (State.namesDirectory c.target || c.several)
  remote : parse p.remote.toList =
    if c.given then (parse c.target.toList).against c.dir else parse c.target.toList
  absolute : c.dir.absolute = true

variable {inspector : Inspector} {buildDir : LocalPath}

namespace Here.Met

variable {h : Here} {s : State}

theorem expand (met : h.Met s) (w : Word) : s.expand w = h.expand w := by
  rw [State.expand, met.env, Here.expand]

/-- Settings one by one do what settings all at once do, if none is read on its line. -/
theorem foldl_setting (env : Environment) (settings : List (Word × Word)) :
    ∀ {s : State},
      settings.Pairwise (fun kv later =>
        String.ofList kv.1 ∉ Environment.names (String.ofList later.2)) →
      (∀ kv ∈ settings, s.expand kv.2 = env.expand (String.ofList kv.2)) →
      (settings.foldl State.setting s).env =
        settings.foldl
          (fun e kv => e.set (String.ofList kv.1) (env.expand (String.ofList kv.2))) s.env := by
  induction settings with
  | nil => exact fun _ _ => rfl
  | cons kv settings ih =>
      intro s clear reads
      obtain ⟨apart, clear⟩ := List.pairwise_cons.1 clear
      have first := reads kv List.mem_cons_self
      rw [List.foldl_cons, List.foldl_cons, ih clear fun later member => ?_,
        State.setting, first]
      refine Eq.trans (Environment.expand_congr fun name refers => ?_)
        (reads later (List.mem_cons_of_mem kv member))
      refine Environment.value?_set_ne _ _ _ _ ?_
      rintro rfl
      exact apart later member refers

/-- **An instruction that is clear does what it means.** -/
theorem after (met : h.Met s) {i : Instruction} (clear : h.Clear i) {f : State → State}
    (does : State.effect inspector buildDir i = .ok f) : (h.after i).Met (f s) := by
  cases i with
  | from_ image => exact clear.elim
  | env settings =>
      obtain rfl := Except.ok.inj does
      obtain ⟨dir, pending⟩ := State.foldl_setting settings s
      refine ⟨?_, fun given => ?_, fun lacking => ?_, met.absolute⟩
      · have reads : ∀ kv ∈ settings, s.expand kv.2 = h.env.expand (String.ofList kv.2) :=
          fun kv _ => met.expand kv.2
        rw [foldl_setting h.env settings clear reads, met.env, Here.after]
        simp only [Here.expand]
      · rw [dir]
        exact met.dir given
      · rw [dir]
        exact met.empty lacking
  | workdir dir =>
      obtain rfl := Except.ok.inj does
      refine ⟨?_, fun _ => ?_, fun lacking => ?_, ?_⟩
      · rw [State.enter_env, met.env, Here.after]
      · rw [State.parse_enter, met.expand, Here.after]
        cases given : h.given with
        | true => rw [met.dir given]
        | false =>
            have absolute : (parse (h.expand dir).toList).absolute = true := by
              rw [parse_absolute]
              exact clear.resolve_left (by simp [given])
            rw [against_of_absolute absolute, against_of_absolute absolute]
      · rw [Here.after] at lacking
        cases lacking
      · rw [Here.after]
        simp only [absolute_against, met.absolute, Bool.or_true]
  | copy sources target =>
      obtain rfl := Except.ok.inj does
      exact ⟨met.env, met.dir, met.empty, met.absolute⟩

theorem recorded (met : h.Met s) (i : Instruction) :
    List.Forall₂ Copied.Recorded (h.copied buildDir i) (s.recorded buildDir i) := by
  cases i with
  | from_ | env | workdir => exact .nil
  | copy sources target =>
      rw [Here.copied, State.recorded, List.forall₂_map_left_iff, List.forall₂_map_right_iff]
      refine List.forall₂_same.2 fun w _ => ⟨rfl, ?_, ?_, met.absolute⟩
      · simp only [met.expand]
      · simp only [met.expand, State.parse_targetOf]
        cases given : h.given with
        | true => rw [met.dir given, if_pos rfl]
        | false =>
            rw [met.empty given, if_neg Bool.false_ne_true]
            exact RemotePath.against_origin _

/-- **A stage that is clear does what it means**, and records what it copies. -/
theorem follow {stage : List Instruction} : ∀ {h : Here} {s : State}, h.Met s → h.AllClear stage →
    ∃ s' more, Recipe.follow inspector buildDir s stage = .ok s' ∧ (h.final stage).Met s' ∧
      s'.pending = s.pending ++ more ∧
      List.Forall₂ Copied.Recorded (h.copies buildDir stage) more := by
  induction stage with
  | nil => exact fun {h s} met _ => ⟨s, [], rfl, met, by simp, .nil⟩
  | cons i rest ih =>
      intro h s met clear
      obtain ⟨f, does⟩ : ∃ f, State.effect inspector buildDir i = .ok f := by
        cases i with
        | from_ image => exact clear.1.elim
        | env | workdir | copy => exact ⟨_, rfl⟩
      obtain ⟨s', more, went, met', pending, copies⟩ := ih (met.after clear.1 does) clear.2
      refine ⟨s', s.recorded buildDir i ++ more, ?_, met', ?_, List.rel_append (met.recorded i) copies⟩
      · rw [follow_cons, does]
        exact went
      · rw [pending, State.effect_pending does, List.append_assoc]

end Here.Met

/-! ## A stage as it is settled -/

/-- Only the empty text and names may be files. -/
theorem namesDirectory_eq {target : String} (solid : target ≠ "") :
    State.namesDirectory target =
      (Text.pieces '/' target.toList).getLast?.all fun last => !decide (Segment.IsName last) := by
  unfold State.namesDirectory
  cases found : (Text.pieces '/' target.toList).getLast? with
  | none => exact absurd (List.getLast?_eq_none_iff.1 found) (Text.pieces_ne_nil '/' _)
  | some last =>
      have whole : '/' ∉ last := Text.sep_notMem_of_mem_pieces (List.mem_of_getLast? found)
      have given : target.isEmpty = false := by simpa using solid
      by_cases empty : last = [] <;> by_cases still : last = ['.'] <;>
        by_cases back : last = ['.', '.'] <;>
          simp [Segment.IsName, given, whole, empty, still, back]

/-- A name behind a path is one more step, also behind no path at all. -/
theorem parse_join_name (base : String) {name : Segment} (named : Segment.IsName name) :
    parse (RemotePath.join base (String.ofList name)).toList = (parse base.toList).walk [name] := by
  have one_piece : Text.pieces '/' name = [name] := Text.pieces_of_notMem named.2.2.2
  by_cases empty : base = ""
  · subst empty
    have given : (String.ofList name).isEmpty = false := by simpa using named.1
    have relative : name.head? ≠ some '/' := fun head =>
      named.2.2.2 (List.mem_of_mem_head? (Option.mem_def.2 head))
    have alone : RemotePath.join "" (String.ofList name) = RemotePath.clean (String.ofList name) := by
      simp [RemotePath.join, given]
    rw [alone, RemotePath.parse_clean, String.toList_ofList, parse_relative relative, one_piece]
    rfl
  · rw [RemotePath.parse_join empty, String.toList_ofList, one_piece]

/-- What a pending source is settled to: a directory as it is, and a file with its name behind a
target that is a directory. -/
theorem Pending.settle_ok {p : Pending} {tree : FileTree} {dir : String} {source : Source}
    (found : p.settle tree dir = .ok source) :
    let path := (p.path.against tree.current).clean
    let remote := parse (if p.remote = "." then dir else p.remote).toList
    (tree.stat path = .ok .dir ∧ source.path = path.asDirectory ∧
        parse source.remote.toList = remote) ∨
      (tree.stat path ≠ .ok .dir ∧ source.path = path ∧
        parse source.remote.toList =
          if p.targetIsDir then remote.walk path.fileName?.toList else remote) := by
  intro path remote
  unfold Pending.settle at found
  dsimp only at found
  cases stat : tree.stat path with
  | error e => rw [stat] at found; cases found
  | ok entry =>
      rw [stat] at found
      cases entry with
      | dir =>
          obtain rfl := Except.ok.inj found
          exact .inl ⟨rfl, rfl, rfl⟩
      | file | link =>
          refine .inr ⟨by simp, ?_⟩
          dsimp only at found
          split at found
          · rename_i goes named
            obtain rfl := Except.ok.inj found
            have is_name := LocalPath.isName_of_fileName? named
            refine ⟨rfl, ?_⟩
            rw [goes, if_pos rfl, named]
            exact parse_join_name _ is_name
          · rename_i other
            obtain rfl := Except.ok.inj found
            refine ⟨rfl, ?_⟩
            by_cases goes : p.targetIsDir = true
            · cases named : path.fileName? with
              | none => rw [if_pos goes]; rfl
              | some name => exact (other name goes named).elim
            · rw [if_neg goes]

namespace Copied.Recorded

variable {c : Copied} {p : Pending} {h : Here} {s : State} {tree : FileTree} {source : Source}

/-- A recorded target leads where the copy means it to, with what was left open settled. -/
theorem against_dir (recorded : c.Recorded p) (met : h.Met s) :
    (parse (if p.remote = "." then s.workDir else p.remote).toList).against h.dir =
      c.place h.dir := by
  have led := recorded.remote
  unfold Copied.place
  cases given : c.given with
  | true =>
      rw [given, if_pos rfl] at led
      have absolute : ((parse c.target.toList).against c.dir).absolute = true := by
        rw [absolute_against, recorded.absolute, Bool.or_true]
      have moves : p.remote ≠ "." := by
        intro still
        rw [← led, still] at absolute
        cases absolute
      rw [if_neg moves, led, against_of_absolute absolute, if_pos rfl]
  | false =>
      rw [given, if_neg Bool.false_ne_true] at led
      rw [if_neg Bool.false_ne_true, ← led]
      split
      · rename_i still
        rw [still]
        cases final : h.given with
        | true => rw [met.dir final, against_of_absolute met.absolute]; rfl
        | false => rw [met.empty final]; rfl
      · rfl

theorem targetIsDir (recorded : c.Recorded p) (solid : c.target ≠ "" ∨ c.several = true) :
    p.targetIsDir = c.toDirectory := by
  rw [recorded.isDir, Copied.toDirectory, Bool.or_comm]
  rcases solid with given | several
  · rw [namesDirectory_eq given]
  · rw [several, Bool.true_or, Bool.true_or]

/-- **What is settled of a copy leads to its destination.** -/
theorem settled (recorded : c.Recorded p) (met : h.Met s)
    (found : p.settle tree s.workDir = .ok source) :
    source.path = (if c.isDirectory tree then (c.source tree).asDirectory else c.source tree) ∧
      (c.Solid tree → (parse source.remote.toList).against h.dir = c.destination tree h.dir) := by
  have led := recorded.against_dir met
  have path : (p.path.against tree.current).clean = c.source tree := by
    rw [recorded.path, Copied.source]
  have is_dir : c.isDirectory tree = true ↔ tree.stat (c.source tree) = .ok .dir := by
    unfold Copied.isDirectory
    split <;> simp_all
  have cases_of := Pending.settle_ok found
  rw [path] at cases_of
  rcases cases_of with ⟨dir, same, leads⟩ | ⟨no_dir, same, leads⟩
  · have from_dir := is_dir.2 dir
    refine ⟨by rw [same, from_dir, if_pos rfl], fun _ => ?_⟩
    rw [leads, led, Copied.destination, from_dir, Bool.not_true, Bool.and_false,
      if_neg Bool.false_ne_true]
  · have from_file : c.isDirectory tree = false := by
      rw [← Bool.not_eq_true, is_dir]
      exact no_dir
    refine ⟨by rw [same, from_file, if_neg Bool.false_ne_true], fun solid => ?_⟩
    have solid' : c.target ≠ "" ∨ c.several = true :=
      solid.imp_right fun h => h.resolve_right (by simp [from_file])
    rw [leads, Copied.destination, from_file, Bool.not_false, Bool.and_true,
      recorded.targetIsDir solid']
    split
    · have whole : ∀ name ∈ (c.source tree).fileName?.toList, '/' ∉ name := fun name member =>
        (LocalPath.isName_of_fileName? (Option.mem_toList.1 member)).2.2.2
      rw [walk_against (wellFormed_parse _) _ whole, led]
    · exact led

end Copied.Recorded

/-- What is settled of each pending source. -/
theorem forall₂_of_mapM {α β ε : Type} {f : α → Except ε β} {xs : List α} :
    ∀ {ys : List β}, xs.mapM f = .ok ys → List.Forall₂ (fun x y => f x = .ok y) xs ys := by
  induction xs with
  | nil =>
      intro ys went
      obtain rfl : [] = ys := Except.ok.inj went
      exact .nil
  | cons x xs ih =>
      intro ys went
      rw [List.mapM_cons] at went
      obtain ⟨y, first, later⟩ := exists_of_bind went
      obtain ⟨rest, others, same⟩ := exists_of_bind later
      obtain rfl : y :: rest = ys := Except.ok.inj same
      exact .cons first (ih others)

theorem forall₂_trans {α β γ : Type} {R : α → β → Prop} {S : β → γ → Prop} {T : α → γ → Prop}
    (trans : ∀ a b c, R a b → S b c → T a c) {xs : List α} {ys : List β} :
    List.Forall₂ R xs ys → ∀ {zs : List γ}, List.Forall₂ S ys zs → List.Forall₂ T xs zs
  | .nil, _, .nil => .nil
  | .cons r rs, _, .cons s ss => .cons (trans _ _ _ r s) (forall₂_trans trans rs ss)

/-! ## Destinations -/

/-- On an image, a stage begins as it is meant to. -/
theorem Here.met_onImage {image : Word} {entries : List String} {dir : String} {f : State → State}
    (env_found : inspector.env (String.ofList image) = .ok entries)
    (dir_found : inspector.workDir (String.ofList image) = .ok dir)
    (rooted : Text.trim dir.toList = [] ∨ (Text.trim dir.toList).head? = some '/')
    (does : State.effect inspector buildDir (.from_ image) = .ok f) :
    (Here.onImage entries dir).Met (f .start) := by
  have looked : inspector.look image =
      .ok (some (entries, String.ofList (Text.trim dir.toList))) := by
    simp [Inspector.look, env_found, dir_found, Except.map]
  rw [State.effect, looked] at does
  obtain rfl := Except.ok.inj does
  refine ⟨rfl, fun given => ?_, fun lacking => ?_, ?_⟩
  · have some_dir : Text.trim dir.toList ≠ [] := by simpa [Here.onImage] using given
    simp [State.based, Here.onImage, some_dir]
  · have no_dir : Text.trim dir.toList = [] := by simpa [Here.onImage] using lacking
    simp [State.based, no_dir]
  · unfold Here.onImage
    dsimp only
    split
    · rfl
    · rename_i some_dir
      rw [parse_absolute, rooted.resolve_left some_dir]
      rfl

/-- **Each source of a clear stage goes to its destination** in a process that stands where the
stage ends. -/
theorem resolveRemote_eq {σ : Type} (platform : Platform σ) (app pid : String) {w : World σ}
    {told : String} {image : Word} {entries : List String} {dir : String}
    {stage : List Instruction} (tree : FileTree)
    (env_found : inspector.env (String.ofList image) = .ok entries)
    (dir_found : inspector.workDir (String.ofList image) = .ok dir)
    (rooted : Text.trim dir.toList = [] ∨ (Text.trim dir.toList).head? = some '/')
    (clear : (Here.onImage entries dir).AllClear stage)
    (answer : (platform.answer (.processExec app pid Sync.workDirCommand) w.state).1 = .ok told)
    (stands : parse (Text.trim told.toList) = ((Here.onImage entries dir).final stage).dir) :
    ∃ s, follow inspector buildDir .start (.from_ image :: stage) = .ok s ∧
      ∀ sources, s.settle tree = .ok sources →
        List.Forall₂ (fun c source =>
          source.path =
              (if c.isDirectory tree then (c.source tree).asDirectory else c.source tree) ∧
            (c.Solid tree →
              (Sync.resolveRemote platform app pid source.remote w).1 =
                .ok (String.ofList
                  (c.destination tree ((Here.onImage entries dir).final stage).dir).render)))
          ((Here.onImage entries dir).copies buildDir stage) sources := by
  obtain ⟨f, does⟩ : ∃ f, State.effect inspector buildDir (.from_ image) = .ok f := by
    simp [State.effect, Inspector.look, env_found, dir_found, Except.map]
  have began := Here.met_onImage env_found dir_found rooted does
  obtain ⟨s, more, went, met, pending, copies⟩ := began.follow clear
  refine ⟨s, by rw [follow_cons, does]; exact went, fun sources settled => ?_⟩
  have none_before : (f .start).pending = [] := by
    rw [State.effect_pending does]
    rfl
  rw [State.settle, pending, none_before, List.nil_append] at settled
  have some_told : String.ofList (Text.trim told.toList) ≠ "" := by
    intro empty
    have absolute := met.absolute
    rw [← stands, ← String.toList_ofList (l := Text.trim told.toList), empty] at absolute
    cases absolute
  refine forall₂_trans (fun c p source recorded found => ?_) copies (forall₂_of_mapM settled)
  obtain ⟨path, leads⟩ := recorded.settled met found
  refine ⟨path, fun solid => ?_⟩
  rw [Sync.resolveRemote_ok platform app pid _ answer, RemotePath.against_eq some_told,
    String.toList_ofList, stands, leads solid]

/-- An image without a directory of its own. -/
def bareImages : Inspector := ⟨fun _ => .ok [], fun _ => .ok ""⟩

/-- Directories on a machine. -/
def twoDirectories : FileTree :=
  ⟨[(["app".toList, "src".toList], .dir), (["app".toList], .dir)], .ofString "/"⟩

/-- **What is copied before a directory is given goes to the last one**, and not to the root where
the line stands. -/
theorem open_target_follows :
    let stage := instructions "COPY . .\nWORKDIR /app\n"
    let app := LocalPath.ofString "/app"
    (∃ c, (Here.onImage [] "").copies app stage = [c] ∧
      ((parse c.target.toList).against c.dir).render = ['/']) ∧
      ∃ s, follow bareImages app .start (.from_ "bare".toList :: stage) = .ok s ∧
        s.settle twoDirectories = .ok [⟨.ofString "/app/", "/app"⟩] ∧
        ∀ (platform : Platform Unit) (w : World Unit),
          (Sync.resolveRemote platform "web" "p1" "/app" w).1 = .ok "/app" := by
  refine ⟨⟨_, rfl, rfl⟩, _, rfl, ?_, fun platform w => rfl⟩
  decide +kernel

/-- A platform whose processes stand in a directory, and which answers nothing else. -/
def standingIn (dir : String) : Platform Unit where
  answer c w :=
    match c with
    | .processExec .. => (.ok (dir ++ "\n"), w)
    | _ => (.error (.request "call" "not answered"), w)
  receive _ _ _ w := w

/-- A stage that sets a name and changes its directory between two copies. -/
theorem resolveRemote_eq_of_change :
    let image := "node".toList
    let stage := instructions "ENV LIB=lib OPT=/opt\nCOPY src $LIB\nWORKDIR web\nCOPY src $OPT/\n"
    let here := Here.onImage [] "/usr/src/app"
    let app := LocalPath.ofString "/app"
    let w : World Unit := .start ()
    plainImages.env (String.ofList image) = .ok [] ∧
      plainImages.workDir (String.ofList image) = .ok "/usr/src/app" ∧
      (Text.trim "/usr/src/app".toList).head? = some '/' ∧ here.AllClear stage ∧
      ((standingIn "/usr/src/app/web").answer (.processExec "web" "p1" Sync.workDirCommand)
        w.state).1 = .ok "/usr/src/app/web\n" ∧
      parse (Text.trim "/usr/src/app/web\n".toList) = (here.final stage).dir ∧
      ((follow plainImages app .start (.from_ image :: stage)).bind (·.settle twoDirectories)) =
        .ok [⟨.ofString "/app/src/", "/usr/src/app/lib"⟩, ⟨.ofString "/app/src/", "/opt"⟩] ∧
      ∃ s, follow plainImages app .start (.from_ image :: stage) = .ok s ∧
        ∀ sources, s.settle twoDirectories = .ok sources →
          List.Forall₂ (fun c source =>
            source.path =
                (if c.isDirectory twoDirectories then (c.source twoDirectories).asDirectory
                  else c.source twoDirectories) ∧
              (c.Solid twoDirectories →
                (Sync.resolveRemote (standingIn "/usr/src/app/web") "web" "p1" source.remote w).1 =
                  .ok (String.ofList
                    (c.destination twoDirectories (here.final stage).dir).render)))
            (here.copies app stage) sources := by
  intro image stage here app w
  have env_found : plainImages.env (String.ofList image) = .ok [] := rfl
  have dir_found : plainImages.workDir (String.ofList image) = .ok "/usr/src/app" := rfl
  have rooted : (Text.trim "/usr/src/app".toList).head? = some '/' := by decide
  have clear : here.AllClear stage := by decide +kernel
  have answer : ((standingIn "/usr/src/app/web").answer
      (.processExec "web" "p1" Sync.workDirCommand) w.state).1 = .ok "/usr/src/app/web\n" := rfl
  have stands : parse (Text.trim "/usr/src/app/web\n".toList) = (here.final stage).dir := by
    decide +kernel
  refine ⟨env_found, dir_found, rooted, clear, answer, stands, ?_, ?_⟩
  · decide +kernel
  · exact resolveRemote_eq (standingIn "/usr/src/app/web") "web" "p1" twoDirectories env_found
      dir_found (.inr rooted) clear answer stands

end Recipe

end DevMode
