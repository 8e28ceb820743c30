/-
# DevMode.Proofs.Gaps -- texts with gaps, and how far apart they lead

A `Form` is a text with gaps, to be filled all alike.  Filled with long paths that begin with
different names, a form leads to places that are far apart: no later step up can bring them
together, unless there are as many as the paths are long (`Form.drift_against`).

`Location.Under` says that a place lies deep below some names, and `Under.walk` how much of the
depth a way takes away.  Two places are `Apart` if they lie deep below different names, and two
families of places `Drift` if they are the further apart the further on.
-/
import DevMode.Proofs.Instructions
import DevMode.Proofs.References

namespace DevMode

set_option autoImplicit false

/-! ## Places far apart -/

namespace Location

/-- The step up. -/
def back : Segment := ['.', '.']

/-- A place lies below some names by at least so many steps. -/
def Under (front : List Segment) (depth : Nat) (l : Location) : Prop :=
  ∃ below, l.names = front ++ below ∧ depth ≤ below.length

variable {front : List Segment} {depth : Nat} {l m : Location}

theorem Under.mono {less : Nat} (under : Under front depth l) (le : less ≤ depth) :
    Under front less l := by
  obtain ⟨below, names, deep⟩ := under
  exact ⟨below, names, Nat.le_trans le deep⟩

/-- A step takes at most one step of the depth away, if it leads up. -/
theorem Under.step {s : Segment} (under : Under front (depth + if s = back then 1 else 0) l) :
    Under front depth (l.step s) := by
  obtain ⟨below, names, deep⟩ := under
  by_cases idle : s = [] ∨ s = ['.']
  · rw [step_idle l idle]
    exact ⟨below, names, by omega⟩
  by_cases up : s = back
  · simp only [up, if_true] at deep
    have some_below : below ≠ [] := by
      rintro rfl
      simp at deep
    have some_down : l.names ≠ [] := by simp [names, some_below]
    refine ⟨below.dropLast, ?_, by simp; omega⟩
    rw [up, back, step_up l some_down, names, List.dropLast_append_of_ne_nil some_below]
  · have further : (l.step s).names = l.names ++ [s] := by
      rw [Location.step, if_neg idle, if_neg (show ¬ s = ['.', '.'] from up)]
    refine ⟨below ++ [s], by rw [further, names, List.append_assoc], ?_⟩
    rw [List.length_append]
    omega

/-- **A way takes no more of the depth away than it has steps up.** -/
theorem Under.walk {ss : List Segment} (under : Under front (depth + ss.count back) l) :
    Under front depth (l.walk ss) := by
  induction ss generalizing l with
  | nil => exact under
  | cons s ss ih =>
      refine ih (Under.step (under.mono ?_))
      rw [List.count_cons]
      simp only [beq_iff_eq]
      omega

/-- Two places lie deep below different names. -/
def Apart (depth : Nat) (l m : Location) : Prop :=
  ∃ front front', front.length = front'.length ∧ front ≠ front' ∧
    Under front depth l ∧ Under front' depth m

theorem Apart.ne (apart : Apart depth l m) : l ≠ m := by
  rintro rfl
  obtain ⟨front, front', length, other, ⟨below, names, -⟩, ⟨below', names', -⟩⟩ := apart
  exact other (List.append_inj (names.symm.trans names') length).1

theorem Apart.walk {ss ss' : List Segment} {most : Nat} (apart : Apart (depth + most) l m)
    (few : ss.count back ≤ most) (few' : ss'.count back ≤ most) :
    Apart depth (l.walk ss) (m.walk ss') := by
  obtain ⟨front, front', length, other, under, under'⟩ := apart
  exact ⟨front, front', length, other, (under.mono (by omega)).walk, (under'.mono (by omega)).walk⟩

/-- Two families of places are the further apart the further on. -/
def Drift (one other : Nat → Location) : Prop :=
  ∃ least, ∀ n ≥ least, Apart (n - least) (one n) (other n)

end Location

/-! ## Steps up in a text -/

namespace Text

/-- What a character makes of the first piece. -/
theorem pieces_cons {c : Char} (other : c ≠ '/') (cs : List Char) :
    ∃ p ps, pieces '/' cs = p :: ps ∧ pieces '/' (c :: cs) = (c :: p) :: ps := by
  obtain ⟨p, ps, found⟩ := List.exists_cons_of_ne_nil (pieces_ne_nil '/' cs)
  exact ⟨p, ps, found, by rw [pieces, if_neg other, found]⟩

/-- Each step up takes a dot. -/
theorem count_back_pieces (cs : List Char) :
    (pieces '/' cs).count Location.back ≤ cs.count '.' := by
  induction cs with
  | nil => decide
  | cons c cs ih =>
      by_cases slash : c = '/'
      · subst slash
        rw [pieces, if_pos rfl, List.count_cons_of_ne (by decide), List.count_cons_of_ne (by decide)]
        exact ih
      · obtain ⟨p, ps, found, found'⟩ := pieces_cons slash cs
        rw [found, List.count_cons] at ih
        rw [found', List.count_cons, List.count_cons]
        by_cases up : c :: p = Location.back
        · obtain rfl : c = '.' := (List.cons.inj up).1
          simp only [up, beq_self_eq_true, if_true]
          omega
        · simp only [beq_iff_eq, up, if_false]
          omega

/-- A character behind a text is a character behind its last piece. -/
theorem pieces_concat (cs : List Char) : ∃ ps p, '/' ∉ p ∧
    ∀ c, c ≠ '/' → pieces '/' (cs ++ [c]) = ps ++ [p ++ [c]] := by
  induction cs with
  | nil => exact ⟨[], [], by simp, fun c other => by simp [pieces, other]⟩
  | cons d cs ih =>
      obtain ⟨ps, p, whole, behind⟩ := ih
      by_cases slash : d = '/'
      · refine ⟨[] :: ps, p, whole, fun c other => ?_⟩
        rw [List.cons_append, pieces, if_pos slash, behind c other]
        rfl
      · cases ps with
        | nil =>
            refine ⟨[], d :: p, by simp [Ne.symm slash, whole], fun c other => ?_⟩
            rw [List.cons_append, pieces, if_neg slash, behind c other]
            rfl
        | cons q ps =>
            refine ⟨(d :: q) :: ps, p, whole, fun c other => ?_⟩
            rw [List.cons_append, pieces, if_neg slash, behind c other]
            rfl

end Text

/-- **Families that drift apart still do behind texts with few dots.** -/
theorem Location.Drift.walk {one other : Nat → Location} (drift : Drift one other)
    (text text' : Nat → List Char) {most : Nat} (few : ∀ n, (text n).count '.' ≤ most)
    (few' : ∀ n, (text' n).count '.' ≤ most) :
    Drift (fun n => (one n).walk (Text.pieces '/' (text n)))
      (fun n => (other n).walk (Text.pieces '/' (text' n))) := by
  obtain ⟨least, apart⟩ := drift
  refine ⟨least + most, fun n long => ?_⟩
  have far := apart n (by omega)
  rw [show n - least = n - (least + most) + most by omega] at far
  exact far.walk (Nat.le_trans (Text.count_back_pieces _) (few n))
    (Nat.le_trans (Text.count_back_pieces _) (few' n))

/-! ## Forms -/

/-- A text with gaps. -/
abbrev Form := List (Option Char)

namespace Form

/-- The text with something in each gap. -/
def fill (gap : List Char) (f : Form) : List Char := f.flatMap fun c? => c?.elim gap ([·])

@[simp] theorem fill_nil (gap : List Char) : fill gap [] = [] := rfl

@[simp] theorem fill_some (gap : List Char) (c : Char) (f : Form) :
    fill gap (some c :: f) = c :: fill gap f := rfl

@[simp] theorem fill_none (gap : List Char) (f : Form) :
    fill gap (none :: f) = gap ++ fill gap f := rfl

@[simp] theorem fill_append (gap : List Char) (f g : Form) :
    fill gap (f ++ g) = fill gap f ++ fill gap g := List.flatMap_append

@[simp] theorem fill_map_some (gap text : List Char) : fill gap (text.map some) = text := by
  induction text with
  | nil => rfl
  | cons c cs ih => exact congrArg (c :: ·) ih

/-- A text without gaps. -/
theorem exists_of_notMem {f : Form} (solid : none ∉ f) : ∃ text : List Char, f = text.map some := by
  induction f with
  | nil => exact ⟨[], rfl⟩
  | cons c? f ih =>
      obtain ⟨text, rfl⟩ := ih fun member => solid (List.mem_cons_of_mem c? member)
      cases c? with
      | none => exact absurd List.mem_cons_self solid
      | some c => exact ⟨c :: text, rfl⟩

/-- Where a form has a gap, it has a first one. -/
theorem exists_first_gap {f : Form} (gap : none ∈ f) :
    ∃ (text : List Char) (rest : Form), f = text.map some ++ none :: rest := by
  obtain ⟨front, rest, rfl, solid⟩ := List.eq_append_cons_of_mem gap
  obtain ⟨text, rfl⟩ := exists_of_notMem solid
  exact ⟨text, rest, rfl⟩

theorem count_fill {gap : List Char} {c : Char} (other : c ∉ gap) (f : Form) :
    (fill gap f).count c = f.count (some c) := by
  induction f with
  | nil => rfl
  | cons c? f ih =>
      cases c? with
      | none => simp [ih, List.count_eq_zero_of_not_mem other]
      | some d => simp [ih, List.count_cons]

/-- A path that begins with a name of one character and goes further down from there. -/
def stem (c : Char) (length : Nat) : List Char := c :: (List.replicate length ['/', 'd']).flatten

theorem stem_succ (c : Char) (length : Nat) : stem c (length + 1) = c :: '/' :: stem 'd' length := by
  simp [stem, List.replicate_succ]

theorem notMem_stem {x c : Char} (other : x ≠ c) (no_slash : x ≠ '/') (no_name : x ≠ 'd')
    (length : Nat) : x ∉ stem c length := by
  have each : ∀ l ∈ List.replicate length ['/', 'd'], x ∉ l := by
    intro l member
    rw [List.eq_of_mem_replicate member]
    simp [no_slash, no_name]
  simp only [stem, List.mem_cons, List.mem_flatten, not_or, not_exists, not_and]
  exact ⟨other, fun l member => each l member⟩

/-- A stem leads down by its length, before what is behind it leads up. -/
theorem under_stem {front : List Segment} (length : Nat) (rest : List Char) :
    ∀ {l : Location} {depth : Nat}, Location.Under front depth l →
      ∀ less, less + rest.count '.' ≤ depth + length →
        Location.Under front less (l.walk (Text.pieces '/' (stem 'd' length ++ rest))) := by
  induction length with
  | zero =>
      intro l depth under less few
      refine Location.Under.walk (under.mono (Nat.le_trans ?_ few))
      have dots := Text.count_back_pieces (stem 'd' 0 ++ rest)
      have same : (stem 'd' 0 ++ rest).count '.' = rest.count '.' := by
        rw [List.count_append, List.count_eq_zero_of_not_mem (notMem_stem (by decide) (by decide)
          (by decide) 0), Nat.zero_add]
      omega
  | succ length ih =>
      intro l depth under less few
      have cut : stem 'd' (length + 1) ++ rest = ['d'] ++ '/' :: (stem 'd' length ++ rest) := by
        rw [stem_succ]
        rfl
      rw [cut, Text.pieces_append_sep, Location.walk_append]
      have further : Location.Under front (depth + 1) (l.walk (Text.pieces '/' ['d'])) := by
        obtain ⟨below, names, deep⟩ := under
        refine ⟨below ++ [['d']], ?_, by simp; omega⟩
        have named : l.walk (Text.pieces '/' ['d']) = { l with names := l.names ++ [['d']] } :=
          Location.walk_names l (by decide)
        rw [named, names, List.append_assoc]
      exact ih further less (by omega)

/-- Up to its first gap a form leads alike, and then down from names that differ. -/
theorem drift {f : Form} (gap : none ∈ f) (dir : Nat → Location) :
    Location.Drift (fun n => (dir n).walk (Text.pieces '/' (fill (stem 'a' n) f)))
      (fun n => (dir n).walk (Text.pieces '/' (fill (stem 'b' n) f))) := by
  obtain ⟨text, rest, rfl⟩ := exists_first_gap gap
  obtain ⟨ps, p, whole, behind⟩ := Text.pieces_concat text
  refine ⟨rest.count (some '.') + 1, fun n long => ?_⟩
  obtain ⟨n, rfl⟩ : ∃ m, n = m + 1 := ⟨n - 1, by omega⟩
  dsimp only
  generalize dir (n + 1) = l
  have leads : ∀ c, c ≠ '/' → c ≠ '.' →
      Location.Under ((l.walk ps).names ++ [p ++ [c]]) (n + 1 - (rest.count (some '.') + 1))
        (l.walk (Text.pieces '/' (fill (stem c (n + 1)) (text.map some ++ none :: rest)))) := by
    intro c no_slash no_dot
    have named : Segment.IsName (p ++ [c]) := by
      refine ⟨by simp, ?_, ?_, by simp [whole, Ne.symm no_slash]⟩
      · intro same
        have last := congrArg List.getLast? same
        simp [no_dot] at last
      · intro same
        have last := congrArg List.getLast? same
        simp [no_dot] at last
    have cut : fill (stem c (n + 1)) (text.map some ++ none :: rest) =
        (text ++ [c]) ++ '/' :: (stem 'd' n ++ fill (stem c (n + 1)) rest) := by
      simp [stem_succ]
    have here : Location.Under ((l.walk ps).names ++ [p ++ [c]]) 0
        ((l.walk ps).walk [p ++ [c]]) := by
      refine ⟨[], ?_, Nat.le_refl 0⟩
      rw [Location.walk_names _ (by simpa using named), List.append_nil]
    rw [cut, Text.pieces_append_sep, behind c no_slash, Location.walk_append, Location.walk_append]
    refine under_stem n _ here _ ?_
    rw [count_fill (notMem_stem (Ne.symm no_dot) (by decide) (by decide) _)]
    omega
  exact ⟨(l.walk ps).names ++ [p ++ ['a']], (l.walk ps).names ++ [p ++ ['b']], by simp, by simp,
    leads 'a' (by decide) (by decide), leads 'b' (by decide) (by decide)⟩

/-- **A form with a gap leads far apart**, from directories that are the same or far apart
themselves. -/
theorem drift_against {f : Form} (gap : none ∈ f) {dir dir' : Nat → Location}
    (far : dir = dir' ∨ Location.Drift dir dir') :
    Location.Drift (fun n => (Location.parse (fill (stem 'a' n) f)).against (dir n))
      (fun n => (Location.parse (fill (stem 'b' n) f)).against (dir' n)) := by
  obtain ⟨text, rest, shape⟩ := exists_first_gap gap
  by_cases absolute : text.head? = some '/'
  · have rooted (c : Char) (n : Nat) : (fill (stem c n) f).head? = some '/' := by
      rw [shape, fill_append, fill_map_some, List.head?_append, absolute]
      rfl
    obtain ⟨least, apart⟩ := drift gap fun _ => Location.origin true
    refine ⟨least, fun n long => ?_⟩
    dsimp only
    rw [RemotePath.against_absolute (rooted 'a' n), RemotePath.against_absolute (rooted 'b' n),
      Location.parse, Location.parse, rooted, rooted]
    exact apart n long
  · have relative (c : Char) (no_slash : c ≠ '/') (n : Nat) :
        (fill (stem c n) f).head? ≠ some '/' := by
      rw [shape, fill_append, fill_map_some]
      cases text with
      | nil => simpa [stem] using no_slash
      | cons d text => simpa using absolute
    have walked : Location.Drift (fun n => (dir n).walk (Text.pieces '/' (fill (stem 'a' n) f)))
        (fun n => (dir' n).walk (Text.pieces '/' (fill (stem 'b' n) f))) := by
      rcases far with rfl | far
      · exact drift gap dir
      · have dots (c : Char) (no_dot : c ≠ '.') (n : Nat) :
            (fill (stem c n) f).count '.' ≤ f.count (some '.') :=
          Nat.le_of_eq (count_fill (notMem_stem (Ne.symm no_dot) (by decide) (by decide) n) f)
        exact far.walk _ _ (dots 'a' (by decide)) (dots 'b' (by decide))
    obtain ⟨least, apart⟩ := walked
    refine ⟨least, fun n long => ?_⟩
    dsimp only
    rw [RemotePath.against_relative (relative 'a' (by decide) n),
      RemotePath.against_relative (relative 'b' (by decide) n)]
    exact apart n long

end Form

/-! ## Environments with gaps -/

/-- Values with gaps, by name. -/
abbrev Forms := List (String × Form)

namespace Forms

/-- The environment with something in each gap. -/
def fill (gap : List Char) (fs : Forms) : Environment :=
  fs.map fun (name, f) => (name, String.ofList (f.fill gap))

theorem value?_fill (gap : List Char) (fs : Forms) (name : String) :
    (fs.fill gap).value? name = (fs.lookup name).map fun f => String.ofList (f.fill gap) := by
  induction fs with
  | nil => rfl
  | cons entry fs ih =>
      obtain ⟨name', f⟩ := entry
      simp only [fill, Environment.value?, List.map_cons, List.lookup_cons] at ih ⊢
      cases name == name' with
      | true => rfl
      | false => exact ih

/-- What a text comes to, gaps and all. -/
def expand (fs : Forms) (s : String) : Form :=
  (Environment.tokens s).flatMap fun
    | .plain c => [some c]
    | .reference name written => (fs.lookup name).getD (written.map some)

theorem fill_expand (gap : List Char) (fs : Forms) (s : String) :
    (fs.fill gap).expand s = String.ofList ((fs.expand s).fill gap) := by
  rw [Environment.expand_eq, expand]
  congr 1
  induction Environment.tokens s with
  | nil => rfl
  | cons t ts ih =>
      rw [Environment.spell_cons, List.flatMap_cons, Form.fill_append, ih]
      congr 1
      cases t with
      | plain c => rfl
      | reference name written =>
          simp only [Environment.Token.text, value?_fill]
          cases fs.lookup name <;> simp

@[simp] theorem lookup_cons_same (name : String) (f : Form) (fs : Forms) :
    List.lookup name ((name, f) :: fs) = some f := List.lookup_cons_self

theorem lookup_cons_other {name other : String} (ne : name ≠ other) (f : Form) (fs : Forms) :
    List.lookup name ((other, f) :: fs) = fs.lookup name := by
  rw [List.lookup_cons, beq_eq_false_iff_ne.2 ne]

/-- A text that refers to a name with a gap has a gap. -/
theorem gap_expand {fs : Forms} {s name : String} (refers : name ∈ Environment.names s) {f : Form}
    (found : fs.lookup name = some f) (gap : none ∈ f) : none ∈ fs.expand s := by
  obtain ⟨t, member, named⟩ := List.mem_filterMap.1 refers
  refine List.mem_flatMap.2 ⟨t, member, ?_⟩
  cases t with
  | plain c => cases named
  | reference name' written =>
      obtain rfl := Option.some.inj named
      simpa [found] using gap

end Forms

end DevMode
