/-
# DevMode.Proofs.World -- steps from world to world

A step of a run is a function of the world, and an attempt is one that tells how it ended.
The laws here unfold one construct of such steps at a time, so that no proof about a run
has to open the monads it is written in.  `Attempt.bind_ok` and `Attempt.bind_error` are the
two ways in which one attempt goes on from another.
-/
import DevMode.World.Scene

namespace DevMode

set_option autoImplicit false

/-! ## Outcomes -/

section Outcome

variable {ε δ α β : Type}

@[simp] theorem mapError_ok (f : ε → δ) (a : α) :
    (.ok a : Except ε α).mapError f = .ok a := rfl

@[simp] theorem mapError_error (f : ε → δ) (e : ε) :
    (.error e : Except ε α).mapError f = .error (f e) := rfl

theorem exists_of_mapError {f : ε → δ} {r : Except ε α} {e : δ}
    (failed : r.mapError f = .error e) : ∃ e', e = f e' := by
  cases r with
  | ok a => cases failed
  | error e' => exact ⟨e', (Except.error.inj failed).symm⟩

theorem exists_of_toOption {r : Except ε α} {f : α → β} {b : β}
    (found : r.toOption.map f = some b) : ∃ a, r = .ok a ∧ f a = b := by
  cases r with
  | ok a => exact ⟨a, rfl, Option.some.inj found⟩
  | error e => cases found

theorem eq_ok_of_toOption {r : Except ε α} {a : α} (found : r.toOption = some a) : r = .ok a := by
  cases r with
  | ok a' => exact congrArg Except.ok (Option.some.inj found)
  | error e => cases found

theorem exists_error_of_toOption {r : Except ε α} (missing : r.toOption.isNone = true) :
    ∃ e, r = .error e := by
  cases r with
  | ok a => cases missing
  | error e => exact ⟨e, rfl⟩

theorem exists_of_isSome {r : Except ε α} (found : r.toOption.isSome = true) : ∃ a, r = .ok a := by
  obtain ⟨a, found⟩ := Option.isSome_iff_exists.1 found
  exact ⟨a, eq_ok_of_toOption found⟩

/-- What goes on from an outcome ends well only if that did. -/
theorem exists_of_bind {x : Except ε α} {f : α → Except ε β} {b : β} (went : x >>= f = .ok b) :
    ∃ a, x = .ok a ∧ f a = .ok b := by
  cases x with
  | ok a => exact ⟨a, rfl, went⟩
  | error e => cases went

/-- What a list of outcomes holds came of one of the list. -/
theorem exists_of_mem_mapM {f : α → Except ε β} {xs : List α} {ys : List β}
    (went : xs.mapM f = .ok ys) {y : β} (member : y ∈ ys) : ∃ x ∈ xs, f x = .ok y := by
  induction xs generalizing ys with
  | nil =>
      obtain rfl : [] = ys := Except.ok.inj went
      simp at member
  | cons x xs ih =>
      rw [List.mapM_cons] at went
      obtain ⟨z, first, later⟩ := exists_of_bind went
      obtain ⟨zs, rest, same⟩ := exists_of_bind later
      obtain rfl : z :: zs = ys := Except.ok.inj same
      rcases List.mem_cons.1 member with rfl | member
      · exact ⟨x, by simp, first⟩
      · obtain ⟨x', inside, came⟩ := ih rest member
        exact ⟨x', List.mem_cons_of_mem x inside, came⟩

end Outcome

/-! ## Steps -/

namespace World

variable {σ : Type}

/-- The world after a call that was answered. -/
def answered (w : World σ) (p : Platform σ) (c : Call) : World σ :=
  { w.record (.called c (Act.failure? (p.answer c w.state).1)) with state := (p.answer c w.state).2 }

@[simp] theorem answered_now (w : World σ) (p : Platform σ) (c : Call) :
    (w.answered p c).now = w.now := rfl

@[simp] theorem answered_state (w : World σ) (p : Platform σ) (c : Call) :
    (w.answered p c).state = (p.answer c w.state).2 := rfl

/-- The world once the answer to a call is there. -/
def awaited (w : World σ) (p : Platform σ) (c : Call) : World σ :=
  { w.answered p c with now := w.now + p.takes c w.state }

@[simp] theorem awaited_now (w : World σ) (p : Platform σ) (c : Call) :
    (w.awaited p c).now = w.now + p.takes c w.state := rfl

@[simp] theorem awaited_state (w : World σ) (p : Platform σ) (c : Call) :
    (w.awaited p c).state = (p.answer c w.state).2 := rfl

theorem past_awaited (w : World σ) (p : Platform σ) (c : Call) :
    (w.awaited p c).past = (w.answered p c).past := rfl

theorem lines_shown (w : World σ) (l : Line) : (w.record (.shown l)).lines = w.lines ++ [l] := by
  simp [lines, occurrences, record, List.filterMap_append]

@[simp] theorem lines_answered (w : World σ) (p : Platform σ) (c : Call) :
    (w.answered p c).lines = w.lines := by
  simp [lines, occurrences, answered, record, List.filterMap_append]

@[simp] theorem lines_awaited (w : World σ) (p : Platform σ) (c : Call) :
    (w.awaited p c).lines = w.lines :=
  lines_answered w p c

end World

namespace Act

variable {σ α β : Type}

@[simp] theorem pure_apply (a : α) (w : World σ) : (pure a : Act σ α) w = (a, w) := rfl

@[simp] theorem bind_apply (x : Act σ α) (f : α → Act σ β) (w : World σ) :
    (x >>= f) w = f (x w).1 (x w).2 := rfl

@[simp] theorem map_apply (f : α → β) (x : Act σ α) (w : World σ) :
    (f <$> x) w = (f (x w).1, (x w).2) := rfl

@[simp] theorem get_apply (w : World σ) : (get : Act σ (World σ)) w = (w, w) := rfl

@[simp] theorem modify_apply (f : World σ → World σ) (w : World σ) :
    (modify f : Act σ Unit) w = ((), f w) := rfl

@[simp] theorem call_apply (p : Platform σ) (c : Call) (w : World σ) :
    call p c w = ((p.answer c w.state).1, w.answered p c) := rfl

@[simp] theorem await_apply (p : Platform σ) (c : Call) (w : World σ) :
    await p c w = ((p.answer c w.state).1, w.awaited p c) := rfl

theorem lines_displayAll (ls : List Line) (w : World σ) :
    (displayAll ls w).2.lines = w.lines ++ ls := by
  induction ls generalizing w with
  | nil => exact (List.append_nil _).symm
  | cons l ls ih =>
      refine (ih (w.record (.shown l))).trans ?_
      rw [World.lines_shown, List.append_assoc, List.singleton_append]

theorem displayAll_append (ls ls' : List Line) (w : World σ) :
    (displayAll (ls ++ ls') w).2 = (displayAll ls' (displayAll ls w).2).2 := by
  induction ls generalizing w with
  | nil => rfl
  | cons l ls ih => exact ih _

/-- What the steps for a list come to, each came to. -/
theorem exists_of_mem_mapM {f : α → Act σ β} {l : List α} {w : World σ} {b : β}
    (member : b ∈ (l.mapM f w).1) : ∃ a ∈ l, ∃ w', b = (f a w').1 := by
  induction l generalizing w with
  | nil =>
      rw [List.mapM_nil] at member
      exact absurd member List.not_mem_nil
  | cons a l ih =>
      rw [List.mapM_cons] at member
      rcases List.mem_cons.1 member with rfl | member
      · exact ⟨a, List.mem_cons_self, w, rfl⟩
      · obtain ⟨a', inside, came⟩ := ih member
        exact ⟨a', List.mem_cons_of_mem a inside, came⟩

/-- An answer that is waited for is the answer to a call that is made at the beginning. -/
theorem awaitBeside_apply (p : Platform σ) (beside : β → Act σ β) (c : Call) (b : β) (w : World σ) :
    awaitBeside p beside c b w =
      let rest := passFor beside (p.takes c w.state) b (w.answered p c)
      (((p.answer c w.state).1, rest.1), rest.2) := rfl

section Poll

variable {i : Interruption} {p : Platform σ} {beside : β → Act σ β} {c : Call}
  {verdict? : c.Answer → Option α}

/-- One round of a wait. -/
theorem poll_apply (ticker : Ticker) (b : β) (w : World σ) :
    poll i p beside c verdict? ticker b w =
      let due := max w.now ticker.deadline
      if i.time ≤ due then
        let rest := passUntil beside i.time b w
        ((none, rest.1), rest.2)
      else
        let waited := passUntil beside due b w
        let asked := awaitBeside p beside c waited.1 waited.2
        match verdict? asked.1.1 with
        | some a => ((some a, asked.1.2), asked.2)
        | none => poll i p beside c verdict? (ticker.tick due) asked.1.2 asked.2 := by
  rw [poll]
  change (dite (i.time ≤ max w.now ticker.deadline) _ _ : Act σ (Option α × β)) w = _
  by_cases fired : i.time ≤ max w.now ticker.deadline
  · simp only [fired, dite_true, if_true]
    rfl
  · simp only [fired, dite_false, if_false, bind_apply]
    cases verdict? (awaitBeside p beside c _ _).1.1 <;> rfl

/-- What a wait has come to is what an answer came to, the last that was waited for. -/
theorem poll_some (ticker : Ticker) (b : β) {w : World σ} {a : α}
    (came : (poll i p beside c verdict? ticker b w).1.1 = some a) :
    ∃ b' w', verdict? (p.answer c w'.state).1 = some a ∧
      (poll i p beside c verdict? ticker b w).2 = (awaitBeside p beside c b' w').2 := by
  induction ticker, b using poll.induct (σ := σ) i generalizing w with
  | case1 ticker b ih =>
      rw [poll_apply] at came ⊢
      dsimp only at came ⊢
      split at came
      · simp at came
      · rename_i going
        rw [if_neg going]
        split at came
        · rename_i found meant
          obtain rfl : found = a := by simpa using came
          exact ⟨_, _, meant, rfl⟩
        · exact ih w going _ came

end Poll

end Act

namespace Attempt

variable {σ ε δ α β : Type}

@[simp] theorem pure_apply (a : α) (w : World σ) :
    (pure a : Attempt σ ε α) w = (.ok a, w) := rfl

@[simp] theorem throw_apply (e : ε) (w : World σ) :
    (throw e : Attempt σ ε α) w = (.error e, w) := rfl

@[simp] theorem lift_apply (x : Act σ α) (w : World σ) :
    (liftM x : Attempt σ ε α) w = (.ok (x w).1, (x w).2) := rfl

@[simp] theorem act_apply (x : Act σ α) (w : World σ) :
    (act x : Attempt σ ε α) w = (.ok (x w).1, (x w).2) := rfl

@[simp] theorem ofExcept_apply (r : Except ε α) (w : World σ) :
    (ofExcept r : Attempt σ ε α) w = (r, w) := rfl

theorem apply_eq {x : Attempt σ ε α} {w : World σ} {r : Except ε α} (came : (x w).1 = r) :
    x w = (r, (x w).2) :=
  Prod.ext came rfl

theorem bind_apply (x : Attempt σ ε α) (f : α → Attempt σ ε β) (w : World σ) :
    (x >>= f) w =
      match (x w).1 with
      | .ok a => f a (x w).2
      | .error e => (.error e, (x w).2) := by
  change ExceptT.bindCont f (x w).1 (x w).2 = _
  cases (x w).1 <;> rfl

theorem bind_ok {x : Attempt σ ε α} {f : α → Attempt σ ε β} {w : World σ} {a : α}
    (went : (x w).1 = .ok a) : (x >>= f) w = f a (x w).2 := by
  rw [bind_apply, went]

theorem bind_error {x : Attempt σ ε α} {f : α → Attempt σ ε β} {w : World σ} {e : ε}
    (failed : (x w).1 = .error e) : (x >>= f) w = (.error e, (x w).2) := by
  rw [bind_apply, failed]

theorem bind_lift (x : Act σ α) (f : α → Attempt σ ε β) (w : World σ) :
    ((liftM x : Attempt σ ε α) >>= f) w = f (x w).1 (x w).2 :=
  bind_ok (by rw [lift_apply])

/-- What goes on from an attempt goes on from its outcome. -/
theorem bind_of_apply {x : Attempt σ ε α} {w w' : World σ} {r : Except ε α} (went : x w = (r, w'))
    (f : α → Attempt σ ε β) : (x >>= f) w = (ofExcept r >>= f) w' := by
  rw [bind_apply, bind_apply, went]
  rfl

/-- **One attempt goes on from another, or ends with it.** -/
theorem bind_cases (x : Attempt σ ε α) (f : α → Attempt σ ε β) (w : World σ) :
    (∃ e w', x w = (.error e, w') ∧ (x >>= f) w = (.error e, w')) ∨
      ∃ a w', x w = (.ok a, w') ∧ (x >>= f) w = f a w' := by
  cases went : x w with
  | mk r w' =>
      cases r with
      | error e =>
          refine .inl ⟨e, w', rfl, ?_⟩
          rw [bind_error (x := x) (e := e) (by rw [went]), went]
      | ok a =>
          refine .inr ⟨a, w', rfl, ?_⟩
          rw [bind_ok (x := x) (a := a) (by rw [went]), went]

theorem pure_ne_failed {a : α} {w w' : World σ} {e : ε} :
    (pure a : Attempt σ ε α) w ≠ (.error e, w') :=
  fun same => nomatch congrArg Prod.fst same

/-- **Where a failure comes from.** -/
theorem bind_failed_iff {x : Attempt σ ε α} {f : α → Attempt σ ε β} {w w' : World σ} {e : ε} :
    (x >>= f) w = (.error e, w') ↔
      x w = (.error e, w') ∨ ∃ a w₁, x w = (.ok a, w₁) ∧ f a w₁ = (.error e, w') := by
  constructor
  · intro failed
    rcases bind_cases x f w with ⟨e', w₁, went, out⟩ | ⟨a, w₁, went, out⟩
    · obtain ⟨same, rfl⟩ := Prod.mk.inj (out.symm.trans failed)
      obtain rfl := Except.error.inj same
      exact .inl went
    · exact .inr ⟨a, w₁, went, out.symm.trans failed⟩
  · rintro (failed | ⟨a, w₁, went, failed⟩)
    · exact bind_of_apply failed f
    · exact (bind_of_apply went f).trans failed

theorem bind_failed {x : Attempt σ ε α} {f : α → Attempt σ ε β} {w w' : World σ} {e : ε}
    (failed : (x >>= f) w = (.error e, w')) :
    x w = (.error e, w') ∨ ∃ a w₁, x w = (.ok a, w₁) ∧ f a w₁ = (.error e, w') :=
  bind_failed_iff.1 failed

/-- What went well went well in both parts. -/
theorem bind_went {x : Attempt σ ε α} {f : α → Attempt σ ε β} {w w' : World σ} {b : β}
    (went : (x >>= f) w = (.ok b, w')) : ∃ a w₁, x w = (.ok a, w₁) ∧ f a w₁ = (.ok b, w') := by
  rcases bind_cases x f w with ⟨e, w₁, -, out⟩ | ⟨a, w₁, first, out⟩
  · cases congrArg Prod.fst (out.symm.trans went)
  · exact ⟨a, w₁, first, out.symm.trans went⟩

/-- **Attempts for a list fail with the first that fails**, after some that went well. -/
theorem mapM_failed_iff {f : α → Attempt σ ε β} {l : List α} {w w' : World σ} {e : ε} :
    l.mapM f w = (.error e, w') ↔ ∃ done a rest bs w₁, l = done ++ a :: rest ∧
      done.mapM f w = (.ok bs, w₁) ∧ f a w₁ = (.error e, w') := by
  constructor
  · induction l generalizing w with
    | nil =>
        intro failed
        rw [List.mapM_nil] at failed
        exact absurd failed pure_ne_failed
    | cons a l ih =>
        intro failed
        rw [List.mapM_cons] at failed
        rcases bind_failed failed with here | ⟨b, w₁, went, later⟩
        · exact ⟨[], a, l, [], w, rfl, by rw [List.mapM_nil, pure_apply], here⟩
        rcases bind_failed later with there | ⟨_, _, -, never⟩
        · obtain ⟨done, a', rest, bs, w₂, rfl, went', broken⟩ := ih there
          refine ⟨a :: done, a', rest, b :: bs, w₂, rfl, ?_, broken⟩
          rw [List.mapM_cons, bind_ok (by rw [went]), went, bind_ok (by rw [went']), went', pure_apply]
        · exact absurd never pure_ne_failed
  · rintro ⟨done, a, rest, bs, w₁, rfl, went, broken⟩
    rw [List.mapM_append, bind_failed_iff]
    refine .inr ⟨bs, w₁, went, ?_⟩
    rw [List.mapM_cons, bind_failed_iff]
    exact .inl (bind_failed_iff.2 (.inl broken))

/-- What attempts for a list come to, each came to. -/
theorem exists_of_mem_mapM {f : α → Attempt σ ε β} {l : List α} {w w' : World σ} {bs : List β}
    (went : l.mapM f w = (.ok bs, w')) {b : β} (member : b ∈ bs) :
    ∃ a ∈ l, ∃ w₁ w₂, f a w₁ = (.ok b, w₂) := by
  induction l generalizing w w' bs with
  | nil =>
      rw [List.mapM_nil, pure_apply] at went
      obtain rfl := Except.ok.inj (congrArg Prod.fst went)
      exact absurd member List.not_mem_nil
  | cons a l ih =>
      rw [List.mapM_cons] at went
      obtain ⟨b', w₁, here, later⟩ := bind_went went
      obtain ⟨bs', w₂, there, last⟩ := bind_went later
      rw [pure_apply] at last
      obtain rfl := Except.ok.inj (congrArg Prod.fst last)
      rcases List.mem_cons.1 member with rfl | member
      · exact ⟨a, List.mem_cons_self, w, w₁, here⟩
      · obtain ⟨a', inside, came⟩ := ih there member
        exact ⟨a', List.mem_cons_of_mem a inside, came⟩

theorem adapt_apply (f : ε → δ) (x : Attempt σ ε α) (w : World σ) :
    (ExceptT.adapt f x : Attempt σ δ α) w = ((x w).1.mapError f, (x w).2) := rfl

theorem adapt_failed_iff {f : ε → δ} {x : Attempt σ ε α} {w w' : World σ} {d : δ} :
    (ExceptT.adapt f x : Attempt σ δ α) w = (.error d, w') ↔ ∃ e, x w = (.error e, w') ∧ d = f e := by
  rw [adapt_apply]
  constructor
  · intro failed
    obtain ⟨outcome, same⟩ := Prod.mk.inj failed
    cases first : x w with
    | mk r w₁ =>
        rw [first] at outcome same
        cases r with
        | ok a => cases outcome
        | error e => exact ⟨e, Prod.ext rfl same, (Except.error.inj outcome).symm⟩
  · rintro ⟨e, failed, rfl⟩
    rw [failed, mapError_error]

theorem adapt_went {f : ε → δ} {x : Attempt σ ε α} {w w' : World σ} {a : α}
    (went : (ExceptT.adapt f x : Attempt σ δ α) w = (.ok a, w')) : x w = (.ok a, w') := by
  rw [adapt_apply] at went
  obtain ⟨outcome, same⟩ := Prod.mk.inj went
  cases first : x w with
  | mk r w₁ =>
      rw [first] at outcome same
      cases r with
      | error e => cases outcome
      | ok b => exact Prod.ext (congrArg Except.ok (Except.ok.inj outcome)) same

end Attempt

namespace Scene

variable {σ ε : Type} (scene : Scene σ)

@[simp] theorem isFired_apply (w : World σ) :
    scene.isFired w = (scene.interruption.fired w.now, w) := rfl

@[simp] theorem isReleased_apply (w : World σ) :
    scene.isReleased w = ((scene.interruption.signal w.now).released, w) := rfl

/-- What cannot be done without is asked for once. -/
theorem require_apply (failure : PlatformError → ε) (c : Call) (w : World σ) :
    scene.require failure c w =
      ((scene.platform.answer c w.state).1.mapError failure, w.awaited scene.platform c) := by
  rw [require, Attempt.bind_ok (a := (scene.platform.answer c w.state).1) (by simp)]
  cases (scene.platform.answer c w.state).1 <;> simp

/-- What was asked for and had was answered. -/
theorem require_went {failure : PlatformError → ε} {c : Call} {w w' : World σ} {a : c.Reply}
    (went : scene.require failure c w = (.ok a, w')) :
    (scene.platform.answer c w.state).1 = .ok a ∧ w' = w.awaited scene.platform c := by
  rw [require_apply] at went
  obtain ⟨outcome, rfl⟩ := Prod.mk.inj went
  refine ⟨?_, rfl⟩
  cases answer : (scene.platform.answer c w.state).1 with
  | error e => rw [answer] at outcome; cases outcome
  | ok a' => rw [answer] at outcome; exact congrArg Except.ok (Except.ok.inj outcome)

end Scene

end DevMode
