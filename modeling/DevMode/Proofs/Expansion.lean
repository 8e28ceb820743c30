/-
# DevMode.Proofs.Expansion -- expanding a text twice

What an environment puts in the place of a reference stands right behind the text before it.  If
that text ends in a `$`, in a brace that is not closed, or in a reference to an unknown name, the
two may be read as one reference, and expanding the text again may change it.

* `Mode.next` says how a reader of references stands behind one more character, and
  `leavesAlone_expandFrom` goes through a text with two readers, the second of which reads what the
  first has made of it.
* `apartFrom` says of the tokens of a text that nothing is open before a reference to a known name.
* `expand_expand_iff` says when a text that was expanded is left alone, and `expand_joins` has one
  that is not.
-/
import DevMode.Proofs.References

namespace DevMode.Environment

set_option autoImplicit false

/-- The environment puts no `$` into a text. -/
def Plain (env : Environment) : Prop :=
  ∀ name value, env.value? name = some value → '$' ∉ value.toList

theorem plain_of_forall_mem {env : Environment} (plain : ∀ entry ∈ env, '$' ∉ entry.2.toList) :
    Plain env := by
  intro name value known
  obtain ⟨before, behind, rfl, -⟩ := List.lookup_eq_some_iff.1 known
  exact plain (name, value) (by simp)

namespace Token

/-- How a token is written. -/
def written : Token → List Char
  | plain c => [c]
  | reference _ written => written

/-- Whether the environment has a value for what a token refers to. -/
def isKnown (env : Environment) (t : Token) : Bool := (t.name?.bind env.value?).isSome

end Token

/-! ## One character more -/

namespace Mode

/-- How a reader stands behind one more character. -/
def next : Mode → Char → Mode
  | text, c => if c = '$' then dollar else text
  | dollar, c =>
    if c = '$' then dollar
    else if c = '\x7b' then braced []
    else if startsName c then bare [c]
    else text
  | braced name, c =>
    if c = '\x7d' ∧ name ≠ [] then text
    else if (if name = [] then startsName c else continuesName c) then braced (c :: name)
    else if c = '$' then dollar
    else text
  | bare name, c =>
    if continuesName c then bare (c :: name)
    else if c = '$' then dollar
    else text

/-- How a reader stands behind some more characters. -/
def after (m : Mode) (cs : List Char) : Mode := cs.foldl next m

/-- The characters that a reader has seen and not given on. -/
def held : Mode → List Char
  | text => []
  | dollar => ['$']
  | braced name => '$' :: '\x7b' :: name.reverse
  | bare name => '$' :: name.reverse

def isText : Mode → Bool
  | text => true
  | _ => false

theorem eq_text {m : Mode} (closed : m.isText = true) : m = text := by
  cases m with
  | text => rfl
  | dollar | braced | bare => cases closed

@[simp] theorem after_nil (m : Mode) : m.after [] = m := rfl

@[simp] theorem after_cons (m : Mode) (c : Char) (cs : List Char) :
    m.after (c :: cs) = (m.next c).after cs := rfl

theorem after_append (m : Mode) (cs ds : List Char) : m.after (cs ++ ds) = (m.after cs).after ds :=
  List.foldl_append

end Mode

theorem startsName_ne {c : Char} (starts : startsName c = true) : c ≠ '$' ∧ c ≠ '\x7b' ∧ c ≠ '\x7d' := by
  refine ⟨?_, ?_, ?_⟩ <;> rintro rfl <;> exact absurd starts (by decide)

/-- A `$` always begins anew. -/
theorem Mode.next_dollar (m : Mode) : m.next '$' = .dollar := by
  cases m with
  | text | dollar => rfl
  | braced name =>
      have stops : (if name = [] then startsName '$' else continuesName '$') = false := by
        split <;> rfl
      simp [next, stops]
  | bare name => rfl

/-! ## Readers that hold something back -/

/-- What a reader holds back brings any reader to where that one stands. -/
structure Mode.Opens (m : Mode) : Prop where
  after_held : Mode.text.after m.held = m
  expand_held : ∀ (env : Environment) (rest : List Char),
    expandFrom env .text (m.held ++ rest) = expandFrom env m rest

namespace Mode

/-- What is held back begins with a `$`, if it is anything. -/
theorem exists_held_cons {m : Mode} (something : m.isText = false) : ∃ held, m.held = '$' :: held := by
  cases m with
  | text => cases something
  | dollar | braced | bare => exact ⟨_, rfl⟩

/-- So it brings any other reader there as well. -/
theorem Opens.after_any {m : Mode} (opens : Opens m) (something : m.isText = false) (m₂ : Mode) :
    m₂.after m.held = m := by
  obtain ⟨held, same⟩ := exists_held_cons something
  have first := opens.after_held
  rw [same, after_cons, next_dollar] at first ⊢
  exact first

theorem opens_text : Opens text := ⟨rfl, fun _ _ => rfl⟩

theorem opens_dollar : Opens dollar := ⟨rfl, fun _ _ => by simp [held, expandFrom]⟩

/-- A reader that only takes one more character in holds that back too. -/
theorem Opens.step {m : Mode} {c : Char} (opens : Opens m) (held : (m.next c).held = m.held ++ [c])
    (takes : ∀ env rest, expandFrom env m (c :: rest) = expandFrom env (m.next c) rest) :
    Opens (m.next c) := by
  refine ⟨?_, fun env rest => ?_⟩
  · rw [held, after_append, opens.after_held]
    rfl
  · rw [held, List.append_assoc, opens.expand_held, List.singleton_append, takes]

theorem opens_braced_nil : Opens (braced []) :=
  opens_dollar.step (c := '\x7b') rfl fun _ _ => by simp [expandFrom, next]

theorem opens_bare_one {c : Char} (starts : startsName c = true) : Opens (bare [c]) := by
  obtain ⟨not_dollar, not_brace, -⟩ := startsName_ne starts
  have goes : dollar.next c = bare [c] := by simp [next, not_dollar, not_brace, starts]
  rw [← goes]
  exact opens_dollar.step (by simp [goes, held]) fun _ _ => by
    simp [goes, expandFrom, not_dollar, not_brace, starts]

theorem Opens.braced_cons {name : List Char} {c : Char} (opens : Opens (braced name))
    (unclosed : ¬ (c = '\x7d' ∧ name ≠ []))
    (goes : (if name = [] then startsName c else continuesName c) = true) :
    Opens (braced (c :: name)) := by
  have taken : (braced name).next c = braced (c :: name) := by
    rw [next, if_neg unclosed, if_pos goes]
  rw [← taken]
  exact opens.step (by simp [taken, held]) fun env rest => by
    rw [taken, expandFrom, if_neg unclosed, if_pos goes]

theorem Opens.bare_cons {name : List Char} {c : Char} (opens : Opens (bare name))
    (goes : continuesName c = true) : Opens (bare (c :: name)) := by
  have taken : (bare name).next c = bare (c :: name) := by rw [next, if_pos goes]
  rw [← taken]
  exact opens.step (by simp [taken, held]) fun env rest => by
    rw [taken, expandFrom, if_pos goes]

/-- A reader that is not in a reference to a known name. -/
def Settled (env : Environment) : Mode → Prop
  | bare name => env.value? (String.ofList name.reverse) = none
  | text | dollar | braced _ => True

end Mode

/-- A reader in a reference to an unknown name gives it on as it is written. -/
theorem resolve_of_unknown {env : Environment} {name : List Char} (written : List Char)
    (unknown : env.value? (String.ofList name.reverse) = none) : resolve env name written = written := by
  rw [resolve, unknown]

/-- In front of a `$`, a reader gives on what it holds back. -/
theorem expandFrom_dollar {env : Environment} {m : Mode} (settled : m.Settled env)
    (rest : List Char) :
    expandFrom env m ('$' :: rest) = m.held ++ expandFrom env .text ('$' :: rest) := by
  cases m with
  | text => rfl
  | dollar => simp [expandFrom, Mode.held]
  | braced name =>
      have stops : (if name = [] then startsName '$' else continuesName '$') = false := by
        split <;> rfl
      simp [expandFrom, Mode.held, stops]
  | bare name =>
      have stops : continuesName '$' = false := rfl
      simp [expandFrom, Mode.held, stops, resolve_of_unknown _ settled]

theorem expandFrom_text_append {env : Environment} {value : List Char} (plain : '$' ∉ value)
    (rest : List Char) : expandFrom env .text (value ++ rest) = value ++ expandFrom env .text rest := by
  induction value with
  | nil => rfl
  | cons c cs ih =>
      simp only [List.mem_cons, not_or] at plain
      rw [List.cons_append, expandFrom, if_neg (Ne.symm plain.1), ih plain.2, List.cons_append]

theorem Mode.after_of_plain {value : List Char} (plain : '$' ∉ value) : Mode.text.after value = .text := by
  induction value with
  | nil => rfl
  | cons c cs ih =>
      simp only [List.mem_cons, not_or] at plain
      rw [after_cons, next, if_neg (Ne.symm plain.1), ih plain.2]

/-! ## Two readers -/

/-- Nothing is open where a token refers to a known name, for one who reads what the tokens come
to. -/
def apartFrom (env : Environment) : Mode → List Token → Bool
  | _, [] => true
  | m, t :: ts => (!t.isKnown env || m.isText) && apartFrom env (m.after (t.text env)) ts

/-- Nothing is open in front of a reference to a known name. -/
def Apart (env : Environment) (s : String) : Prop := apartFrom env .text (tokens s) = true

instance (env : Environment) (s : String) : Decidable (Apart env s) :=
  inferInstanceAs (Decidable (_ = _))

@[simp] theorem apartFrom_plain (env : Environment) (m : Mode) (c : Char) (ts : List Token) :
    apartFrom env m (.plain c :: ts) = apartFrom env (m.next c) ts := rfl

theorem apartFrom_plainly (env : Environment) (m : Mode) (text : List Char) (ts : List Token) :
    apartFrom env m (plainly text ++ ts) = apartFrom env (m.after text) ts := by
  induction text generalizing m with
  | nil => rfl
  | cons c cs ih => exact ih (m.next c)

theorem apartFrom_referring {env : Environment} {m : Mode} {name written : List Char}
    {ts : List Token} (apart : apartFrom env m (referring name written :: ts) = true) :
    (∃ value, env.value? (String.ofList name.reverse) = some value ∧ m = .text ∧
      apartFrom env (m.after value.toList) ts = true) ∨
    (env.value? (String.ofList name.reverse) = none ∧ apartFrom env (m.after written) ts = true) := by
  simp only [apartFrom, Token.text_referring, Bool.and_eq_true, Bool.or_eq_true] at apart
  obtain ⟨clear, behind⟩ := apart
  cases known : env.value? (String.ofList name.reverse) with
  | none => exact .inr ⟨rfl, by rwa [resolve, known] at behind⟩
  | some value =>
      refine .inl ⟨value, rfl, Mode.eq_text (clear.resolve_left ?_), by rwa [resolve, known] at behind⟩
      simp [Token.isKnown, referring, Token.name?, known]

/-! ### Texts that are left alone -/

/-- A reader gives on some text as it is, behind what it holds back. -/
def LeavesAlone (env : Environment) (m : Mode) (text : List Char) : Prop :=
  expandFrom env m text = m.held ++ text

/-- A reader lets a character go, and with it what it holds back. -/
structure Mode.LetsGo (env : Environment) (m : Mode) (c : Char) : Prop where
  next_text : m.next c = .text
  expand : ∀ rest, expandFrom env m (c :: rest) = m.held ++ c :: expandFrom env .text rest

section LeavesAlone

variable {env : Environment} {m m₂ : Mode} {name : List Char} {c : Char} {rest : List Char}

theorem letsGo_text (other : c ≠ '$') : Mode.text.LetsGo env c :=
  ⟨by rw [Mode.next, if_neg other], fun _ => by rw [expandFrom, if_neg other]; rfl⟩

theorem letsGo_dollar (no_dollar : c ≠ '$') (no_brace : c ≠ '\x7b') (stops : startsName c ≠ true) :
    Mode.dollar.LetsGo env c :=
  ⟨by rw [Mode.next, if_neg no_dollar, if_neg no_brace, if_neg stops],
    fun _ => by rw [expandFrom, if_neg no_dollar, if_neg no_brace, if_neg stops]; rfl⟩

theorem letsGo_braced (unclosed : ¬ (c = '\x7d' ∧ name ≠ []))
    (stops : ¬ (if name = [] then startsName c else continuesName c) = true) (no_dollar : c ≠ '$') :
    (Mode.braced name).LetsGo env c :=
  ⟨by rw [Mode.next, if_neg unclosed, if_neg stops, if_neg no_dollar],
    fun _ => by rw [expandFrom, if_neg unclosed, if_neg stops, if_neg no_dollar]; rfl⟩

theorem letsGo_bare (unknown : (Mode.bare name).Settled env) (stops : ¬ continuesName c = true)
    (no_dollar : c ≠ '$') : (Mode.bare name).LetsGo env c :=
  ⟨by rw [Mode.next, if_neg stops, if_neg no_dollar], fun _ => by
    rw [expandFrom, if_neg stops, if_neg no_dollar, resolve_of_unknown _ unknown]; rfl⟩

theorem leavesAlone_cons (goes : m.LetsGo env c) (alone : LeavesAlone env .text rest) :
    LeavesAlone env m (c :: rest) := by
  rw [LeavesAlone, goes.expand, show expandFrom env .text rest = rest from alone]

theorem leavesAlone_text_append {value : List Char} (plain : '$' ∉ value)
    (alone : LeavesAlone env .text rest) : LeavesAlone env .text (value ++ rest) := by
  rw [LeavesAlone, expandFrom_text_append plain, show expandFrom env .text rest = rest from alone]
  rfl

/-- What one reader holds back is left alone by another one, if it is by itself. -/
theorem leavesAlone_held (settled : m₂.Settled env) (opens : m.Opens) (something : m.isText = false)
    (alone : LeavesAlone env m rest) : LeavesAlone env m₂ (m.held ++ rest) := by
  obtain ⟨held, same⟩ := Mode.exists_held_cons something
  have first : expandFrom env .text (m.held ++ rest) = m.held ++ rest :=
    (opens.expand_held env rest).trans alone
  rw [LeavesAlone, same, List.cons_append, expandFrom_dollar settled, ← List.cons_append, ← same,
    first]

/-- A braced reference to an unknown name is left alone. -/
theorem leavesAlone_braced_close (some_name : name ≠ [])
    (unknown : env.value? (String.ofList name.reverse) = none) (alone : LeavesAlone env .text rest) :
    LeavesAlone env (.braced name) ('\x7d' :: rest) := by
  rw [LeavesAlone, expandFrom, if_pos ⟨rfl, some_name⟩, resolve_of_unknown _ unknown,
    show expandFrom env .text rest = rest from alone]
  simp [Mode.held]

/-- Behind a reference that has come to its end, a `$` begins another one, and the reader lets go
of what else comes. -/
theorem leavesAlone_behind {cs : List Char} (goes : c ≠ '$' → m.LetsGo env c)
    (dollar : apartFrom env m (tokensFrom .dollar cs) = true →
      LeavesAlone env m (expandFrom env .dollar cs))
    (text : apartFrom env .text (tokensFrom .text cs) = true →
      LeavesAlone env .text (expandFrom env .text cs))
    (apart : apartFrom env m
      (if c = '$' then tokensFrom .dollar cs else .plain c :: tokensFrom .text cs) = true) :
    LeavesAlone env m (if c = '$' then expandFrom env .dollar cs else c :: expandFrom env .text cs) := by
  by_cases again : c = '$'
  · rw [if_pos again] at apart ⊢
    exact dollar apart
  · rw [if_neg again] at apart ⊢
    rw [apartFrom_plain, (goes again).next_text] at apart
    exact leavesAlone_cons (goes again) (text apart)

end LeavesAlone

/-- **A second reader leaves alone what the first has made of a text** in which references to known
names stand apart.  The first stands at `m`, and the second at `m₂`, behind what the first has given
on; so the second has nothing open if the first one has nothing. -/
theorem leavesAlone_expandFrom {env : Environment} (plain : env.Plain) (m : Mode) (cs : List Char)
    (m₂ : Mode) (opens : m.Opens) (settled : m₂.Settled env) (clear : m.isText = false ∨ m₂ = .text)
    (apart : apartFrom env m₂ (tokensFrom m cs) = true) :
    LeavesAlone env m₂ (expandFrom env m cs) := by
  fun_induction expandFrom env m cs generalizing m₂ with
  | case1 =>
      obtain rfl := clear.resolve_left (by decide)
      rfl
  | case2 cs ih =>
      exact ih m₂ Mode.opens_dollar settled (.inl rfl) (by rwa [tokensFrom, if_pos rfl] at apart)
  | case3 c cs other ih =>
      obtain rfl := clear.resolve_left (by decide)
      have goes : Mode.text.LetsGo env c := letsGo_text other
      rw [tokensFrom, if_neg other, apartFrom_plain, goes.next_text] at apart
      exact leavesAlone_cons goes (ih .text Mode.opens_text trivial (.inr rfl) apart)
  | case4 => exact leavesAlone_held settled opens rfl rfl
  | case5 cs ih =>
      rw [tokensFrom, if_pos rfl, apartFrom_plain, Mode.next_dollar] at apart
      exact leavesAlone_held settled opens rfl (ih .dollar opens trivial (.inl rfl) apart)
  | case6 cs no_dollar ih =>
      exact ih m₂ Mode.opens_braced_nil settled (.inl rfl) (by
        rwa [tokensFrom, if_neg no_dollar, if_pos rfl] at apart)
  | case7 c cs no_dollar no_brace starts ih =>
      exact ih m₂ (Mode.opens_bare_one starts) settled (.inl rfl) (by
        rwa [tokensFrom, if_neg no_dollar, if_neg no_brace, if_pos starts] at apart)
  | case8 c cs no_dollar no_brace stops ih =>
      have goes : Mode.dollar.LetsGo env c := letsGo_dollar no_dollar no_brace stops
      rw [tokensFrom, if_neg no_dollar, if_neg no_brace, if_neg stops, apartFrom_plain,
        apartFrom_plain, Mode.next_dollar, goes.next_text] at apart
      exact leavesAlone_held settled opens rfl
        (leavesAlone_cons goes (ih .text Mode.opens_text trivial (.inr rfl) apart))
  | case9 name =>
      have alone : LeavesAlone env (.braced name) [] := by simp [LeavesAlone, expandFrom, Mode.held]
      simpa [Mode.held] using leavesAlone_held settled opens rfl alone
  | case10 name c cs closes ih =>
      obtain ⟨rfl, some_name⟩ := closes
      rw [tokensFrom, if_pos ⟨rfl, some_name⟩] at apart
      rcases apartFrom_referring apart with ⟨value, known, rfl, behind⟩ | ⟨unknown, behind⟩
      · have free := plain _ value known
        rw [Mode.after_of_plain free] at behind
        rw [resolve, known]
        exact leavesAlone_text_append free (ih .text Mode.opens_text trivial (.inr rfl) behind)
      · have written : '$' :: '\x7b' :: name.reverse ++ ['\x7d'] =
            (Mode.braced name).held ++ ['\x7d'] := rfl
        have closed : (Mode.braced name).after ['\x7d'] = .text := by simp [Mode.next, some_name]
        rw [written, Mode.after_append, opens.after_any rfl, closed] at behind
        rw [resolve_of_unknown _ unknown, written, List.append_assoc]
        exact leavesAlone_held settled opens rfl (leavesAlone_braced_close some_name unknown
          (ih .text Mode.opens_text trivial (.inr rfl) behind))
  | case11 name c cs unclosed goes ih =>
      exact ih m₂ (opens.braced_cons unclosed goes) settled (.inl rfl) (by
        rwa [tokensFrom, if_neg unclosed, if_pos goes] at apart)
  | case12 name c cs unclosed stops ih ih' =>
      rw [tokensFrom, if_neg unclosed, if_neg stops] at apart
      have behind := (apartFrom_plainly env m₂ (Mode.braced name).held _).symm.trans apart
      rw [opens.after_any rfl] at behind
      exact leavesAlone_held settled opens rfl (leavesAlone_behind (letsGo_braced unclosed stops)
        (ih _ Mode.opens_dollar trivial (.inl rfl))
        (ih' .text Mode.opens_text trivial (.inr rfl)) behind)
  | case13 name =>
      rw [tokensFrom] at apart
      rcases apartFrom_referring apart with ⟨value, known, rfl, -⟩ | ⟨unknown, -⟩
      · rw [resolve, known]
        have alone : LeavesAlone env .text (value.toList ++ []) :=
          leavesAlone_text_append (plain _ value known) rfl
        simpa using alone
      · have alone : LeavesAlone env (.bare name) [] := by
          simp [LeavesAlone, expandFrom, Mode.held, resolve_of_unknown _ unknown]
        simpa [Mode.held, resolve_of_unknown _ unknown] using
          leavesAlone_held settled opens rfl alone
  | case14 name c cs goes ih =>
      exact ih m₂ (opens.bare_cons goes) settled (.inl rfl) (by
        rwa [tokensFrom, if_pos goes] at apart)
  | case15 name c cs stops ih ih' =>
      have text := ih' .text Mode.opens_text trivial (.inr rfl)
      rw [tokensFrom, if_neg stops] at apart
      rcases apartFrom_referring apart with ⟨value, known, rfl, behind⟩ | ⟨unknown, behind⟩
      · have free := plain _ value known
        rw [Mode.after_of_plain free] at behind
        rw [resolve, known]
        exact leavesAlone_text_append free (leavesAlone_behind letsGo_text
          (ih .text Mode.opens_dollar trivial (.inl rfl)) text behind)
      · have behind : apartFrom env (m₂.after (Mode.bare name).held) _ = true := behind
        rw [opens.after_any rfl] at behind
        rw [resolve_of_unknown _ unknown]
        exact leavesAlone_held settled opens rfl (leavesAlone_behind (letsGo_bare unknown stops)
          (ih _ Mode.opens_dollar unknown (.inl rfl)) text behind)

/-! ## Texts that expanding does not change -/

/-- How tokens are written. -/
def write (ts : List Token) : List Char := ts.flatMap Token.written

@[simp] theorem write_nil : write [] = [] := rfl

@[simp] theorem write_cons (t : Token) (ts : List Token) : write (t :: ts) = t.written ++ write ts := rfl

@[simp] theorem write_append (ts us : List Token) : write (ts ++ us) = write ts ++ write us :=
  List.flatMap_append

@[simp] theorem write_plainly (text : List Char) : write (plainly text) = text := by
  induction text with
  | nil => rfl
  | cons c cs ih => exact congrArg (c :: ·) ih

/-- The tokens of a text are written as it is. -/
theorem write_tokensFrom (m : Mode) (cs : List Char) : write (tokensFrom m cs) = m.held ++ cs := by
  fun_induction tokensFrom m cs with
  | case11 name c cs unclosed goes ih => simp [ih, Mode.held]
  | case12 name c cs unclosed stops ih ih' =>
      rw [write_append, write_plainly, apply_ite write, ih, write_cons, ih']
      split <;> simp_all [Mode.held, Token.written]
  | case15 name c cs stops ih ih' =>
      rw [write_cons, apply_ite write, ih, write_cons, ih']
      split <;> simp_all [Mode.held, Token.written, referring]
  | _ => simp_all [Mode.held, Token.written, referring]

/-- A reference is written with a `$`. -/
theorem dollar_mem_written {m : Mode} {cs : List Char} {name : String} {written : List Char}
    (member : Token.reference name written ∈ tokensFrom m cs) : '$' ∈ written := by
  have no_reference (text : List Char) : Token.reference name written ∉ plainly text := by
    simp [plainly]
  have referring_written {read written' : List Char}
      (same : Token.reference name written = referring read ('$' :: written')) : '$' ∈ written := by
    obtain ⟨-, rfl⟩ := Token.reference.inj same
    exact List.mem_cons_self
  fun_induction tokensFrom m cs with
  | case1 => cases member
  | case4 => exact absurd member (no_reference _)
  | case9 => exact absurd member (no_reference _)
  | case10 name c cs closes ih =>
      rcases List.mem_cons.1 member with same | behind
      · exact referring_written same
      · exact ih behind
  | case12 name c cs unclosed stops ih ih' =>
      have behind := (List.mem_append.1 member).resolve_left (no_reference _)
      split at behind
      · exact ih behind
      · exact ih' ((List.mem_cons.1 behind).resolve_left nofun)
  | case13 name => exact referring_written (List.mem_singleton.1 member)
  | case15 name c cs stops ih ih' =>
      rcases List.mem_cons.1 member with same | behind
      · exact referring_written same
      · split at behind
        · exact ih behind
        · exact ih' ((List.mem_cons.1 behind).resolve_left nofun)
  | _ => simp_all

/-- An environment that puts no `$` into a text takes one away with every reference that it knows. -/
theorem count_text_le {env : Environment} (plain : env.Plain) {t : Token}
    (marked : ∀ name written, t = .reference name written → '$' ∈ written) :
    (t.text env).count '$' ≤ t.written.count '$' ∧
      (t.isKnown env = true → (t.text env).count '$' < t.written.count '$') := by
  cases t with
  | plain c => exact ⟨Nat.le_refl _, nofun⟩
  | reference name written =>
      cases known : env.value? name with
      | none => simp [Token.text, Token.written, Token.isKnown, Token.name?, known]
      | some value =>
          have none_left : value.toList.count '$' = 0 := List.count_eq_zero.2 (plain name value known)
          have some_dollar : 0 < written.count '$' := List.count_pos_iff.2 (marked name written rfl)
          simp [Token.text, Token.written, known, none_left, some_dollar]

/-- Tokens that come to text with as many `$` as they are written with refer to no known name. -/
theorem unknown_of_count_eq {env : Environment} (plain : env.Plain) {ts : List Token}
    (marked : ∀ name written, Token.reference name written ∈ ts → '$' ∈ written) :
    (spell env ts).count '$' ≤ (write ts).count '$' ∧
      ((spell env ts).count '$' = (write ts).count '$' → ∀ t ∈ ts, t.isKnown env = false) := by
  induction ts with
  | nil => simp
  | cons t ts ih =>
      obtain ⟨fewer, equal⟩ := ih fun name written member =>
        marked name written (List.mem_cons_of_mem t member)
      obtain ⟨here, less⟩ := count_text_le plain (t := t) fun name written same =>
        marked name written (same ▸ List.mem_cons_self)
      rw [spell_cons, write_cons, List.count_append, List.count_append]
      refine ⟨by omega, fun same => List.forall_mem_cons.2 ⟨?_, equal (by omega)⟩⟩
      cases known : t.isKnown env with
      | false => rfl
      | true =>
          have := less known
          omega

/-- **A text is left alone just if it refers to no known name.** -/
theorem expand_eq_self_iff {env : Environment} (plain : env.Plain) (s : String) :
    env.expand s = s ↔ ∀ name ∈ names s, env.value? name = none := by
  have written : write (tokens s) = s.toList := write_tokensFrom .text s.toList
  have same_iff : env.expand s = s ↔ spell env (tokens s) = write (tokens s) := by
    rw [expand_eq, written, ← String.toList_inj, String.toList_ofList]
  rw [same_iff]
  constructor
  · intro same name member
    obtain ⟨t, inside, refers⟩ := List.mem_filterMap.1 member
    have unknown := (unknown_of_count_eq plain fun _ _ => dollar_mem_written).2
      (congrArg (List.count '$') same) t inside
    simpa [Token.isKnown, refers] using unknown
  · intro unknown
    rw [spell, write, List.flatMap_def, List.flatMap_def]
    congr 1
    refine List.map_congr_left fun t member => ?_
    cases t with
    | plain c => rfl
    | reference name written =>
        have gone := unknown name (List.mem_filterMap.2 ⟨_, member, rfl⟩)
        simp [Token.text, Token.written, gone]

/-! ## Expanding again -/

/-- **Expanding a text again changes nothing just if what it was expanded to refers to no known
name.**  That is so of every text in which nothing is open in front of a reference to a known name. -/
theorem expand_expand_iff {env : Environment} (plain : env.Plain) (s : String) :
    (env.expand (env.expand s) = env.expand s ↔
      ∀ name ∈ names (env.expand s), env.value? name = none) ∧
    (env.Apart s → env.expand (env.expand s) = env.expand s) := by
  refine ⟨expand_eq_self_iff plain _, fun apart => ?_⟩
  have alone := leavesAlone_expandFrom plain .text s.toList .text Mode.opens_text trivial (.inr rfl) apart
  rw [expand, expand, String.toList_ofList]
  exact congrArg String.ofList alone

/-- A port and a directory. -/
def portAndDir : Environment := [("PORT", "8080"), ("DIR", "/srv")]

/-- They are put into a text once and for all, where a name that is not known stays. -/
theorem expand_expand_port :
    portAndDir.Plain ∧ portAndDir.Apart "$DIR/$HOME/$\x7bPORT\x7d$PORT" ∧
      portAndDir.expand "$DIR/$HOME/$\x7bPORT\x7d$PORT" = "/srv/$HOME/80808080" ∧
      portAndDir.expand (portAndDir.expand "$DIR/$HOME/$\x7bPORT\x7d$PORT") =
        portAndDir.expand "$DIR/$HOME/$\x7bPORT\x7d$PORT" := by
  have plain : portAndDir.Plain := plain_of_forall_mem (by decide)
  have apart : portAndDir.Apart "$DIR/$HOME/$\x7bPORT\x7d$PORT" := by decide
  exact ⟨plain, apart, by decide, (expand_expand_iff plain _).2 apart⟩

/-- Names whose values are names. -/
def nameOfName : Environment := [("A", "B"), ("B", "x"), ("HOMEB", "/root")]

/-- **A `$` and the value behind it are joined to a reference**, and so are a reference to an unknown
name and the value behind it.  Expanding the text again then goes on. -/
theorem expand_joins :
    nameOfName.Plain ∧
      nameOfName.expand "$$A" = "$B" ∧ nameOfName.expand (nameOfName.expand "$$A") = "x" ∧
      nameOfName.expand "$HOME$A" = "$HOMEB" ∧
      nameOfName.expand (nameOfName.expand "$HOME$A") = "/root" :=
  ⟨plain_of_forall_mem (by decide), by decide, by decide, by decide, by decide⟩

end DevMode.Environment
