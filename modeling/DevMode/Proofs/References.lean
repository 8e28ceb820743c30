/-
# DevMode.Proofs.References -- what a text refers to

Which references a text holds is a matter of its characters alone: an environment says what they
come to, and never what is read as one.  `tokens` cuts a text into characters that stand for
themselves and references, and `expand_eq` says that a text is expanded token by token.

From this follows that a text is expanded alike wherever the names it refers to have the same
values (`expand_congr`).
-/
import DevMode.Environment

namespace DevMode.Environment

set_option autoImplicit false

/-! ## Tokens -/

/-- A part of a text: a character that stands for itself, or a reference and how it is written. -/
inductive Token where
  | plain (c : Char)
  | reference (name : String) (written : List Char)
  deriving DecidableEq, Repr

/-- A text that stands for itself. -/
def plainly (text : List Char) : List Token := text.map .plain

/-- A reference whose name was read backwards. -/
def referring (name written : List Char) : Token := .reference (String.ofList name.reverse) written

/-- The tokens of a text, by what the characters since the last `$` have been. -/
def tokensFrom : Mode → List Char → List Token
  | .text, [] => []
  | .text, c :: cs => if c = '$' then tokensFrom .dollar cs else .plain c :: tokensFrom .text cs
  | .dollar, [] => plainly ['$']
  | .dollar, c :: cs =>
    if c = '$' then .plain '$' :: tokensFrom .dollar cs
    else if c = '\x7b' then tokensFrom (.braced []) cs
    else if startsName c then tokensFrom (.bare [c]) cs
    else .plain '$' :: .plain c :: tokensFrom .text cs
  | .braced name, [] => plainly ('$' :: '\x7b' :: name.reverse)
  | .braced name, c :: cs =>
    if c = '\x7d' ∧ name ≠ [] then
      referring name ('$' :: '\x7b' :: name.reverse ++ ['\x7d']) :: tokensFrom .text cs
    else if (if name = [] then startsName c else continuesName c) then
      tokensFrom (.braced (c :: name)) cs
    else
      plainly ('$' :: '\x7b' :: name.reverse) ++
        (if c = '$' then tokensFrom .dollar cs else .plain c :: tokensFrom .text cs)
  | .bare name, [] => [referring name ('$' :: name.reverse)]
  | .bare name, c :: cs =>
    if continuesName c then tokensFrom (.bare (c :: name)) cs
    else
      referring name ('$' :: name.reverse) ::
        (if c = '$' then tokensFrom .dollar cs else .plain c :: tokensFrom .text cs)

def tokens (s : String) : List Token := tokensFrom .text s.toList

namespace Token

/-- What a token comes to. -/
def text (env : Environment) : Token → List Char
  | plain c => [c]
  | reference name written => ((env.value? name).map String.toList).getD written

/-- The name that a token refers to. -/
def name? : Token → Option String
  | plain _ => none
  | reference name _ => some name

@[simp] theorem text_plain (env : Environment) (c : Char) : (plain c).text env = [c] := rfl

theorem text_referring (env : Environment) (name written : List Char) :
    (referring name written).text env = resolve env name written := by
  simp only [referring, text, resolve]
  cases env.value? (String.ofList name.reverse) <;> rfl

theorem text_congr {e₁ e₂ : Environment} {t : Token}
    (agree : ∀ name, t.name? = some name → e₁.value? name = e₂.value? name) :
    t.text e₁ = t.text e₂ := by
  cases t with
  | plain c => rfl
  | reference name written => simp only [text, agree name rfl]

end Token

/-- What a list of tokens comes to. -/
def spell (env : Environment) (ts : List Token) : List Char := ts.flatMap (·.text env)

@[simp] theorem spell_nil (env : Environment) : spell env [] = [] := rfl

@[simp] theorem spell_cons (env : Environment) (t : Token) (ts : List Token) :
    spell env (t :: ts) = t.text env ++ spell env ts := rfl

@[simp] theorem spell_append (env : Environment) (ts us : List Token) :
    spell env (ts ++ us) = spell env ts ++ spell env us := List.flatMap_append

@[simp] theorem spell_plainly (env : Environment) (text : List Char) :
    spell env (plainly text) = text := by
  induction text with
  | nil => rfl
  | cons c cs ih => exact congrArg (c :: ·) ih

theorem expandFrom_eq (env : Environment) (m : Mode) (cs : List Char) :
    expandFrom env m cs = spell env (tokensFrom m cs) := by
  fun_induction expandFrom env m cs with
  | case11 name c cs unclosed goes ih =>
      rw [tokensFrom, if_neg unclosed, if_pos goes, ih]
  | case12 name c cs unclosed stops ih ih' =>
      rw [tokensFrom, if_neg unclosed, if_neg stops, ih, ih', spell_append, spell_plainly,
        apply_ite (spell env)]
      rfl
  | case15 name c cs stops ih ih' =>
      rw [tokensFrom, if_neg stops, ih, ih', spell_cons, Token.text_referring, apply_ite (spell env)]
      rfl
  | _ => simp_all [tokensFrom, Token.text_referring]

/-- **A text is expanded token by token.** -/
theorem expand_eq (env : Environment) (s : String) :
    env.expand s = String.ofList (spell env (tokens s)) := by
  rw [expand, expandFrom_eq, tokens]

/-! ## Names -/

/-- The names that a text refers to. -/
def names (s : String) : List String := (tokens s).filterMap Token.name?

/-- **A text is expanded alike wherever the names it refers to have the same values.** -/
theorem expand_congr {e₁ e₂ : Environment} {s : String}
    (agree : ∀ name ∈ names s, e₁.value? name = e₂.value? name) : e₁.expand s = e₂.expand s := by
  have each : ∀ t ∈ tokens s, t.text e₁ = t.text e₂ := fun t member =>
    Token.text_congr fun name refers => agree name (List.mem_filterMap.2 ⟨t, member, refers⟩)
  rw [expand_eq, expand_eq, spell, spell, List.flatMap_def, List.flatMap_def,
    List.map_congr_left each]

example : names "/$A/$\x7bB_1\x7dc$$1$" = ["A", "B_1"] := by decide

end DevMode.Environment
