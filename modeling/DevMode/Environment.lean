/-
# DevMode.Environment -- variables, and references to them in text

An environment holds values by name.  In a text, `$NAME` and `$\{NAME}` with the
braces refer to it; a reference to a known name is replaced by the value, one to
an unknown name stays as it is written, and the values are not read again.

The text is read in one pass (`Environment.expand`), the mode saying what the
characters since the last `$` have been.
-/

namespace DevMode

set_option autoImplicit false

/-- Values by name.  The first entry of a name counts. -/
abbrev Environment := List (String × String)

namespace Environment

def value? (env : Environment) (name : String) : Option String := env.lookup name

def set (env : Environment) (name value : String) : Environment := (name, value) :: env

@[simp] theorem value?_set_self (env : Environment) (name value : String) :
    (env.set name value).value? name = some value := by
  simp [value?, set]

theorem value?_set_ne (env : Environment) (name other value : String) (h : other ≠ name) :
    (env.set name value).value? other = env.value? other := by
  have : (other == name) = false := by simp [h]
  simp [value?, set, List.lookup_cons, this]

/-! ## References -/

/-- A character a name may start with. -/
def startsName (c : Char) : Bool := c.isAlpha || c = '_'

/-- A character a name may go on with. -/
def continuesName (c : Char) : Bool := c.isAlphanum || c = '_'

/-- What a reader of references has seen: nothing open, a `$`, a `$` with an
opening brace and part of a name, or a `$` and part of a name.  Names are kept
backwards. -/
inductive Mode where
  | text
  | dollar
  | braced (name : List Char)
  | bare (name : List Char)

/-- The text of a reference to the name (kept backwards) as the environment has it,
or `written` if the name is unknown. -/
def resolve (env : Environment) (name written : List Char) : List Char :=
  match env.value? (String.ofList name.reverse) with
  | some value => value.toList
  | none => written

/-- The text with every reference to a known name replaced. -/
def expandFrom (env : Environment) : Mode → List Char → List Char
  | .text, [] => []
  | .text, c :: cs => if c = '$' then expandFrom env .dollar cs else c :: expandFrom env .text cs
  | .dollar, [] => ['$']
  | .dollar, c :: cs =>
    if c = '$' then '$' :: expandFrom env .dollar cs
    else if c = '\x7b' then expandFrom env (.braced []) cs
    else if startsName c then expandFrom env (.bare [c]) cs
    else '$' :: c :: expandFrom env .text cs
  | .braced name, [] => '$' :: '\x7b' :: name.reverse
  | .braced name, c :: cs =>
    if c = '\x7d' ∧ name ≠ [] then
      resolve env name ('$' :: '\x7b' :: name.reverse ++ ['\x7d']) ++ expandFrom env .text cs
    else if (if name = [] then startsName c else continuesName c) then
      expandFrom env (.braced (c :: name)) cs
    else
      '$' :: '\x7b' :: name.reverse ++
        (if c = '$' then expandFrom env .dollar cs else c :: expandFrom env .text cs)
  | .bare name, [] => resolve env name ('$' :: name.reverse)
  | .bare name, c :: cs =>
    if continuesName c then expandFrom env (.bare (c :: name)) cs
    else
      resolve env name ('$' :: name.reverse) ++
        (if c = '$' then expandFrom env .dollar cs else c :: expandFrom env .text cs)

/-- Replaces every reference to a known name by its value. -/
def expand (env : Environment) (s : String) : String :=
  String.ofList (expandFrom env .text s.toList)

end Environment

end DevMode
