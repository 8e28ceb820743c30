/-
# DevMode.Markup -- marked-up messages and terminal colours

A message may mark a directory, a service or an error by a pair of tags.  It is
read as a list of characters and tags (`tokens`), and printing the tokens gives it
back (`written_tokens`).  An opening tag reaches to the nearest closing tag of any
kind on its line; without one it is plain text.

A `Paint` wraps text in its start sequence and the reset sequence.  Since a reset
inside the text would end the paint early, the start sequence follows each of them
again (`Paint.reopen`).
-/
import DevMode.Text.Cut

namespace DevMode

set_option autoImplicit false

/-! ## Paint -/

/-- A way to show text on a terminal, given by its SGR code. -/
inductive Paint where
  | bold
  | dimmed
  | red
  | green
  | yellow
  | blue
  | magenta
  | cyan
  | white
  | brightBlue
  deriving DecidableEq, Repr

namespace Paint

def code : Paint → String
  | bold => "1"
  | dimmed => "2"
  | red => "31"
  | green => "32"
  | yellow => "33"
  | blue => "34"
  | magenta => "35"
  | cyan => "36"
  | white => "37"
  | brightBlue => "94"

def reset : List Char := ['\x1b', '[', '0', 'm']

def start (p : Paint) : List Char := '\x1b' :: '[' :: p.code.toList ++ ['m']

/-- The text with the start sequence behind each reset in it. -/
def reopen (p : Paint) : List Char → List Char
  | '\x1b' :: '[' :: '0' :: 'm' :: rest => reset ++ p.start ++ reopen p rest
  | c :: rest => c :: reopen p rest
  | [] => []

def apply (p : Paint) (text : List Char) : List Char := p.start ++ p.reopen text ++ reset

end Paint

/-! ## Tags -/

namespace Markup

/-- What a marked part of a message names. -/
inductive Mark where
  | dir
  | service
  | error
  deriving DecidableEq, Repr

def Mark.paint : Mark → Paint
  | .dir => .cyan
  | .service => .bold
  | .error => .red

def Mark.name : Mark → List Char
  | .dir => ['d', 'i', 'r']
  | .service => ['s', 'e', 'r', 'v', 'i', 'c', 'e']
  | .error => ['e', 'r', 'r', 'o', 'r']

/-- A part of a message. -/
inductive Token where
  | opening (mark : Mark)
  | closing (mark : Mark)
  | char (c : Char)
  deriving DecidableEq, Repr

def Token.written : Token → List Char
  | .opening m => '<' :: m.name ++ ['>']
  | .closing m => '<' :: '/' :: m.name ++ ['>']
  | .char c => [c]

def tokens : List Char → List Token
  | '<' :: 'd' :: 'i' :: 'r' :: '>' :: rest => .opening .dir :: tokens rest
  | '<' :: 's' :: 'e' :: 'r' :: 'v' :: 'i' :: 'c' :: 'e' :: '>' :: rest =>
    .opening .service :: tokens rest
  | '<' :: 'e' :: 'r' :: 'r' :: 'o' :: 'r' :: '>' :: rest => .opening .error :: tokens rest
  | '<' :: '/' :: 'd' :: 'i' :: 'r' :: '>' :: rest => .closing .dir :: tokens rest
  | '<' :: '/' :: 's' :: 'e' :: 'r' :: 'v' :: 'i' :: 'c' :: 'e' :: '>' :: rest =>
    .closing .service :: tokens rest
  | '<' :: '/' :: 'e' :: 'r' :: 'r' :: 'o' :: 'r' :: '>' :: rest => .closing .error :: tokens rest
  | c :: rest => .char c :: tokens rest
  | [] => []

def written (ts : List Token) : List Char := ts.flatMap Token.written

theorem written_tokens (cs : List Char) : written (tokens cs) = cs := by
  fun_induction tokens cs <;> simp_all [written, Token.written, Mark.name]

/-- The characters up to the nearest closing tag on the line, and what follows
that tag. -/
def body? : List Token → Option (List Char × List Token)
  | [] => none
  | .closing _ :: rest => some ([], rest)
  | .char c :: rest =>
    if c = '\n' then none else (body? rest).map fun (text, rest) => (c :: text, rest)
  | t@(.opening _) :: rest => (body? rest).map fun (text, rest) => (t.written ++ text, rest)

theorem length_of_body? {ts rest : List Token} {text : List Char}
    (h : body? ts = some (text, rest)) : rest.length < ts.length := by
  induction ts generalizing text with
  | nil => simp [body?] at h
  | cons t ts ih =>
    cases t with
    | closing m => simp [body?] at h; simp [h.2]
    | char c =>
      simp only [body?] at h
      split at h
      · simp at h
      · simp only [Option.map_eq_some_iff, Prod.mk.injEq, Prod.exists] at h
        obtain ⟨_, _, h, _, rfl⟩ := h
        have := ih h
        simp only [List.length_cons]; omega
    | opening m =>
      simp only [body?, Option.map_eq_some_iff, Prod.mk.injEq, Prod.exists] at h
      obtain ⟨_, _, h, _, rfl⟩ := h
      have := ih h
      simp only [List.length_cons]; omega

/-- The message with each marked part shown by `display` and its tags left out. -/
def renderTokens (display : Mark → List Char → List Char) : List Token → List Char
  | [] => []
  | .opening m :: rest =>
    match _h : body? rest with
    | some (text, rest) => display m text ++ renderTokens display rest
    | none => Token.written (.opening m) ++ renderTokens display rest
  | t :: rest => t.written ++ renderTokens display rest
termination_by ts => ts.length
decreasing_by
  all_goals simp_wf
  have := length_of_body? _h
  omega

/-- How a marked part is shown: painted, or as it is. -/
def display (color : Bool) (m : Mark) (text : List Char) : List Char :=
  if color then m.paint.apply text else text

/-- A message for the terminal, its marked parts painted if `color` is on. -/
def render (color : Bool) (message : String) : String :=
  String.ofList (renderTokens (display color) (tokens message.toList))

end Markup

end DevMode
