/-
# DevMode.Yaml.Cursor -- a place in a YAML text

A `Cursor` is what is left of a text and where that is: how many characters, lines
and columns have been passed.  The classes of characters that the grammar of YAML
names stand here as well.
-/

namespace DevMode.Yaml

set_option autoImplicit false

/-! ## Characters -/

def isBreak (c : Char) : Bool :=
  c = '\n' || c = '\r' || c = '\x85' || c = '\u2028' || c = '\u2029'

def isBlank (c : Char) : Bool := c = ' ' || c = '\t'

/-- A character that anchors, tag handles and directive names are made of. -/
def isWord (c : Char) : Bool := c.isAlphanum || c = '_' || c = '-'

/-- A character that may stand in a YAML text. -/
def isAllowed (c : Char) : Bool :=
  let n := c.toNat
  n = 0x09 || n = 0x0A || n = 0x0D || (0x20 ≤ n && n ≤ 0x7E) || n = 0x85 ||
    (0xA0 ≤ n && n ≤ 0xFFFD) || 0x10000 ≤ n

/-- A mark at the start of a text that tells its encoding. -/
def byteOrderMark : Char := '\uFEFF'

/-! ## Places -/

/-- What is left of a text, and how much of it has been passed. -/
structure Cursor where
  rest : List Char
  index : Nat
  line : Nat
  column : Nat

namespace Cursor

def start (text : List Char) : Cursor := ⟨text, 0, 0, 0⟩

/-- The character `n` places ahead, if the text goes so far. -/
def peek? (c : Cursor) (n : Nat) : Option Char := c.rest[n]?

def looksAt (c : Cursor) (n : Nat) (x : Char) : Bool := c.peek? n == some x

def atEnd (c : Cursor) : Bool := c.rest.isEmpty

/-- Whether a character of the class stands `n` places ahead. -/
def holds (c : Cursor) (n : Nat) (p : Char → Bool) : Bool :=
  match c.peek? n with
  | some x => p x
  | none => false

/-- Whether a blank, a line end or the end of the text is `n` places ahead. -/
def clearAt (c : Cursor) (n : Nat) : Bool :=
  match c.peek? n with
  | some x => isBlank x || isBreak x
  | none => true

def atLineEnd (c : Cursor) : Bool :=
  match c.rest with
  | [] => true
  | x :: _ => isBreak x

def skip (c : Cursor) (n : Nat) : Cursor :=
  ⟨c.rest.drop n, c.index + n, c.line, c.column + n⟩

/-- The characters of a class from here on, and the place behind them. -/
def span (c : Cursor) (p : Char → Bool) : List Char × Cursor :=
  let text := c.rest.takeWhile p
  (text, c.skip text.length)

def skipWhile (c : Cursor) (p : Char → Bool) : Cursor := (c.span p).2

def skipLine (c : Cursor) : Cursor := c.skipWhile fun x => !isBreak x

/-- Past a line end if there is one, and how it reads: a line feed, or the separator
that it is. -/
def lineEnd (c : Cursor) : List Char × Cursor :=
  match c.rest with
  | '\r' :: '\n' :: rest => (['\n'], ⟨rest, c.index + 2, c.line + 1, 0⟩)
  | x :: rest =>
    if isBreak x then
      ([if x = '\u2028' ∨ x = '\u2029' then x else '\n'], ⟨rest, c.index + 1, c.line + 1, 0⟩)
    else ([], c)
  | [] => ([], c)

/-- Whether three dashes or three dots stand alone at the start of a line here. -/
def atDocumentMark (c : Cursor) : Bool :=
  c.column = 0 && c.clearAt 3 &&
    (['-', '-', '-'].isPrefixOf c.rest || ['.', '.', '.'].isPrefixOf c.rest)

end Cursor

end DevMode.Yaml
