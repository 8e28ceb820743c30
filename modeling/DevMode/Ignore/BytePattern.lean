/-
# DevMode.Ignore.BytePattern -- patterns over bytes

Regular patterns over bytes, and a matcher that reads a text byte by byte.  What a
pattern leaves to be matched after a byte is a list of patterns (`residues`), one of
which has to match the rest; a text is matched by keeping all that are still open.
-/

namespace DevMode.Ignore

set_option autoImplicit false

/-- A set of bytes: those in one of the ranges, or those in none of them. -/
structure ByteSet where
  negated : Bool
  ranges : List (UInt8 × UInt8)
  deriving DecidableEq

namespace ByteSet

def contains (s : ByteSet) (b : UInt8) : Bool :=
  (s.ranges.any fun r => r.1 ≤ b && b ≤ r.2) != s.negated

def all : ByteSet := ⟨true, []⟩

def notSlash : ByteSet := ⟨true, [(0x2F, 0x2F)]⟩

def one (b : UInt8) : ByteSet := ⟨false, [(b, b)]⟩

end ByteSet

/-- A regular pattern over bytes. -/
inductive BytePattern where
  | empty
  | byte (set : ByteSet)
  | seq (p q : BytePattern)
  | alt (p q : BytePattern)
  | star (p : BytePattern)
  deriving DecidableEq

namespace BytePattern

/-- What a pattern matches. -/
inductive Matches : BytePattern → List UInt8 → Prop
  | empty : Matches .empty []
  | byte {s : ByteSet} {b : UInt8} : s.contains b = true → Matches (.byte s) [b]
  | seq {p q : BytePattern} {x y : List UInt8} :
      Matches p x → Matches q y → Matches (.seq p q) (x ++ y)
  | altLeft {p q : BytePattern} {x : List UInt8} : Matches p x → Matches (.alt p q) x
  | altRight {p q : BytePattern} {x : List UInt8} : Matches q x → Matches (.alt p q) x
  | starNil {p : BytePattern} : Matches (.star p) []
  | starMore {p : BytePattern} {x y : List UInt8} :
      Matches p x → Matches (.star p) y → Matches (.star p) (x ++ y)

/-- Whether a pattern matches the empty text. -/
def nullable : BytePattern → Bool
  | empty => true
  | byte _ => false
  | seq p q => p.nullable && q.nullable
  | alt p q => p.nullable || q.nullable
  | star _ => true

def andThen (p q : BytePattern) : BytePattern :=
  match p with
  | .empty => q
  | p => .seq p q

/-- The patterns one of which has to match what follows the byte. -/
def residues (b : UInt8) : BytePattern → List BytePattern
  | empty => []
  | byte s => if s.contains b then [.empty] else []
  | seq p q =>
    (p.residues b).map (·.andThen q) ++ (if p.nullable then q.residues b else [])
  | alt p q => p.residues b ++ q.residues b
  | star p => (p.residues b).map (·.andThen (.star p))

/-- Whether one of the open patterns matches the text. -/
def acceptsAny (open_ : List BytePattern) (text : List UInt8) : Bool :=
  (text.foldl (fun ps b => (ps.flatMap (residues b)).eraseDups) open_).any nullable

def accepts (p : BytePattern) (text : List UInt8) : Bool := acceptsAny [p] text

/-- Some patterns one after another. -/
def inOrder (ps : List BytePattern) : BytePattern := ps.foldr .seq .empty

/-- One of some patterns, or the empty text if there are none. -/
def oneOf : List BytePattern → BytePattern
  | [] => .empty
  | [p] => p
  | p :: q :: ps => .alt p (oneOf (q :: ps))

def exactly (bytes : List UInt8) : BytePattern := inOrder (bytes.map fun b => .byte (.one b))

end BytePattern

end DevMode.Ignore
