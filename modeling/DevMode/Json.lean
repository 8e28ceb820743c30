/-
# DevMode.Json -- values in JSON text

`Json.compact` writes a value without spaces.  `Json.readStrings?` reads the one form of
text that is read here: a list of strings, or `null` for none.
-/
import DevMode.Text.Cut
import DevMode.Text.Hex

namespace DevMode

set_option autoImplicit false

/-- A value.  A number is kept as it is written, and an object keeps the order of its
members. -/
inductive Json where
  | null
  | bool (value : Bool)
  | number (text : String)
  | string (text : String)
  | array (items : List Json)
  | object (members : List (String × Json))
  deriving Inhabited

namespace Json

/-! ## Writing -/

/-- The four digits of a character below 65536. -/
def hexQuad (n : Nat) : List Char :=
  [n / 4096 % 16, n / 256 % 16, n / 16 % 16, n % 16].map Nat.digitChar

/-- How a character stands between quotes. -/
def escape (c : Char) : List Char :=
  if c = '"' then ['\\', '"']
  else if c = '\\' then ['\\', '\\']
  else if c = '\n' then ['\\', 'n']
  else if c = '\r' then ['\\', 'r']
  else if c = '\t' then ['\\', 't']
  else if c = '\x08' then ['\\', 'b']
  else if c = '\x0c' then ['\\', 'f']
  else if c.toNat < 0x20 then '\\' :: 'u' :: hexQuad c.toNat
  else [c]

def quote (s : String) : String := String.ofList ('"' :: s.toList.flatMap escape ++ ['"'])

mutual

def compact : Json → String
  | null => "null"
  | bool true => "true"
  | bool false => "false"
  | number text => text
  | string text => quote text
  | array items => "[" ++ compactItems items ++ "]"
  | object members => "\x7b" ++ compactMembers members ++ "\x7d"

def compactItems : List Json → String
  | [] => ""
  | [j] => compact j
  | j :: js => compact j ++ "," ++ compactItems js

def compactMembers : List (String × Json) → String
  | [] => ""
  | [(k, j)] => quote k ++ ":" ++ compact j
  | (k, j) :: rest => quote k ++ ":" ++ compact j ++ "," ++ compactMembers rest

end

/-! ## Reading lists of strings -/

/-- Whether a character may stand between values. -/
def isSpace (c : Char) : Bool := c = ' ' || c = '\n' || c = '\r' || c = '\t'

def skipSpace (s : List Char) : List Char := s.dropWhile isSpace

/-- The number of four hexadecimal digits, and the text behind them. -/
def quad? (s : List Char) : Option (Nat × List Char) :=
  if (s.take 4).length = 4 then (Text.hexNumber? (s.take 4)).map fun n => (n, s.drop 4) else none

/-- The character of an escape with a number, after its `u`.  One beyond 65535 takes two
numbers, and half of such a pair is refused. -/
def unicodeEscape? (s : List Char) : Option (Char × List Char) := do
  let (high, s) ← quad? s
  if 0xDC00 ≤ high ∧ high ≤ 0xDFFF then none
  else if 0xD800 ≤ high ∧ high ≤ 0xDBFF then
    let s ← Text.after? ['\\', 'u'] s
    let (low, s) ← quad? s
    if 0xDC00 ≤ low ∧ low ≤ 0xDFFF then
      some (Char.ofNat (0x10000 + (high - 0xD800) * 0x400 + (low - 0xDC00)), s)
    else none
  else some (Char.ofNat high, s)

/-- The character of an escape, after its backslash. -/
def escape? : List Char → Option (Char × List Char)
  | '"' :: s => some ('"', s)
  | '\\' :: s => some ('\\', s)
  | '/' :: s => some ('/', s)
  | 'b' :: s => some ('\x08', s)
  | 'f' :: s => some ('\x0c', s)
  | 'n' :: s => some ('\n', s)
  | 'r' :: s => some ('\r', s)
  | 't' :: s => some ('\t', s)
  | 'u' :: s => unicodeEscape? s
  | _ => none

/-- The string that ends at the next quote, and the text behind it.  The text is longer
than its fuel. -/
def stringFrom? : Nat → List Char → List Char → Option (String × List Char)
  | 0, _, _ => none
  | _ + 1, _, [] => none
  | fuel + 1, out, c :: s =>
    if c = '"' then some (String.ofList out.reverse, s)
    else if c = '\\' then (escape? s).bind fun (x, s) => stringFrom? fuel (x :: out) s
    else if c.toNat < 0x20 then none
    else stringFrom? fuel (c :: out) s

/-- A string at the start of a text, and the text behind it. -/
def string? (s : List Char) : Option (String × List Char) :=
  (Text.after? ['"'] s).bind fun s => stringFrom? s.length [] s

/-- The strings of a list from one of them on, and the text behind the list. -/
def stringsFrom? : Nat → List String → List Char → Option (List String × List Char)
  | 0, _, _ => none
  | fuel + 1, out, s => do
    let (x, s) ← string? (skipSpace s)
    match skipSpace s with
    | ',' :: s => stringsFrom? fuel (x :: out) s
    | ']' :: s => some ((x :: out).reverse, s)
    | _ => none

/-- A list of strings at the start of a text, and the text behind it. -/
def strings? (s : List Char) : Option (List String × List Char) := do
  let s ← Text.after? ['['] s
  match skipSpace s with
  | ']' :: s => some ([], s)
  | _ => stringsFrom? s.length [] s

/-- The strings of a text that holds a list of them and nothing else, or `null`. -/
def readStrings? (text : String) : Option (List String) := do
  let s := skipSpace text.toList
  let (out, s) ← match Text.after? "null".toList s with
    | some s => some ([], s)
    | none => strings? s
  if skipSpace s = [] then some out else none

end Json

end DevMode
