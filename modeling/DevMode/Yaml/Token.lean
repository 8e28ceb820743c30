/-
# DevMode.Yaml.Token -- the tokens of a YAML text

A text is read into tokens from left to right (`Token.ofText?`).  Two things are not
where they are written.  A mapping is only recognised at the colon behind its first
key, so the place of every scalar that might be a key is remembered (`KeySite`) and
the tokens in front of it are put in later.  And the end of a block is not written at
all: it is where a line is indented less than the block.
-/
import DevMode.Yaml.Folding

namespace DevMode.Yaml

set_option autoImplicit false

/-- A token.  Scalars are told apart only by whether they are plain. -/
inductive Token where
  | version (major minor : Nat)
  | tagDirective (handle expansion : List Char)
  | documentStart
  | documentEnd
  | blockSequenceStart
  | blockMappingStart
  | blockEnd
  | flowSequenceStart
  | flowSequenceEnd
  | flowMappingStart
  | flowMappingEnd
  | blockEntry
  | flowEntry
  | key
  | value
  | alias (name : List Char)
  | anchor (name : List Char)
  | tag (handle suffix : List Char)
  | scalar (plain : Bool) (text : List Char)
  | streamEnd
  deriving DecidableEq, Repr

namespace Token

/-! ## Directives, anchors and tags -/

def number? (c : Cursor) : Option (Nat × Cursor) :=
  let (digits, c) := c.span Char.isDigit
  if digits = [] ∨ 9 < digits.length then none
  else some (digits.foldl (fun n d => n * 10 + (d.toNat - '0'.toNat)) 0, c)

/-- A tag handle: a `!`, word characters, and a `!` again, which is optional where a
tag is used. -/
def tagHandle? (directive : Bool) (c : Cursor) : Option (List Char × Cursor) :=
  if !c.looksAt 0 '!' then none
  else
    let (word, c) := (c.skip 1).span isWord
    let handle := '!' :: word
    if c.looksAt 0 '!' then some (handle ++ ['!'], c.skip 1)
    else if directive ∧ handle ≠ ['!'] then none
    else some (handle, c)

/-- A character of an address; brackets and commas only where nothing else can be
meant by them. -/
def isUriChar (bracketsToo : Bool) (c : Char) : Bool :=
  isWord c || ";/?:@&=+$.!~*'()".toList.contains c || (bracketsToo && ",[]".toList.contains c)

/-- The bytes that escapes with a percent sign write from here on, for one character. -/
def uriEscape? (c : Cursor) : Option (List Char × Cursor) := do
  let byte? (c : Cursor) : Option (UInt8 × Cursor) :=
    match c.rest with
    | '%' :: a :: b :: _ => (Text.hexNumber? [a, b]).map fun n => (n.toUInt8, c.skip 3)
    | _ => none
  let (lead, c) ← byte? c
  let width := if lead < 0x80 then 1 else if 0xC0 ≤ lead ∧ lead < 0xE0 then 2
    else if 0xE0 ≤ lead ∧ lead < 0xF0 then 3 else if 0xF0 ≤ lead ∧ lead < 0xF8 then 4 else 0
  if width = 0 then none
  let (bytes, c) ← (List.range (width - 1)).foldlM (fun (bytes, c) _ => do
    let (b, c) ← byte? c
    if 0x80 ≤ b ∧ b < 0xC0 then some (bytes ++ [b], c) else none) ([lead], c)
  let text ← String.fromUTF8? ⟨bytes.toArray⟩
  return (text.toList, c)

/-- An address from here on. -/
def uriFrom (bracketsToo : Bool) : Nat → List Char → Cursor → Option (List Char × Cursor)
  | 0, _, _ => none
  | fuel + 1, text, c =>
    match c.rest with
    | '%' :: _ => do
      let (more, c) ← uriEscape? c
      uriFrom bracketsToo fuel (text ++ more) c
    | x :: _ =>
      if isUriChar bracketsToo x then uriFrom bracketsToo fuel (text ++ [x]) (c.skip 1)
      else some (text, c)
    | [] => some (text, c)

/-- An address; without a text before it, it has at least one character. -/
def uri? (bracketsToo : Bool) (before : List Char) (c : Cursor) : Option (List Char × Cursor) := do
  let (text, c) ← uriFrom bracketsToo (c.rest.length + 1) [] c
  if before = [] ∧ text = [] then none else return (before.drop 1 ++ text, c)

def directive? (c : Cursor) : Option (Token × Cursor) := do
  let (name, c) := (c.skip 1).span isWord
  if name = [] ∨ !c.clearAt 0 then none
  let blanks (c : Cursor) := c.skipWhile isBlank
  let (token, c) ←
    if name = ['Y', 'A', 'M', 'L'] then do
      let (major, c) ← number? (blanks c)
      if !c.looksAt 0 '.' then none
      let (minor, c) ← number? (c.skip 1)
      some (Token.version major minor, c)
    else if name = ['T', 'A', 'G'] then do
      let (handle, c) ← tagHandle? true (blanks c)
      if !c.holds 0 isBlank then none
      let (expansion, c) ← uri? true [] (blanks c)
      if !c.clearAt 0 then none
      some (Token.tagDirective handle expansion, c)
    else none
  let c := blanks c
  let c := if c.looksAt 0 '#' then c.skipLine else c
  if !c.atLineEnd then none
  return (token, c.lineEnd.2)

def anchorName? (c : Cursor) : Option (List Char × Cursor) :=
  let (name, c) := (c.skip 1).span isWord
  if name = [] then none
  else if c.clearAt 0 || c.holds 0 fun x => "?:,]\x7d%@\x60".toList.contains x then some (name, c)
  else none

def tag? (inFlow : Bool) (c : Cursor) : Option (Token × Cursor) := do
  let (handle, suffix, c) ←
    if c.looksAt 1 '<' then do
      let (suffix, c) ← uri? true [] (c.skip 2)
      if !c.looksAt 0 '>' then none
      some ([], suffix, c.skip 1)
    else do
      let (handle, c) ← tagHandle? false c
      if 1 < handle.length ∧ handle.getLast? = some '!' then
        let (suffix, c) ← uri? false [] c
        some (handle, suffix, c)
      else
        let (suffix, c) ← uri? false handle c
        some (if suffix = [] then ([], ['!'], c) else (['!'], suffix, c))
  if c.clearAt 0 || (inFlow && c.looksAt 0 ',') then return (.tag handle suffix, c) else none

end Token

/-! ## Reading -/

/-- Where a key might have started: the number of tokens before it, its place, and
whether there must be a key, since it stands where the keys of a block stand. -/
structure KeySite where
  number : Nat
  index : Nat
  line : Nat
  column : Nat
  required : Bool

/-- What has been read of a text: where the reader is, the tokens, the columns of the
open blocks from the inside out, for each bracket around (and for the text itself)
where its current key might have started, and whether a key may start here. -/
structure Lexer where
  at_ : Cursor
  tokens : Array Token
  blocks : List Nat
  sites : List (Option KeySite)
  keyAllowed : Bool

namespace Lexer

/-- The greatest distance from the start of a key to its colon. -/
def maxKey : Nat := 1024

def start (text : List Char) : Lexer := ⟨.start text, #[], [], [none], true⟩

def inFlow (l : Lexer) : Bool := 1 < l.sites.length

def emit (l : Lexer) (t : Token) (c : Cursor) : Lexer :=
  { l with tokens := l.tokens.push t, at_ := c }

/-- Whether the innermost block stands left of a column. -/
def indentedTo (l : Lexer) (column : Nat) : Bool :=
  match l.blocks with
  | [] => true
  | n :: _ => n < column

/-- Opens a block at a column right of the blocks around, its token going before token
`number`. -/
def openBlock (l : Lexer) (t : Token) (column number : Nat) : Lexer :=
  if l.inFlow || !l.indentedTo column then l
  else { l with blocks := column :: l.blocks, tokens := l.tokens.insertIdxIfInBounds number t }

/-- Closes the blocks right of a column; all of them if there is none. -/
def closeBlocks (l : Lexer) (column : Option Nat) : Lexer :=
  if l.inFlow then l
  else
    let closed := l.blocks.takeWhile fun n =>
      match column with
      | some column => column < n
      | none => true
    { l with
      blocks := l.blocks.drop closed.length
      tokens := closed.foldl (fun ts _ => ts.push .blockEnd) l.tokens }

/-- Gives up the key that might have started; one that is required must not be. -/
def dropKey (l : Lexer) : Option Lexer :=
  match l.sites with
  | some site :: rest => if site.required then none else some { l with sites := none :: rest }
  | _ => some l

/-- Remembers that a key might start here. -/
def saveKey (l : Lexer) : Option Lexer :=
  if !l.keyAllowed then some l
  else do
    let required := !l.inFlow && l.blocks.head? == some l.at_.column
    let l ← l.dropKey
    return { l with
      sites := some ⟨l.tokens.size, l.at_.index, l.at_.line, l.at_.column, required⟩ ::
        l.sites.tail }

/-- Gives up the keys that have become too long or are on an earlier line. -/
def expireKeys (l : Lexer) : Option Lexer := do
  let sites ← l.sites.mapM fun site =>
    match site with
    | none => some none
    | some k =>
      if k.line < l.at_.line ∨ k.index + maxKey < l.at_.index then
        (if k.required then none else some none)
      else some (some k)
  return { l with sites }

/-- Past blanks, comments and line ends to the next token. -/
def skipSpace : Nat → Lexer → Lexer
  | 0, l => l
  | fuel + 1, l =>
    let c := l.at_
    let c := if c.column = 0 && c.looksAt 0 byteOrderMark then c.skip 1 else c
    let tabs := l.inFlow || !l.keyAllowed
    let c := c.skipWhile fun x => x = ' ' || (tabs && x = '\t')
    let c := if c.looksAt 0 '#' then c.skipLine else c
    if c.holds 0 isBreak then
      skipSpace fuel { l with at_ := c.lineEnd.2, keyAllowed := l.keyAllowed || !l.inFlow }
    else { l with at_ := c }

/-- The end of the text, which starts a line of its own. -/
def endStream (l : Lexer) : Option Lexer := do
  let l ← (l.closeBlocks none).dropKey
  return l.emit .streamEnd l.at_

/-- A token that stands alone on its line. -/
def lineToken (l : Lexer) (t : Token) (c : Cursor) : Option Lexer := do
  let l ← (l.closeBlocks none).dropKey
  return { l.emit t c with keyAllowed := false }

def openFlow (l : Lexer) (t : Token) : Option Lexer := do
  let l ← l.saveKey
  return { l.emit t (l.at_.skip 1) with sites := none :: l.sites, keyAllowed := true }

def closeFlow (l : Lexer) (t : Token) : Option Lexer := do
  let l ← l.dropKey
  return { l.emit t (l.at_.skip 1) with
    sites := if l.inFlow then l.sites.tail else l.sites
    keyAllowed := false }

def flowEntry (l : Lexer) : Option Lexer := do
  let l ← l.dropKey
  return { l.emit .flowEntry (l.at_.skip 1) with keyAllowed := true }

def blockEntry (l : Lexer) : Option Lexer := do
  if !l.inFlow && !l.keyAllowed then none
  let l := l.openBlock .blockSequenceStart l.at_.column l.tokens.size
  let l ← l.dropKey
  return { l.emit .blockEntry (l.at_.skip 1) with keyAllowed := true }

def explicitKey (l : Lexer) : Option Lexer := do
  if !l.inFlow && !l.keyAllowed then none
  let l := l.openBlock .blockMappingStart l.at_.column l.tokens.size
  let l ← l.dropKey
  return { l.emit .key (l.at_.skip 1) with keyAllowed := !l.inFlow }

/-- A colon before a value: what might have been a key is one. -/
def value (l : Lexer) : Option Lexer := do
  match l.sites with
  | some k :: rest =>
    let l := { l with tokens := l.tokens.insertIdxIfInBounds k.number .key }
    let l := l.openBlock .blockMappingStart k.column k.number
    return { l.emit .value (l.at_.skip 1) with sites := none :: rest, keyAllowed := false }
  | _ =>
    if !l.inFlow && !l.keyAllowed then none
    let l := l.openBlock .blockMappingStart l.at_.column l.tokens.size
    return { l.emit .value (l.at_.skip 1) with keyAllowed := !l.inFlow }

/-- A token that a key may start with, read by `read`. -/
def keyToken (l : Lexer) (read : Cursor → Option (Token × Cursor)) : Option Lexer := do
  let l ← l.saveKey
  let (t, c) ← read l.at_
  return { l.emit t c with keyAllowed := false }

def blockScalar (l : Lexer) (literal : Bool) : Option Lexer := do
  let l ← l.dropKey
  let (text, c) ← Yaml.blockScalar literal l.blocks.head? l.at_
  return { l.emit (.scalar false text) c with keyAllowed := true }

/-- A plain scalar: if a line end follows it, a key may start there. -/
def plainScalar (l : Lexer) : Option Lexer := do
  let l ← l.saveKey
  let indent := match l.blocks with
    | [] => 0
    | n :: _ => n + 1
  let (text, broken, c) ← Yaml.plainScalar l.inFlow indent l.at_
  return { l.emit (.scalar true text) c with keyAllowed := broken }

/-- Whether a plain scalar may start with the character here. -/
def startsPlain (l : Lexer) : Bool :=
  match l.at_.rest with
  | [] => false
  | x :: _ =>
    if x = '-' then !l.at_.holds 1 isBlank
    else if x = '?' ∨ x = ':' then !l.inFlow && !l.at_.clearAt 1
    else !isBlank x && !isBreak x && !",[]\x7b\x7d#&*!|>'\"%@\x60".toList.contains x

/-- The token that starts here, the text not being at its end. -/
def token (l : Lexer) : Option Lexer :=
  let c := l.at_
  match c.rest with
  | [] => none
  | x :: _ =>
    if c.column = 0 ∧ x = '%' then do
      let l ← (l.closeBlocks none).dropKey
      let (t, c) ← Token.directive? l.at_
      return { l.emit t c with keyAllowed := false }
    else if c.atDocumentMark then
      l.lineToken (if x = '-' then .documentStart else .documentEnd) (c.skip 3)
    else if x = '[' then l.openFlow .flowSequenceStart
    else if x = '\x7b' then l.openFlow .flowMappingStart
    else if x = ']' then l.closeFlow .flowSequenceEnd
    else if x = '\x7d' then l.closeFlow .flowMappingEnd
    else if x = ',' then l.flowEntry
    else if x = '-' ∧ c.clearAt 1 then l.blockEntry
    else if x = '?' ∧ (l.inFlow || c.clearAt 1) then l.explicitKey
    else if x = ':' ∧ (l.inFlow || c.clearAt 1) then l.value
    else if x = '*' then
      l.keyToken fun c => (Token.anchorName? c).map fun (n, c) => (.alias n, c)
    else if x = '&' then
      l.keyToken fun c => (Token.anchorName? c).map fun (n, c) => (.anchor n, c)
    else if x = '!' then l.keyToken (Token.tag? l.inFlow)
    else if x = '|' ∧ !l.inFlow then l.blockScalar true
    else if x = '>' ∧ !l.inFlow then l.blockScalar false
    else if x = '\'' ∨ x = '"' then
      l.keyToken fun c => (quotedScalar x c).map fun (t, c) => (.scalar false t, c)
    else if l.startsPlain then l.plainScalar
    else none

def run : Nat → Lexer → Option Lexer
  | 0, _ => none
  | fuel + 1, l => do
    let l ← (l.skipSpace (l.at_.rest.length + 1)).expireKeys
    let l := l.closeBlocks (some l.at_.column)
    if l.at_.atEnd then l.endStream else run fuel (← l.token)

end Lexer

/-- The tokens of a text; `none` if the text is no YAML. -/
def Token.ofText? (text : List Char) : Option (List Token) :=
  let text := match text with
    | c :: rest => if c = byteOrderMark then rest else c :: rest
    | [] => []
  if text.all isAllowed then
    (Lexer.run (text.length + 2) (.start text)).map (·.tokens.toList)
  else none

end DevMode.Yaml
