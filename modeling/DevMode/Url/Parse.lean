/-
# DevMode.Url.Parse -- the parts of a URL

`Url.parse` cuts a text as browsers do: spaces and control characters around it, tabs and
line ends in it mean nothing; after a well-known scheme any number of slashes and
backslashes may stand before the host, and a backslash is a slash; dots in the path are
resolved.  A query and a fragment are not kept.
-/
import DevMode.Url.Host

namespace DevMode

set_option autoImplicit false

/-- The parts of a URL, in the form in which they stand in it.  The user name is empty if
there is none, and an empty password is none. -/
structure Url where
  scheme : List Char
  username : List Char
  password : Option (List Char)
  host : Option Host
  port : Option Nat
  path : List Char
  deriving DecidableEq, Repr

namespace Url

/-! ## Schemes -/

/-- The well-known schemes with their ports. -/
def wellKnown : List (String × Option Nat) :=
  [("http", some 80), ("https", some 443), ("ws", some 80), ("wss", some 443), ("ftp", some 21),
    ("file", none)]

def isSpecial (scheme : List Char) : Bool := (wellKnown.lookup (String.ofList scheme)).isSome

def defaultPort? (scheme : List Char) : Option Nat :=
  (wellKnown.lookup (String.ofList scheme)).bind id

/-- The text that counts. -/
def prepare (s : List Char) : List Char :=
  (Text.trimEnd (· ≤ ' ') (Text.trimStart (· ≤ ' ') s)).filter
    fun c => !(['\t', '\n', '\r'].contains c)

/-- The scheme in small letters, and what follows its colon. -/
def scheme? (s : List Char) : Option (List Char × List Char) :=
  let isInner (c : Char) := c.isAlphanum || c = '+' || c = '-' || c = '.'
  match s.head?, s.dropWhile isInner with
  | some c, ':' :: rest => if c.isAlpha then some (Text.asciiLower (s.takeWhile isInner), rest) else none
  | _, _ => none

/-! ## The authority -/

/-- Whether a character ends the part before the path. -/
def endsAuthority (special : Bool) (c : Char) : Bool :=
  c = '/' || c = '?' || c = '#' || (special && c = '\\')

/-- The text before the last `@` and the text behind it. -/
def splitUserInfo? (s : List Char) : Option (List Char × List Char) :=
  (Text.splitOnce? '@' s.reverse).map fun (host, user) => (user.reverse, host.reverse)

/-- The user name and the password, encoded. -/
def userInfo (s : List Char) : List Char × Option (List Char) :=
  let name := encode encodedInUserInfo (s.takeWhile (· ≠ ':'))
  match s.dropWhile (· ≠ ':') with
  | _ :: p :: ps => (name, some (encode encodedInUserInfo (p :: ps)))
  | _ => (name, none)

/-- The text up to a colon that does not stand between brackets, and the rest. -/
def splitHost : Bool → List Char → List Char × List Char
  | _, [] => ([], [])
  | inside, c :: s =>
    if c = ':' ∧ inside = false then ([], c :: s)
    else
      let (host, rest) := splitHost (if c = '[' then true else if c = ']' then false else inside) s
      (c :: host, rest)

def portOf (digits : List Char) : Except UrlError Nat :=
  let n := digits.foldl (fun n c => n * 10 + (c.toNat - 48)) 0
  if 65535 < n then .error .badPort else .ok n

/-- The port behind the colon, unless it goes without saying.  A backslash ends it after
any scheme. -/
def port? (scheme s : List Char) : Except UrlError (Option Nat × List Char) := do
  let digits := s.takeWhile Char.isDigit
  let rest := s.drop digits.length
  let n ← portOf digits
  if rest ≠ [] ∧ rest.head? ≠ some '\\' then .error .badPort
  else if digits = [] ∨ defaultPort? scheme = some n then return (none, rest)
  else return (some n, rest)

/-! ## The path -/

def isDot (s : List Char) : Bool := ["." , "%2e"].contains (String.ofList (Text.asciiLower s))

def isDotDot (s : List Char) : Bool :=
  ["..", "%2e%2e", "%2e.", ".%2e"].contains (String.ofList (Text.asciiLower s))

/-- Whether a segment names a drive, which no `..` leaves. -/
def isDrive : List Char → Bool
  | [c, d] => c.isAlpha && (d = ':' || d = '|')
  | _ => false

def dropSegment (segments : List (List Char)) : List (List Char) :=
  match segments.getLast? with
  | some s => if isDrive s then segments else segments.dropLast
  | none => []

/-- The segments of a path after one more of them, which a slash follows. -/
def pathStep (segments : List (List Char)) (s : List Char) : List (List Char) :=
  if isDotDot s then dropSegment segments
  else if isDot s then segments
  else segments ++ [s]

/-- The segments of a path after its last one, the dots of which leave an empty one. -/
def pathEnd (segments : List (List Char)) (s : List Char) : List (List Char) :=
  if isDotDot s then dropSegment segments ++ [[]]
  else if isDot s then segments ++ [[]]
  else segments ++ [s]

def segments (special : Bool) (s : List Char) : List (List Char) :=
  (Text.pieces '/' (if special then s.map fun c => if c = '\\' then '/' else c else s)).map
    (encode encodedInPath)

/-- The path whose text behind its first slash is `s`. -/
def pathFrom (special : Bool) (s : List Char) : List Char :=
  let all := segments special s
  '/' :: Text.glue '/' (pathEnd (all.dropLast.foldl pathStep []) (all.getLast?.getD []))

/-- The path of a URL with a host. -/
def pathAfterHost (special : Bool) (s : List Char) : List Char :=
  match s with
  | [] => if special then ['/'] else []
  | c :: rest => pathFrom special (if c = '/' ∨ (special ∧ c = '\\') then rest else c :: rest)

/-! ## Whole URLs -/

/-- What stands before a query and a fragment. -/
def beforeQuery (s : List Char) : List Char := s.takeWhile fun c => c ≠ '?' && c ≠ '#'

/-- The URL whose text behind the slashes in front of the host is `s`. -/
def afterSlashes (scheme s : List Char) : Except UrlError Url := do
  let special := isSpecial scheme
  let authority := s.takeWhile (!endsAuthority special ·)
  let rest := s.drop authority.length
  let (user, hostAndPort) := (splitUserInfo? authority).getD ([], authority)
  if user = [] ∧ authority.head? = some '@' ∧ hostAndPort = [] ∧ rest ≠ [] then .error .emptyHost
  else
    let (username, password) := userInfo user
    let (hostText, portText) := splitHost false hostAndPort
    if special ∧ hostText = [] then .error .emptyHost
    else
      let host ← if special then Host.parse hostText else Host.parseOpaque hostText
      let host := if host = .name [] then none else some host
      if host = none ∧ (portText ≠ [] ∨ username ≠ [] ∨ password ≠ none) then .error .emptyHost
      else
        let (port, left) ← match portText with
          | _ :: digits => port? scheme digits
          | [] => .ok (none, [])
        return ⟨scheme, username, password, host, port,
          pathAfterHost special (left ++ beforeQuery rest)⟩

/-- The URL of a file, whose host is left out if it is this machine. -/
def fileUrl (s : List Char) : Except UrlError Url := do
  let isSlash (c : Char) : Bool := c = '/' || c = '\\'
  let rooted (host : Option Host) (path : List Char) : Url :=
    ⟨"file".toList, [], none, host, none, '/' :: (pathFrom true path).dropWhile (· = '/')⟩
  let s := beforeQuery s
  if (s.take 2).all isSlash ∧ 2 ≤ s.length then
    let hostText := (s.drop 2).takeWhile (!isSlash ·)
    if hostText = [] ∨ isDrive hostText then return rooted none (s.drop 2)
    else
      let host ← Host.parse hostText
      let path := s.drop (2 + hostText.length)
      return rooted (if host = .name "localhost".toList then none else some host) path
  else return rooted none s

def parse (text : String) : Except UrlError Url :=
  match scheme? (prepare text.toList) with
  | none => .error .noScheme
  | some (scheme, s) =>
    if scheme = "file".toList then fileUrl s
    else if isSpecial scheme then
      afterSlashes scheme (s.dropWhile fun c => c = '/' || c = '\\')
    else
      match s with
      | '/' :: '/' :: rest => afterSlashes scheme rest
      | '/' :: rest => .ok ⟨scheme, [], none, none, none, pathFrom false (beforeQuery rest)⟩
      | _ => .ok ⟨scheme, [], none, none, none, encode isControl (beforeQuery s)⟩

end Url

end DevMode
