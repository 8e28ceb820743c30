/-
# DevMode.Ignore.Rules -- ignore files

An ignore file has one rule a line (`readPatterns`).  Every rule is anchored at the
directory that holds the file (`anchor`): only `**` reaches deeper.  A `Ruleset`
judges a path by its nearest part that a rule matches, starting with the path itself
and climbing to its parents; of several rules that match, the last one counts, and a
rule with `!` takes back what earlier ones excluded.
-/
import DevMode.Ignore.Glob
import DevMode.LocalPath

namespace DevMode.Ignore

set_option autoImplicit false

/-! ## Rules -/

/-- A rule read from its pattern. -/
structure Rule where
  restores : Bool
  onlyDirs : Bool
  tokens : List GlobToken

/-- Why a rule is refused: its anchored pattern and what is wrong with it. -/
structure RuleError where
  glob : String
  cause : GlobError
  deriving DecidableEq, Repr

def RuleError.message (e : RuleError) : String :=
  "error parsing glob '" ++ e.glob ++ "': " ++ e.cause.message

/-- The anchored form of a pattern: one slash at its start, behind a `!` if it has
one. -/
def anchor (pattern : List Char) : List Char :=
  match pattern with
  | '!' :: rest => '!' :: '/' :: rest.dropWhile (· = '/')
  | pattern => '/' :: pattern.dropWhile (· = '/')

/-- The pattern without White_Space at its end, unless an escaped space is last. -/
def trimPattern (pattern : List Char) : List Char :=
  if ['\\', ' '].isSuffixOf pattern then pattern else Text.trimEnd Text.isBlank pattern

namespace Rule

/-- The glob of an anchored pattern, and whether it is for directories only: a slash
at the end says so, a backslash before it is dropped too, and `**` at the end means
what is below a directory and not the directory. -/
def globOf (body : List Char) : List Char × Bool :=
  let (glob, onlyDirs) :=
    if body.getLast? = some '/' then
      let rest := body.dropLast
      (if rest.getLast? = some '\\' then rest.dropLast else rest, true)
    else (body, false)
  (if ['/', '*', '*'].isSuffixOf glob then glob ++ ['/', '*'] else glob, onlyDirs)

/-- Reads a rule from a pattern that is anchored. -/
def ofAnchored (pattern : List Char) : Except RuleError Rule :=
  let line := trimPattern pattern
  let (restores, body) := match line with
    | '!' :: rest => (true, rest)
    | line => (false, line)
  let (glob, onlyDirs) := globOf (body.drop 1)
  match Glob.parse glob with
  | .ok tokens => .ok ⟨restores, onlyDirs, tokens⟩
  | .error e => .error ⟨String.ofList line, e⟩

def applies (r : Rule) (path : LocalPath) (isDir : Bool) : Bool :=
  (!r.onlyDirs || isDir) && Glob.accepts r.tokens path.chars

end Rule

/-! ## Rulesets -/

/-- Rules anchored at a directory, with the patterns they were read from. -/
structure Ruleset where
  root : LocalPath
  patterns : List String
  rules : List Rule

namespace Ruleset

/-- No rules: nothing is ignored. -/
def empty (root : LocalPath) : Ruleset := ⟨root, [], []⟩

def ofPatterns (root : LocalPath) (patterns : List String) : Except RuleError Ruleset := do
  let rules ← patterns.mapM fun p => Rule.ofAnchored (anchor p.toList)
  return ⟨root, patterns, rules⟩

/-- What the rules say of one path: excluded, taken back, or nothing. -/
def verdict? (rules : List Rule) (path : LocalPath) (isDir : Bool) : Option Bool :=
  (rules.reverse.find? (·.applies path isDir)).map fun r => !r.restores

def ancestors : Nat → LocalPath → List LocalPath
  | 0, _ => []
  | fuel + 1, p =>
    match p.parent? with
    | none => []
    | some q => q :: ancestors fuel q

/-- The path as the rules see it: without a leading `./`, and without the text of
their directory in front of it, should it begin with that too and have a slash. -/
def seenFrom (root path : LocalPath) : LocalPath :=
  let dropDot (cs : List Char) := (Text.after? ['.', '/'] cs).getD cs
  let chars := dropDot path.chars
  let anchor := dropDot root.chars
  if ¬ LocalPath.Same ⟨anchor⟩ ⟨['.']⟩ ∧ '/' ∈ chars then
    match Text.after? anchor chars with
    | some rest => ⟨(Text.after? ['/'] rest).getD rest⟩
    | none => ⟨chars⟩
  else ⟨chars⟩

/-- Whether the rules exclude a path below their directory. -/
def excludes (s : Ruleset) (rel : LocalPath) (isDir : Bool) : Bool :=
  if s.rules.isEmpty then false
  else
    let path := seenFrom s.root rel
    match verdict? s.rules path isDir with
    | some excluded => excluded
    | none =>
      ((ancestors path.chars.length path).findSome? (verdict? s.rules · true)).getD false

/-- Whether a path or one of its parents is excluded; paths outside the directory of
the rules never are. -/
def isIgnored (s : Ruleset) (path : LocalPath) (isDir : Bool) : Bool :=
  match path.relativeTo? s.root with
  | none => false
  | some rel => if rel.chars = [] then false else s.excludes rel isDir

end Ruleset

/-! ## Ignore files -/

/-- The patterns of an ignore file: a line each, without White_Space around it and
leading `./`; blank lines and those with `#` in front are left out. -/
def readPatterns (text : String) : List String :=
  (((Text.lines text.toList).map Text.trim).filter
    (fun l => !l.isEmpty && l.head? != some '#')).map
      fun l => String.ofList (Text.dropLeading ['.', '/'] l)

end DevMode.Ignore
