/-
# DevMode.Yaml.Node -- the nodes of a YAML document

The tokens of a text make up one document at most: a tree of scalars, sequences and
mappings, in which an alias stands for a node with an anchor (`Document.ofText?`).

An anchor is known by a number, which is how many names of anchors there have been
before it.  A name that is given anew gets a new number, and the number after it may
then be taken twice; the last node with a number is the one that its aliases mean.
-/
import DevMode.Yaml.Token

namespace DevMode.Yaml

set_option autoImplicit false

/-- A node, with its tag if it has one.  Scalars are told apart by whether they are
plain. -/
inductive Node where
  | alias (anchor : Nat)
  | scalar (tag : Option String) (plain : Bool) (text : String)
  | sequence (tag : Option String) (items : List Node)
  | mapping (tag : Option String) (entries : List (Node × Node))

/-- A document: its root, if there is one, and the nodes that aliases mean. -/
structure Document where
  root : Option Node
  anchored : List (Nat × Node)

namespace Node

/-- A scalar that is not written at all. -/
def unwritten : Node := .scalar none true ""

mutual

/-- How many events tell of a node: one of a scalar or an alias, and of a sequence or a
mapping those of its parts with its start and its end. -/
def events : Node → Nat
  | .alias _ => 1
  | .scalar .. => 1
  | .sequence _ items => itemEvents items + 2
  | .mapping _ entries => entryEvents entries + 2

def itemEvents : List Node → Nat
  | [] => 0
  | n :: rest => n.events + itemEvents rest

def entryEvents : List (Node × Node) → Nat
  | [] => 0
  | (k, v) :: rest => k.events + v.events + entryEvents rest

end

end Node

/-- How many events tell of a document. -/
def Document.events (d : Document) : Nat :=
  match d.root with
  | some n => n.events
  | none => 1

/-! ## Building -/

/-- What is known while a document is built: the expansions of tag handles, the
numbers of anchor names, for each number the latest anchor of it, each anchor's node
once it is complete, and how many anchors there have been. -/
structure Builder where
  handles : List (List Char × List Char)
  names : List (List Char × Nat)
  owners : List (Nat × Nat)
  complete : List (Nat × Node)
  anchors : Nat

namespace Builder

/-- The handles that need no directive. -/
def usualHandles : List (List Char × List Char) :=
  [(['!'], ['!']), (['!', '!'], "tag:yaml.org,2002:".toList)]

def start (handles : List (List Char × List Char)) : Builder :=
  ⟨handles ++ usualHandles, [], [], [], 0⟩

def anchor (b : Builder) (name : Option (List Char)) : Builder :=
  match name with
  | none => b
  | some name =>
    let number := b.names.length
    { b with
      names := (name, number) :: b.names.filter fun x => x.1 ≠ name
      owners := (number, b.anchors) :: b.owners
      anchors := b.anchors + 1 }

/-- Notes the node of the anchor that was noted as number `before`. -/
def finish (b : Builder) (name : Option (List Char)) (before : Nat) (n : Node) : Builder :=
  match name with
  | none => b
  | some _ => { b with complete := (before, n) :: b.complete }

/-- The tag that a handle and a suffix write. -/
def tag? (b : Builder) (handle suffix : List Char) : Option String :=
  if handle = [] then some (String.ofList suffix)
  else (b.handles.lookup handle).map fun expansion => String.ofList (expansion ++ suffix)

def document (b : Builder) (root : Option Node) : Document :=
  ⟨root, b.owners.filterMap fun (number, which) =>
    (b.complete.lookup which).map fun n => (number, n)⟩

end Builder

def properties? (b : Builder) (ts : List Token) :
    Option (Option (List Char) × Option String × List Token) :=
  match ts with
  | .anchor a :: .tag h s :: rest => (b.tag? h s).map fun t => (some a, some t, rest)
  | .anchor a :: rest => some (some a, none, rest)
  | .tag h s :: .anchor a :: rest => (b.tag? h s).map fun t => (some a, some t, rest)
  | .tag h s :: rest => (b.tag? h s).map fun t => (none, some t, rest)
  | rest => some (none, none, rest)

/-- Whether one of some tokens comes next. -/
def nextIs (ts : List Token) (ends : List Token) : Bool :=
  match ts with
  | [] => true
  | t :: _ => ends.contains t

mutual

/-- A node.  In `block` context it may be a block, and where `entries` is set its
entries need not be indented. -/
def node? (block entries : Bool) : Nat → Builder → List Token → Option (Node × Builder × List Token)
  | 0, _, _ => none
  | fuel + 1, b, ts =>
    match ts with
    | .alias name :: rest => do
      let number ← b.names.lookup name
      return (.alias number, b, rest)
    | ts => do
      let (name, tag, ts) ← properties? b ts
      let which := b.anchors
      let b := b.anchor name
      let done (n : Node) (b : Builder) (ts : List Token) :=
        (n, b.finish name which n, ts)
      match ts with
      | .scalar plain text :: rest =>
        let (plain, tag) := if tag = some "!" then (true, none) else (plain, tag)
        return done (.scalar tag plain (String.ofList text)) b rest
      | .flowSequenceStart :: rest =>
        let (items, b, ts) ← flowItems true fuel b rest
        return done (.sequence tag items) b ts
      | .flowMappingStart :: rest =>
        let (kvs, b, ts) ← flowEntries true fuel b rest
        return done (.mapping tag kvs) b ts
      | t :: rest =>
        if entries ∧ t = .blockEntry then
          let (items, b, ts) ← looseItems fuel b ts
          return done (.sequence tag items) b ts
        else if block ∧ t = .blockSequenceStart then
          let (items, b, ts) ← blockItems fuel b rest
          return done (.sequence tag items) b ts
        else if block ∧ t = .blockMappingStart then
          let (kvs, b, ts) ← blockEntries fuel b rest
          return done (.mapping tag kvs) b ts
        else if name.isSome ∨ tag.isSome then return done (.scalar tag true "") b ts
        else none
      | [] => none

/-- A node, unless one of `ends` comes next: then nothing is written. -/
def nodeOr (block entries : Bool) (ends : List Token) :
    Nat → Builder → List Token → Option (Node × Builder × List Token)
  | 0, _, _ => none
  | fuel + 1, b, ts =>
    if nextIs ts ends then some (.unwritten, b, ts) else node? block entries fuel b ts

/-- The entries of a block sequence, and its end. -/
def blockItems : Nat → Builder → List Token → Option (List Node × Builder × List Token)
  | 0, _, _ => none
  | fuel + 1, b, ts =>
    match ts with
    | .blockEntry :: rest => do
      let (n, b, ts) ← nodeOr true false [.blockEntry, .blockEnd] fuel b rest
      let (ns, b, ts) ← blockItems fuel b ts
      return (n :: ns, b, ts)
    | .blockEnd :: rest => some ([], b, rest)
    | _ => none

/-- The entries of a sequence that is not indented. -/
def looseItems : Nat → Builder → List Token → Option (List Node × Builder × List Token)
  | 0, _, _ => none
  | fuel + 1, b, ts =>
    match ts with
    | .blockEntry :: rest => do
      let (n, b, ts) ← nodeOr true false [.blockEntry, .key, .value, .blockEnd] fuel b rest
      let (ns, b, ts) ← looseItems fuel b ts
      return (n :: ns, b, ts)
    | ts => some ([], b, ts)

/-- The entries of a block mapping, and its end. -/
def blockEntries : Nat → Builder → List Token →
    Option (List (Node × Node) × Builder × List Token)
  | 0, _, _ => none
  | fuel + 1, b, ts =>
    match ts with
    | .key :: rest => do
      let ends := [Token.key, .value, .blockEnd]
      let (k, b, ts) ← nodeOr true true ends fuel b rest
      let (v, b, ts) ←
        match ts with
        | .value :: rest => nodeOr true true ends fuel b rest
        | ts => some (.unwritten, b, ts)
      let (kvs, b, ts) ← blockEntries fuel b ts
      return ((k, v) :: kvs, b, ts)
    | .blockEnd :: rest => some ([], b, rest)
    | _ => none

/-- The items of a sequence in brackets, and its end.  A pair with a colon is a
mapping of its own. -/
def flowItems (first : Bool) : Nat → Builder → List Token →
    Option (List Node × Builder × List Token)
  | 0, _, _ => none
  | fuel + 1, b, ts =>
    match ts with
    | .flowSequenceEnd :: rest => some ([], b, rest)
    | ts => do
      let ts ← if first then some ts else
        match ts with
        | .flowEntry :: rest => some rest
        | _ => none
      match ts with
      | .flowSequenceEnd :: rest => return ([], b, rest)
      | .key :: rest =>
        let (k, b, ts) ←
          if nextIs rest [.value, .flowEntry, .flowSequenceEnd] then
            some (.unwritten, b, rest.drop 1)
          else node? false false fuel b rest
        let (v, b, ts) ←
          match ts with
          | .value :: rest => nodeOr false false [.flowEntry, .flowSequenceEnd] fuel b rest
          | ts => some (.unwritten, b, ts)
        let (ns, b, ts) ← flowItems false fuel b ts
        return (.mapping none [(k, v)] :: ns, b, ts)
      | ts =>
        let (n, b, ts) ← node? false false fuel b ts
        let (ns, b, ts) ← flowItems false fuel b ts
        return (n :: ns, b, ts)

/-- The entries of a mapping in braces, and its end. -/
def flowEntries (first : Bool) : Nat → Builder → List Token →
    Option (List (Node × Node) × Builder × List Token)
  | 0, _, _ => none
  | fuel + 1, b, ts =>
    match ts with
    | .flowMappingEnd :: rest => some ([], b, rest)
    | ts => do
      let ts ← if first then some ts else
        match ts with
        | .flowEntry :: rest => some rest
        | _ => none
      match ts with
      | .flowMappingEnd :: rest => return ([], b, rest)
      | .key :: rest =>
        let (k, b, ts) ← nodeOr false false [.value, .flowEntry, .flowMappingEnd] fuel b rest
        let (v, b, ts) ←
          match ts with
          | .value :: rest => nodeOr false false [.flowEntry, .flowMappingEnd] fuel b rest
          | ts => some (.unwritten, b, ts)
        let (kvs, b, ts) ← flowEntries false fuel b ts
        return ((k, v) :: kvs, b, ts)
      | ts =>
        let (k, b, ts) ← node? false false fuel b ts
        let (kvs, b, ts) ← flowEntries false fuel b ts
        return ((k, .unwritten) :: kvs, b, ts)

end

/-! ## Documents -/

/-- The directives before a document: the expansions of tag handles, and whether a
version was given.  Each is given once at most, and the version is 1.1 or 1.2. -/
def directives? : List (List Char × List Char) → Bool → List Token →
    Option (List (List Char × List Char) × Bool × List Token)
  | handles, versioned, .version major minor :: rest =>
    if versioned ∨ major ≠ 1 ∨ (minor ≠ 1 ∧ minor ≠ 2) then none
    else directives? handles true rest
  | handles, versioned, .tagDirective handle expansion :: rest =>
    if (handles.lookup handle).isSome then none
    else directives? ((handle, expansion) :: handles) versioned rest
  | handles, versioned, ts => some (handles, versioned, ts)

/-- The document that the tokens of a text make up. -/
def Document.ofTokens? (ts : List Token) : Option Document := do
  let fuel := 4 * ts.length + 8
  let (handles, versioned, rest) ← directives? [] false ts
  let start := Builder.start handles
  let (document, rest) ←
    match rest with
    | .streamEnd :: _ =>
      if handles = [] ∧ !versioned then some (start.document none, rest) else none
    | .documentStart :: rest => do
      let next := match rest with
        | .version _ _ :: _ => true
        | .tagDirective _ _ :: _ => true
        | ts => nextIs ts [.documentStart, .documentEnd, .streamEnd]
      let (n, b, ts) ←
        if next then some (.unwritten, start, rest) else node? true false fuel start rest
      some (b.document (some n), ts)
    | rest =>
      if handles = [] ∧ !versioned then do
        let (n, b, ts) ← node? true false fuel start rest
        some (b.document (some n), ts)
      else none
  match rest.dropWhile (· = .documentEnd) with
  | [.streamEnd] => some document
  | _ => none

/-- The document of a text; `none` if the text is no YAML or holds several. -/
def Document.ofText? (text : String) : Option Document :=
  (Token.ofText? text.toList).bind Document.ofTokens?

end DevMode.Yaml
