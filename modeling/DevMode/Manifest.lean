/-
# DevMode.Manifest -- the manifest of an application

The manifest names the services of an application, how each is built and which image
it may use instead.  It is YAML; references to the environment in its text are
replaced before it is read (`Manifest.load`).

Where a text is wanted, a scalar of any kind will do, and where a value may be
missing, nothing can be written for it.  Only how a service is built is told by the
kind of the scalar: a text is the directory, a mapping gives directory and recipe,
and numbers and truth values mean nothing.
-/
import DevMode.Environment
import DevMode.Recipe.Error
import DevMode.Service
import DevMode.Yaml.Node
import DevMode.Yaml.Plain

namespace DevMode

set_option autoImplicit false

/-! ## Reading nodes -/

namespace Yaml

/-- Reads from a document; the state counts the aliases that have been followed. -/
abbrev Reads := StateT Nat Option

/-- The node itself, or the one that an alias stands for.  Following more aliases than
a hundred times as many as the document has events is refused. -/
def Document.target (d : Document) : Node → Reads Node
  | .alias anchor => do
    let jumps ← get
    if d.events * 100 < jumps + 1 then failure
    set (jumps + 1)
    match d.anchored.lookup anchor with
    | some n => return n
    | none => failure
  | n => return n

/-- The text of a scalar of any kind. -/
def Document.text (d : Document) (n : Node) : Reads String := do
  match ← d.target n with
  | .scalar _ _ text => return text
  | _ => failure

def nullTag : String := "tag:yaml.org,2002:null"

/-- The node, or nothing if that is what it means. -/
def Document.optional (d : Document) (n : Node) : Reads (Option Node) := do
  let n ← d.target n
  match n with
  | .scalar (some tag) true text =>
    if tag = nullTag then (if Plain.isNull text then return none else failure) else return some n
  | .scalar none true text =>
    return if text.isEmpty || Plain.isNull text then none else some n
  | n => return some n

/-- The entries of a mapping; a scalar that is not written is one without any. -/
def Document.entries (d : Document) (n : Node) : Reads (List (Node × Node)) := do
  match ← d.target n with
  | .mapping _ kvs => return kvs
  | .scalar _ true text => if text.isEmpty then return [] else failure
  | _ => failure

/-- A value by its kind.  Of sequences and of numbers that are no keys nothing more is
kept. -/
inductive Value where
  | null
  | natural (n : Nat)
  | text (s : String)
  | mapping (entries : List (Value × Value))
  | other

/-- The kind of a scalar.  A tag of the document's own means nothing here. -/
def Value.ofScalar (tag : Option String) (plain : Bool) (text : String) : Option Value :=
  let ofPlain : Plain → Option Value
    | .null => some .null
    | .natural n => some (.natural n)
    | .wide => none
    | .text => some (.text text)
    | _ => some .other
  match tag with
  | none => if plain then ofPlain (.ofString text) else some (.text text)
  | some tag =>
    if tag.toList.head? = some '!' then none
    else if tag = "tag:yaml.org,2002:bool" then
      if Plain.isBool text then some .other else none
    else if tag = "tag:yaml.org,2002:int" then (Plain.integerOf? text).bind ofPlain
    else if tag = "tag:yaml.org,2002:float" then
      if Plain.isDecimal text.toList then some .other else none
    else if tag = nullTag then (if Plain.isNull text then some .null else none)
    else some (.text text)

def isOwnTag (tag : Option String) : Bool :=
  match tag with
  | some tag => tag.toList.head? == some '!'
  | none => false

def Document.value (d : Document) : Nat → Node → Reads Value
  | 0, n => do
    match ← d.target n with
    | .scalar tag plain text => fun jumps => (Value.ofScalar tag plain text).map (·, jumps)
    | _ => failure
  | depth + 1, n => do
    match ← d.target n with
    | .scalar tag plain text => fun jumps => (Value.ofScalar tag plain text).map (·, jumps)
    | .sequence tag items =>
      if isOwnTag tag then failure
      let _ ← items.mapM (value d depth)
      return .other
    | .mapping tag kvs =>
      if isOwnTag tag then failure
      return .mapping (← kvs.mapM fun (k, v) => do
        return (← value d depth k, ← value d depth v))
    | .alias _ => failure

end Yaml

/-! ## Services -/

/-- Why a manifest cannot be used; what is wrong with a text that is no manifest is
left to its reader. -/
inductive ManifestError where
  | io (path : String) (cause : FileError)
  | parse
  | invalid (text : String)
  | noSuchService (name : String)
  deriving DecidableEq, Repr

def ManifestError.message : ManifestError → String
  | io path cause => "I/O error at " ++ path ++ ": " ++ cause.message
  | parse => "failed to parse manifest"
  | invalid text => "invalid manifest: " ++ text
  | noSuchService name => "no such service: " ++ name

/-- The services of an application, sorted by name. -/
structure Manifest where
  services : List Service
  deriving DecidableEq, Repr

namespace Manifest

open Yaml

/-- How a service is built: its directory and its recipe, each if it is given. -/
abbrev Build := Option String × Option String

/-- A text that may be missing, among values. -/
def optionalText? : Value → Option (Option String)
  | .null => some none
  | .text s => some (some s)
  | _ => none

/-- Directory and recipe from the entries of a mapping; each is given once at most, by
its name or its number, and other entries count for nothing. -/
def buildOf : Option (Option String) → Option (Option String) → List (Value × Value) →
    Option Build
  | path, recipe, [] => some (path.getD none, recipe.getD none)
  | path, recipe, (k, v) :: rest =>
    let which : Option (Option Bool) := match k with
      | .text name => some
          (if name = "path" then some true else if name = "manifest" then some false else none)
      | .natural n => some (if n = 0 then some true else if n = 1 then some false else none)
      | _ => none
    match which with
    | none => none
    | some none => buildOf path recipe rest
    | some (some true) =>
      if path.isSome then none
      else do buildOf (some (← optionalText? v)) recipe rest
    | some (some false) =>
      if recipe.isSome then none
      else do buildOf path (some (← optionalText? v)) rest

/-- How deep the parts of a document may be nested, and how deep the build of a
service already is. -/
def maxDepth : Nat := 128 - 3

def readBuild (d : Document) (n : Node) : Reads Build := do
  match ← d.value maxDepth n with
  | .text s => return (some s, none)
  | .mapping kvs => fun jumps => (buildOf none none kvs).map (·, jumps)
  | _ => failure

/-- What the manifest says of a service. -/
structure Entry where
  build : Option (Option Build)
  image : Option (Option String)

def readEntries (d : Document) : Entry → List (Node × Node) → Reads Entry
  | e, [] => return e
  | e, (k, v) :: rest => do
    let name ← d.text k
    if name = "build" then
      if e.build.isSome then failure
      let build ← match ← d.optional v with
        | none => pure none
        | some n => some <$> readBuild d n
      readEntries d { e with build := some build } rest
    else if name = "image" then
      if e.image.isSome then failure
      let image ← match ← d.optional v with
        | none => pure none
        | some n => some <$> d.text n
      readEntries d { e with image := some image } rest
    else readEntries d e rest

/-- The service that an entry tells of: an image of nothing but White_Space is none,
and a service without image and directory is built in the root. -/
def service (name : String) (e : Entry) : Service :=
  let image := (e.image.getD none).filter fun i => !(Text.trim i.toList).isEmpty
  let (path, recipe) := (e.build.getD none).getD (none, none)
  let path := path.getD ""
  ⟨name,
    ⟨if path.isEmpty && image.isNone then "." else path, recipe.getD BuildPlan.default.manifest⟩,
    image⟩

/-- Reads the services; of two with one name the later counts. -/
def readServices (d : Document) : List (Node × Node) → Reads (List Service)
  | [] => return []
  | (k, v) :: rest => do
    let name ← d.text k
    let entry ← match ← d.optional v with
      | none => pure ⟨none, none⟩
      | some n => readEntries d ⟨none, none⟩ (← d.entries n)
    let services ← readServices d rest
    return if services.any (fun (s : Service) => s.name = name) then services else service name entry :: services

/-- Reads the entries of the root, of which the services are given once at most. -/
def readRoot (d : Document) : Option (List Service) → List (Node × Node) → Reads (List Service)
  | services, [] => return services.getD []
  | services, (k, v) :: rest => do
    if (← d.text k) = "services" then
      if services.isSome then failure
      readRoot d (some (← readServices d (← d.entries v))) rest
    else readRoot d services rest

def ofDocument? (d : Document) : Option Manifest := do
  let (services, _) ← (do
    match d.root with
    | none => return []
    | some root => readRoot d none (← d.entries root) : Reads (List Service)).run 0
  return ⟨services.mergeSort fun (a b : Service) => decide (a.name ≤ b.name)⟩

/-- The manifest of a text, with the references in it replaced. -/
def load (env : Environment) (text : String) : Except ManifestError Manifest :=
  match (Document.ofText? (env.expand text)).bind ofDocument? with
  | some m => .ok m
  | none => .error .parse

def loadFile (env : Environment) (tree : FileTree) (path : LocalPath) :
    Except ManifestError Manifest :=
  match tree.readText path with
  | .ok text => load env text
  | .error e => .error (.io path.toString e)

/-! ## Use -/

/-- Whether a text may name a service: small letters, digits and hyphens, a letter
first. -/
def isServiceName (name : String) : Bool :=
  match name.toList with
  | [] => false
  | c :: rest => c.isLower && rest.all fun c => c.isLower || c.isDigit || c = '-'

/-- Refuses a manifest without services, or with a service whose name is none. -/
def validate (m : Manifest) : Except ManifestError Unit :=
  if m.services.isEmpty then .error (.invalid "no services defined")
  else
    match m.services.find? fun s => !isServiceName s.name with
    | some s => .error (.invalid ("service name '" ++ s.name ++
        "' must be lowercase alphanumerics and hyphens, starting with a letter"))
    | none => .ok ()

def find (m : Manifest) (name : String) : Except ManifestError Service :=
  match m.services.find? (·.name = name) with
  | some s => .ok s
  | none => .error (.noSuchService name)

/-- The names a session follows, sorted: those asked for, or those of all services. -/
def interest (m : Manifest) (filter : Option (List String)) : List String :=
  let names : List String := match filter with
    | some names => names
    | none => m.services.map (·.name)
  names.eraseDups.mergeSort fun a b => decide (a ≤ b)

end Manifest

end DevMode
