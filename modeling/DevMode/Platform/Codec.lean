/-
# DevMode.Platform.Codec -- records as JSON

A record is written as an object of strings.  It is read from an object, whose other
members mean nothing, or from an array of its fields in order.  A field with a fallback
may be missing: from an object anywhere, from an array at the end.
-/
import DevMode.Change
import DevMode.Json
import DevMode.Platform.Record
import DevMode.Source

namespace DevMode

set_option autoImplicit false

namespace Json

def text? : Json → Option String
  | string s => some s
  | _ => none

/-- A field of a record: its name, and the text it has if it is missing. -/
structure Field where
  name : String
  fallback : Option String

/-- The text of a field that may be missing. -/
def Field.read? (f : Field) (value : Option Json) : Option String :=
  match value with
  | some j => j.text?
  | none => f.fallback

/-- The texts of the fields, from items in order. -/
def readItems? : List Field → List Json → Option (List String)
  | [], [] => some []
  | [], _ :: _ => none
  | f :: fs, items => do
    let text ← f.read? items.head?
    let rest ← readItems? fs items.tail
    return text :: rest

/-- The texts of the fields of a record. -/
def readFields? (fields : List Field) : Json → Option (List String)
  | object members => fields.mapM fun f => f.read? (members.lookup f.name)
  | array items => readItems? fields items
  | _ => none

/-- A record with the texts of its fields. -/
def ofFields (fields : List Field) (texts : List String) : Json :=
  object ((fields.map Field.name).zip (texts.map string))

end Json

open Json (Field)

/-! ## Records -/

namespace App

def fields : List Field :=
  [⟨"name", none⟩, ⟨"generation", none⟩, ⟨"release", some ""⟩, ⟨"status", some ""⟩]

def ofJson? (j : Json) : Option App :=
  match j.readFields? fields with
  | some [name, generation, release, status] => some ⟨name, generation, release, status⟩
  | _ => none

def toJson (a : App) : Json := .ofFields fields [a.name, a.generation, a.release, a.status]

end App

namespace Rack

def fields : List Field := [⟨"name", none⟩]

def ofJson? (j : Json) : Option Rack :=
  match j.readFields? fields with
  | some [name] => some ⟨name⟩
  | _ => none

def toJson (s : Rack) : Json := .ofFields fields [s.name]

end Rack

namespace StoredObject

def fields : List Field := [⟨"url", none⟩]

def ofJson? (j : Json) : Option StoredObject :=
  match j.readFields? fields with
  | some [url] => some ⟨url⟩
  | _ => none

def toJson (o : StoredObject) : Json := .ofFields fields [o.url]

end StoredObject

namespace BuildStatus

def ofJson? (j : Json) : Option BuildStatus := j.text?.map ofString

def toJson (s : BuildStatus) : Json := .string s.toString

end BuildStatus

namespace Build

def fields : List Field :=
  [⟨"id", none⟩, ⟨"app", none⟩, ⟨"status", none⟩, ⟨"release", some ""⟩, ⟨"repository", some ""⟩,
    ⟨"description", some ""⟩]

def ofJson? (j : Json) : Option Build :=
  match j.readFields? fields with
  | some [id, app, status, release, repository, description] =>
    some ⟨id, app, .ofString status, release, repository, description⟩
  | _ => none

def toJson (b : Build) : Json :=
  .ofFields fields [b.id, b.app, b.status.toString, b.release, b.repository, b.description]

end Build

namespace Release

def fields : List Field := [⟨"id", none⟩, ⟨"app", none⟩, ⟨"build", some ""⟩]

def ofJson? (j : Json) : Option Release :=
  match j.readFields? fields with
  | some [id, app, build] => some ⟨id, app, build⟩
  | _ => none

def toJson (r : Release) : Json := .ofFields fields [r.id, r.app, r.build]

end Release

namespace Container

def fields : List Field := [⟨"id", none⟩, ⟨"service", none⟩]

def ofJson? (j : Json) : Option Container :=
  match j.readFields? fields with
  | some [id, service] => some ⟨id, service⟩
  | _ => none

def toJson (c : Container) : Json := .ofFields fields [c.id, c.service]

end Container

namespace Source

def fields : List Field := [⟨"local", none⟩, ⟨"remote", none⟩]

def ofJson? (j : Json) : Option Source :=
  match j.readFields? fields with
  | some [path, remote] => some ⟨.ofString path, remote⟩
  | _ => none

def toJson (s : Source) : Json := .ofFields fields [s.path.toString, s.remote]

end Source

namespace ChangeKind

/-- The kind with a name. -/
def ofString? (s : String) : Option ChangeKind :=
  if s = "add" then some .add else if s = "remove" then some .remove else none

def toString : ChangeKind → String
  | add => "add"
  | remove => "remove"

/-- Reads a kind: its name, or an object whose one member has that name and is `null`. -/
def ofJson? : Json → Option ChangeKind
  | .string s => ofString? s
  | .object [(s, .null)] => ofString? s
  | _ => none

def toJson (k : ChangeKind) : Json := .string k.toString

end ChangeKind

end DevMode
