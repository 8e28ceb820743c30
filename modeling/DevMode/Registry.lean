/-
# DevMode.Registry -- where an image is pushed and with which login

The address of a repository is a URL.  Host, port and path say where to push; a password
in it makes a login for that place.  Names and passwords are taken as they stand in the
URL.
-/
import DevMode.Json
import DevMode.Url.Parse

namespace DevMode

set_option autoImplicit false

/-- Where to push, and the login as JSON text, empty if there is none. -/
structure PushTarget where
  push : String
  auth : String
  deriving DecidableEq, Repr

namespace Url

/-- Host, port and path without anything around them. -/
def place (u : Url) : String :=
  let host := (u.host.map Host.render).getD []
  let port := match u.host, u.port with
    | some _, some n => ':' :: Nat.toDigits 10 n
    | _, _ => []
  String.ofList (host ++ port ++ u.path)

def login (place username password : String) : Json :=
  .object [(place, .object [("Password", .string password), ("Username", .string username)])]

end Url

/-- Where to push for the repository at a URL. -/
def PushTarget.ofRepository (repository : String) : Except UrlError PushTarget := do
  let u ← Url.parse repository
  let auth := match u.password with
    | some p => (Url.login u.place (String.ofList u.username) (String.ofList p)).compact
    | none => ""
  return ⟨u.place, auth⟩

end DevMode
