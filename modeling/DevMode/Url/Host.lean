/-
# DevMode.Url.Host -- hosts

The host of a URL with a well-known scheme is a domain name or an address.  Of any other
URL it is an address in brackets, or a name that is taken as it is.
-/
import DevMode.Url.Domain
import DevMode.Url.Ipv4
import DevMode.Url.Ipv6

namespace DevMode

set_option autoImplicit false

/-- A host: a name, or an address. -/
inductive Host where
  | name (text : List Char)
  | ipv4 (address : Nat)
  | ipv6 (groups : List Nat)
  deriving DecidableEq, Repr

namespace Host

def render : Host → List Char
  | name text => text
  | ipv4 address => Url.Ipv4.render address
  | ipv6 groups => '[' :: Url.Ipv6.render groups ++ [']']

/-- The address between brackets. -/
def parseBracketed (s : List Char) : Except UrlError Host :=
  if s.getLast? = some ']' then (Url.Ipv6.parse s.dropLast).map .ipv6 else .error .badIpv6

/-- The host of a URL with a well-known scheme. -/
def parse : List Char → Except UrlError Host
  | '[' :: s => parseBracketed s
  | s =>
    match Url.Domain.toAscii? s with
    | none => .error .badDomain
    | some [] => .error .emptyHost
    | some domain =>
      if Url.Ipv4.endsInNumber domain then (Url.Ipv4.parse domain).map .ipv4 else .ok (.name domain)

/-- The characters that may not stand in any host. -/
def forbidden : List Char :=
  ['\x00', '\t', '\n', '\r', ' ', '#', '/', ':', '<', '>', '?', '@', '[', '\\', ']', '^', '|']

/-- The host of a URL with any other scheme. -/
def parseOpaque : List Char → Except UrlError Host
  | '[' :: s => parseBracketed s
  | s => if s.any forbidden.contains then .error .badHostCharacter else .ok (.name (Url.encode Url.isControl s))

end Host

end DevMode
