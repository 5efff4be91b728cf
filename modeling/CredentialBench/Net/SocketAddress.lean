import CredentialBench.Net.Ip

/-!
# Socket addresses

An address and a port: of version 4 with a colon between them, of version 6 in square brackets, with
an optional zone after a percent sign, before the colon. Nothing may stand around them, and a name
is no address.
-/

namespace CredentialBench.Net

/-- An address with a port. The zone of an address of version 4 is zero. -/
structure SocketAddress where
  ip : Ip
  zone : UInt32
  port : UInt16
  deriving DecidableEq

namespace SocketAddress

/-- The zone at the start of a text, zero if none is given. -/
def zone? : List Char → Option (UInt32 × List Char)
  | '%' :: rest => (number? zoneForm rest).map fun r => (UInt32.ofNat r.1, r.2)
  | cs => some (0, cs)

/-- The port that ends a text. -/
def port? (cs : List Char) : Option UInt16 := do
  let (n, rest) ← number? portForm (← after? ':' cs)
  if rest.isEmpty then return UInt16.ofNat n else none

/-- The socket address that a text is. -/
def ofChars? (cs : List Char) : Option SocketAddress :=
  match cs with
  | '[' :: rest => do
    let (ip, rest) ← Ipv6.read? rest
    let (zone, rest) ← zone? rest
    return ⟨.v6 ip, zone, ← port? (← after? ']' rest)⟩
  | _ => do
    let (ip, rest) ← Ipv4.read? cs
    return ⟨.v4 ip, 0, ← port? rest⟩

/-- The socket address that a text is. -/
def ofText? (s : String) : Option SocketAddress := ofChars? s.toList

/-- The text of a socket address. -/
def text (a : SocketAddress) : String :=
  let host := match a.ip with
    | .v4 ip => ip.text
    | .v6 ip =>
      let zone := if a.zone = 0 then "" else "%" ++ Nat.repr a.zone.toNat
      "[" ++ ip.text ++ zone ++ "]"
  host ++ ":" ++ Nat.repr a.port.toNat

end SocketAddress

end CredentialBench.Net
