import CredentialBench.Net.SocketAddress
import CredentialBench.OsError
import CredentialBench.Simulator.Settings

/-!
# Listening

The simulator listens on the address that its settings give, if that is an address at all and the
system lets it have it.
-/

namespace CredentialBench.Simulator

open Net

/-- What the system says about addresses. -/
structure Network where
  /-- The address is one of this machine. -/
  isLocal : Ip → Bool
  /-- Somebody listens there already. -/
  inUse : SocketAddress → Bool

/-- Why the simulator cannot listen. -/
inductive ListenError
  /-- Host and port form no address. -/
  | invalidAddress (text : String)
  /-- The system does not give the address away. -/
  | bind (address : SocketAddress) (cause : OsError)
  deriving DecidableEq

/-- The words for a failure to listen. -/
def ListenError.message : ListenError → String
  | invalidAddress text => "invalid bind address " ++ text ++ ": invalid socket address syntax"
  | bind address cause => "failed to bind " ++ address.text ++ ": " ++ cause.message

/-- Listen on an address. -/
def Network.bind (net : Network) (a : SocketAddress) : Except OsError SocketAddress :=
  if !net.isLocal a.ip then .error .addressUnavailable
  else if net.inUse a then .error .addressInUse
  else .ok a

/-- Listen where the settings say. -/
def listen (net : Network) (s : Settings) : Except ListenError SocketAddress :=
  match SocketAddress.ofText? s.bindAddress with
  | none => .error (.invalidAddress s.bindAddress)
  | some a => (net.bind a).mapError (.bind a)

/-- Whether an address stays within the machine, or stands for all of its own addresses. -/
def isLoopback : Ip → Bool
  | .v4 ip => ip.a = 127 || (ip.a = 0 && ip.b = 0 && ip.c = 0 && ip.d = 0)
  | .v6 ip =>
    match ip.val with
    | [0, 0, 0, 0, 0, 0, 0, x] => x = 0 || x = 1
    | [0, 0, 0, 0, 0, 0xFFFF, x, y] => x.toNat / 256 = 127 || (x = 0 && y = 0)
    | _ => false

/-- A machine with loopback addresses only, and nobody else on it. -/
def Network.quiet : Network := ⟨isLoopback, fun _ => false⟩

end CredentialBench.Simulator
