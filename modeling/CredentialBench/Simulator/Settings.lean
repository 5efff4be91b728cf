import CredentialBench.Document.Record
import CredentialBench.FileTree.Operations
import CredentialBench.Toml.Reader

/-!
# Where the simulator listens

A host and a port. Both have defaults, a settings file may give either, and a command line overrides
what the file gives, each on its own.
-/

namespace CredentialBench.Simulator

open Document

/-- Where the simulator listens. -/
structure Settings where
  host : String
  /-- Zero leaves the choice to the system. -/
  port : UInt16
  deriving DecidableEq

namespace Settings

/-- The loopback interface and the usual port. -/
def default : Settings := ⟨"127.0.0.1", 18200⟩

/-- The loopback interface and a port of the system's choice. -/
def ephemeral : Settings := { default with port := 0 }

/-- Settings in a document; what is not given keeps its default. -/
def decoder : Decoder Settings := Record.decoder <|
  Settings.mk <$> .defaulted "host" Decoder.string default.host
    <*> .defaulted "port" Decoder.uint16 default.port

/-- The settings that a file of TOML gives. -/
def load (t : FileTree) (path : String) : Except LoadError Settings :=
  match t.readText path with
  | .error e => .error (.read e)
  | .ok text => (Toml.decode decoder text).mapError .parse

/-- The settings with the host and the port replaced where others are given. -/
def override (s : Settings) (host : Option String) (port : Option UInt16) : Settings :=
  ⟨host.getD s.host, port.getD s.port⟩

/-- The address to listen on, as text: a host with a colon in it stands in brackets, unless it
starts with one. -/
def bindAddress (s : Settings) : String :=
  let host :=
    if s.host.toList.contains ':' && s.host.toList.head? != some '[' then "[" ++ s.host ++ "]"
    else s.host
  host ++ ":" ++ Nat.repr s.port.toNat

end Settings

end CredentialBench.Simulator
