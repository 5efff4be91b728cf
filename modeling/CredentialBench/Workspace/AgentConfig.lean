import CredentialBench.Document.Record
import CredentialBench.Json.Value
import CredentialBench.Toml.Printer
import CredentialBench.Toml.Reader

/-!
# Agent configurations

What the agent reads when it starts, as TOML. The trust in it is a placeholder that the agent
replaces when it first synchronises.
-/

namespace CredentialBench.Workspace

open Document

/-- An identity that the agent manages. -/
structure Profile where
  service : String
  instanceId : String
  hostname : String
  /-- Where the agent writes the certificate. -/
  certPath : String
  /-- Where the agent writes the key. -/
  keyPath : String
  deriving DecidableEq

/-- The configuration of an agent. -/
structure AgentConfig where
  /-- The key shared with the responder to challenges over HTTP. -/
  responderHmac : String
  /-- The fingerprints of the trusted authorities. -/
  trusted : List String
  profiles : List Profile
  deriving DecidableEq

namespace AgentConfig

/-- The responder's key before the first synchronisation. -/
def seedResponderHmac : String := "seed-responder-hmac"

/-- The fingerprint before the first synchronisation: 64 zeros. -/
def placeholderFingerprint : String := String.ofList (List.replicate 64 '0')

/-- The configuration for one service on a host. -/
def forService (service hostname instanceId : String) : AgentConfig where
  responderHmac := seedResponderHmac
  trusted := [placeholderFingerprint]
  profiles := [{
    service, instanceId, hostname
    certPath := "certs/" ++ service ++ ".crt"
    keyPath := "certs/" ++ service ++ ".key" }]

/-! ## Reading -/

/-- The two paths of a profile in a document. -/
def pathsDecoder : Decoder (String × String) := Record.decoder <|
  Prod.mk <$> .required "cert" Decoder.string <*> .required "key" Decoder.string

/-- A profile in a document. -/
def profileDecoder : Decoder Profile := Record.decoder <|
  (fun service instanceId hostname paths =>
      Profile.mk service instanceId hostname paths.1 paths.2)
    <$> .required "service_name" Decoder.string
    <*> .required "instance_id" Decoder.string
    <*> .required "hostname" Decoder.string
    <*> .required "paths" pathsDecoder

/-- The part about certificates in a document. -/
def acmeDecoder : Decoder String := Record.decoder <|
  id <$> .required "http_responder_hmac" Decoder.string

/-- The part about trust in a document. -/
def trustDecoder : Decoder (List String) := Record.decoder <|
  id <$> .required "trusted_ca_sha256" Decoder.string.list

/-- A configuration in a document. -/
def decoder : Decoder AgentConfig := Record.decoder <|
  AgentConfig.mk <$> .required "acme" acmeDecoder
    <*> .required "trust" trustDecoder
    <*> .required "profiles" profileDecoder.list

/-- The configuration that a text of TOML gives. -/
def ofToml (text : String) : Except Fault AgentConfig := Toml.decode decoder text

/-! ## Writing -/

/-- A line that opens a table. -/
def header (name : String) : List Char := '[' :: name.toList ++ [']', '\n']

/-- A profile as TOML, after an empty line. -/
def profileToml (p : Profile) : List Char :=
  "\n[[profiles]]\n".toList ++
    Toml.assignment "service_name" (Toml.quotedString p.service) ++
    Toml.assignment "instance_id" (Toml.quotedString p.instanceId) ++
    Toml.assignment "hostname" (Toml.quotedString p.hostname) ++
    '\n' :: header "profiles.paths" ++
    Toml.assignment "cert" (Toml.quotedString p.certPath) ++
    Toml.assignment "key" (Toml.quotedString p.keyPath)

/-- A configuration as TOML. A list without profiles is a value, and values come before tables. -/
def toToml (c : AgentConfig) : String :=
  let none := if c.profiles.isEmpty then Toml.assignment "profiles" ['[', ']'] ++ ['\n'] else []
  String.ofList <|
    none ++ header "acme" ++
      Toml.assignment "http_responder_hmac" (Toml.quotedString c.responderHmac) ++
      '\n' :: header "trust" ++
      Toml.assignment "trusted_ca_sha256" (Toml.stringList c.trusted) ++
      c.profiles.flatMap profileToml

/-- A profile as JSON. -/
def profileJson (p : Profile) : Json.Value := .object [
  ("service_name", .string p.service),
  ("instance_id", .string p.instanceId),
  ("hostname", .string p.hostname),
  ("paths", .object [("cert", .string p.certPath), ("key", .string p.keyPath)])]

/-- A configuration as JSON. -/
def toJson (c : AgentConfig) : Json.Value := .object [
  ("acme", .object [("http_responder_hmac", .string c.responderHmac)]),
  ("trust", .object [("trusted_ca_sha256", .array (c.trusted.map .string))]),
  ("profiles", .array (c.profiles.map profileJson))]

end AgentConfig

end CredentialBench.Workspace
