import CredentialBench.Document.Record
import CredentialBench.FileTree.Operations
import CredentialBench.Json.Value
import CredentialBench.Toml.Reader

/-!
# Workspace settings

What shapes a generated workspace besides its scenario. Each setting has a default, a settings
file of TOML may give it, and a command line overrides it. A certificate must be valid for a day
at least.
-/

namespace CredentialBench.Workspace

open Document

/-- What makes the stub certificates. -/
inductive Backend
  /-- An `openssl` program. -/
  | openssl
  /-- No other program. -/
  | internal
  deriving DecidableEq

namespace Backend

/-- The name of a backend. -/
def name : Backend → String
  | openssl => "openssl"
  | internal => "rcgen"

/-- Every backend. -/
def all : List Backend := [openssl, internal]

/-- A backend in a document. -/
def decoder : Decoder Backend := .choice (all.map fun b => (b.name, b))

end Backend

/-- The settings of a workspace. -/
structure Settings where
  /-- The end of every certificate's name. -/
  domain : String
  /-- The address of the secret store. -/
  storeUrl : String
  /-- The mount of the secrets in the store. -/
  mount : String
  /-- How many days a certificate is valid. -/
  validityDays : UInt32
  backend : Backend
  /-- The program to install as the agent; a script that does nothing if there is none. -/
  agentStub : Option String
  deriving DecidableEq

namespace Settings

/-- The settings where none are given. -/
def default : Settings where
  domain := "trusted.domain"
  storeUrl := "http://127.0.0.1:8200"
  mount := "secret"
  validityDays := 1
  backend := .openssl
  agentStub := none

/-- Settings in a document; what is not given keeps its default. -/
def decoder : Decoder Settings := Record.decoder <|
  Settings.mk <$> .defaulted "domain" Decoder.string default.domain
    <*> .defaulted "openbao_url" Decoder.string default.storeUrl
    <*> .defaulted "kv_mount" Decoder.string default.mount
    <*> .defaulted "cert_validity_days" Decoder.uint32 default.validityDays
    <*> .defaulted "issuer" Backend.decoder default.backend
    <*> .defaulted "agent_stub" Decoder.string.nullable default.agentStub

/-- Settings as JSON. -/
def toJson (s : Settings) : Json.Value := .object [
  ("domain", .string s.domain),
  ("openbao_url", .string s.storeUrl),
  ("kv_mount", .string s.mount),
  ("cert_validity_days", .integer s.validityDays.toNat),
  ("issuer", .string s.backend.name),
  ("agent_stub", .ofOption s.agentStub)]

/-- Why settings are of no use. -/
inductive Problem
  | load (e : LoadError)
  /-- Certificates would not be valid for a day. -/
  | zeroValidity
  deriving DecidableEq

/-- Certificates must be valid for a day at least. -/
def check (s : Settings) : Except Problem Unit :=
  if s.validityDays = 0 then .error .zeroValidity else .ok ()

/-- Settings from the text of a file, checked. -/
def ofText (text : String) : Except Problem Settings := do
  let s ← (Toml.decode decoder text).mapError fun f => .load (.parse f)
  s.check
  return s

/-- Settings from a file, checked. -/
def load (t : FileTree) (path : String) : Except Problem Settings :=
  match t.readText path with
  | .error e => .error (.load (.read e))
  | .ok text => ofText text

end Settings

end CredentialBench.Workspace
