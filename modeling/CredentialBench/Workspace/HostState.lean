import CredentialBench.Dictionary
import CredentialBench.Document.Record
import CredentialBench.FileTree.Operations
import CredentialBench.Json.Printer
import CredentialBench.Json.Reader

/-!
# Host states

What the agent of a host knows about its services, and how far it has synchronised their secrets.
A generated state says that nothing is synchronised yet; the agent rewrites it as it goes, so any
state may be read back. Services keep their order, policies and roles are sorted by name.
-/

namespace CredentialBench.Workspace

open Document

/-- How far a secret is synchronised. -/
inductive SyncStatus
  /-- The service has no such secret. -/
  | none
  | pending
  | applied
  | failed
  | expired
  deriving DecidableEq

namespace SyncStatus

/-- Every status. -/
def all : List SyncStatus := [none, pending, applied, failed, expired]

/-- The name of a status. -/
def name : SyncStatus → String
  | none => "none"
  | pending => "pending"
  | applied => "applied"
  | failed => "failed"
  | expired => "expired"

/-- A status in a document. -/
def decoder : Decoder SyncStatus := .choice (all.map fun s => (s.name, s))

end SyncStatus

/-- How far the four secrets of a service are synchronised. -/
structure SyncSet where
  secretId : SyncStatus
  eab : SyncStatus
  responderHmac : SyncStatus
  trust : SyncStatus
  deriving DecidableEq

namespace SyncSet

/-- Nothing is synchronised yet. -/
def pending : SyncSet := ⟨.pending, .pending, .pending, .pending⟩

/-- Whether all four secrets have a status. -/
def all (s : SyncSet) (status : SyncStatus) : Bool :=
  [s.secretId, s.eab, s.responderHmac, s.trust].all (· == status)

/-- The status that all four secrets have, if there is one. -/
def common? (s : SyncSet) : Option SyncStatus := SyncStatus.all.find? s.all

/-- A set in a document. -/
def decoder : Decoder SyncSet := Record.decoder <|
  SyncSet.mk <$> .required "secret_id" SyncStatus.decoder
    <*> .required "eab" SyncStatus.decoder
    <*> .required "responder_hmac" SyncStatus.decoder
    <*> .required "trust_sync" SyncStatus.decoder

/-- A set as JSON. -/
def toJson (s : SyncSet) : Json.Value := .object [
  ("secret_id", .string s.secretId.name),
  ("eab", .string s.eab.name),
  ("responder_hmac", .string s.responderHmac.name),
  ("trust_sync", .string s.trust.name)]

/-- A set from a text. -/
def ofText (s : String) : Except Fault SyncSet := Json.decode decoder (Text.Utf8.bytes s)

end SyncSet

/-- How secrets reach a service. -/
inductive Delivery
  /-- They are written where the service is. -/
  | localFile
  /-- The agent fetches them from the store. -/
  | remoteBootstrap
  deriving DecidableEq

namespace Delivery

/-- Both ways. -/
def all : List Delivery := [localFile, remoteBootstrap]

/-- The name of a way. -/
def name : Delivery → String
  | localFile => "local-file"
  | remoteBootstrap => "remote-bootstrap"

/-- A way in a document. -/
def decoder : Decoder Delivery := .choice (all.map fun d => (d.name, d))

end Delivery

/-- The role with which the agent logs in for a service. -/
structure Role where
  name : String
  roleId : String
  secretIdPath : String
  policy : String
  deriving DecidableEq

/-- What the agent knows about a service. Paths are relative to the host's directory. -/
structure ServiceState where
  service : String
  deployType : String
  delivery : Delivery
  sync : SyncSet
  hostname : String
  domain : String
  agentConfigPath : String
  certPath : String
  keyPath : String
  instanceId : String
  containerName : Option String
  notes : Option String
  role : Role
  deriving DecidableEq

/-- What the agent of a host knows. -/
structure HostState where
  storeUrl : String
  mount : String
  secretsDir : String
  policies : SortedDictionary String
  roles : SortedDictionary String
  services : Dictionary String ServiceState

namespace HostState

/-- The state of a host without services. -/
def empty (storeUrl mount : String) : HostState where
  storeUrl := storeUrl
  mount := mount
  secretsDir := "secrets"
  policies := .empty
  roles := .empty
  services := .empty

/-! ## Writing -/

/-- A role as JSON. -/
def roleJson (r : Role) : Json.Value := .object [
  ("role_name", .string r.name),
  ("role_id", .string r.roleId),
  ("secret_id_path", .string r.secretIdPath),
  ("policy_name", .string r.policy)]

/-- The state of a service as JSON. -/
def serviceJson (s : ServiceState) : Json.Value := .object [
  ("service_name", .string s.service),
  ("deploy_type", .string s.deployType),
  ("delivery_mode", .string s.delivery.name),
  ("sync_status", s.sync.toJson),
  ("hostname", .string s.hostname),
  ("domain", .string s.domain),
  ("agent_config_path", .string s.agentConfigPath),
  ("cert_path", .string s.certPath),
  ("key_path", .string s.keyPath),
  ("instance_id", .string s.instanceId),
  ("container_name", .ofOption s.containerName),
  ("notes", .ofOption s.notes),
  ("approle", roleJson s.role)]

/-- Texts by name as JSON. -/
def textsJson (d : SortedDictionary String) : Json.Value :=
  .object (d.entries.map fun e => (e.1, .string e.2))

/-- A state as JSON. -/
def toJson (s : HostState) : Json.Value := .object [
  ("openbao_url", .string s.storeUrl),
  ("kv_mount", .string s.mount),
  ("secrets_dir", .string s.secretsDir),
  ("policies", textsJson s.policies),
  ("approles", textsJson s.roles),
  ("services", .object (s.services.entries.map fun e => (e.1, serviceJson e.2)))]

/-! ## Reading -/

/-- A role in a document. -/
def roleDecoder : Decoder Role := Record.decoder <|
  Role.mk <$> .required "role_name" Decoder.string
    <*> .required "role_id" Decoder.string
    <*> .required "secret_id_path" Decoder.string
    <*> .required "policy_name" Decoder.string

/-- The state of a service in a document. -/
def serviceDecoder : Decoder ServiceState := Record.decoder <|
  ServiceState.mk <$> .required "service_name" Decoder.string
    <*> .required "deploy_type" Decoder.string
    <*> .required "delivery_mode" Delivery.decoder
    <*> .required "sync_status" SyncSet.decoder
    <*> .required "hostname" Decoder.string
    <*> .required "domain" Decoder.string
    <*> .required "agent_config_path" Decoder.string
    <*> .required "cert_path" Decoder.string
    <*> .required "key_path" Decoder.string
    <*> .required "instance_id" Decoder.string
    <*> .optional "container_name" Decoder.string
    <*> .optional "notes" Decoder.string
    <*> .required "approle" roleDecoder

/-- Texts by name in a document, the last one of each name. -/
def textsDecoder : Decoder (SortedDictionary String) := Decoder.string.table.map .ofList

/-- A state in a document; of several services under one name the last one counts. -/
def decoder : Decoder HostState := Record.decoder <|
  HostState.mk <$> .required "openbao_url" Decoder.string
    <*> .required "kv_mount" Decoder.string
    <*> .required "secrets_dir" Decoder.string
    <*> .defaulted "policies" textsDecoder .empty
    <*> .defaulted "approles" textsDecoder .empty
    <*> .required "services" (serviceDecoder.table.map .ofList)

/-- A state from the text of a file. -/
def ofText (s : String) : Except Fault HostState := Json.decode decoder (Text.Utf8.bytes s)

/-- A state from a file. -/
def load (t : FileTree) (path : String) : Except LoadError HostState :=
  match t.readText path with
  | .error e => .error (.read e)
  | .ok s => (ofText s).mapError .parse

end HostState

end CredentialBench.Workspace
