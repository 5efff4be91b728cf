import CredentialBench.Document.Record
import CredentialBench.FileTree.Operations
import CredentialBench.Json.Printer
import CredentialBench.Json.Reader

/-!
# Manifests

The index of a generated workspace: for every service the absolute path of everything that belongs
to it. Services are listed for each host and once more for all hosts, in the order of the scenario.
-/

namespace CredentialBench.Workspace

open Document

/-- Where everything of one service is. -/
structure ServiceEntry where
  host : String
  service : String
  deployType : String
  instanceId : String
  containerName : Option String
  workDir : String
  statePath : String
  roleIdPath : String
  secretIdPath : String
  eabPath : String
  agentConfigPath : String
  certPath : String
  keyPath : String
  /-- Written by the agent when it first synchronises the trust. -/
  caBundlePath : String
  /-- Written by the agent after a run. -/
  summaryPath : String
  deriving DecidableEq

/-- The part of a manifest about one host. -/
structure HostEntry where
  host : String
  workDir : String
  services : List ServiceEntry
  deriving DecidableEq

/-- The index of a workspace. -/
structure Manifest where
  scenario : String
  hosts : List HostEntry
  services : List ServiceEntry
  deriving DecidableEq

namespace Manifest

/-- The index of a workspace without hosts. -/
def empty (scenario : String) : Manifest := ⟨scenario, [], []⟩

/-- The index of a workspace with these hosts. -/
def ofHosts (scenario : String) (hosts : List HostEntry) : Manifest :=
  ⟨scenario, hosts, hosts.flatMap fun h => h.services⟩

/-- The first entry of a service on a host. -/
def find? (m : Manifest) (host service : String) : Option ServiceEntry :=
  m.services.find? fun e => e.host == host && e.service == service

/-! ## Writing -/

/-- An entry as JSON. -/
def serviceJson (e : ServiceEntry) : Json.Value := .object [
  ("node_id", .string e.host),
  ("service_name", .string e.service),
  ("deploy_type", .string e.deployType),
  ("instance_id", .string e.instanceId),
  ("container_name", .ofOption e.containerName),
  ("work_dir", .string e.workDir),
  ("state_path", .string e.statePath),
  ("role_id_path", .string e.roleIdPath),
  ("secret_id_path", .string e.secretIdPath),
  ("eab_file_path", .string e.eabPath),
  ("agent_config_path", .string e.agentConfigPath),
  ("cert_path", .string e.certPath),
  ("key_path", .string e.keyPath),
  ("ca_bundle_path", .string e.caBundlePath),
  ("summary_json_path", .string e.summaryPath)]

/-- The part about a host as JSON. -/
def hostJson (h : HostEntry) : Json.Value := .object [
  ("node_id", .string h.host),
  ("work_dir", .string h.workDir),
  ("services", .array (h.services.map serviceJson))]

/-- A manifest as JSON. -/
def toJson (m : Manifest) : Json.Value := .object [
  ("scenario_id", .string m.scenario),
  ("nodes", .array (m.hosts.map hostJson)),
  ("services", .array (m.services.map serviceJson))]

/-! ## Reading -/

/-- An entry in a document. -/
def serviceDecoder : Decoder ServiceEntry := Record.decoder <|
  ServiceEntry.mk <$> .required "node_id" Decoder.string
    <*> .required "service_name" Decoder.string
    <*> .required "deploy_type" Decoder.string
    <*> .required "instance_id" Decoder.string
    <*> .optional "container_name" Decoder.string
    <*> .required "work_dir" Decoder.string
    <*> .required "state_path" Decoder.string
    <*> .required "role_id_path" Decoder.string
    <*> .required "secret_id_path" Decoder.string
    <*> .required "eab_file_path" Decoder.string
    <*> .required "agent_config_path" Decoder.string
    <*> .required "cert_path" Decoder.string
    <*> .required "key_path" Decoder.string
    <*> .required "ca_bundle_path" Decoder.string
    <*> .required "summary_json_path" Decoder.string

/-- The part about a host in a document. -/
def hostDecoder : Decoder HostEntry := Record.decoder <|
  HostEntry.mk <$> .required "node_id" Decoder.string
    <*> .required "work_dir" Decoder.string
    <*> .required "services" serviceDecoder.list

/-- A manifest in a document. -/
def decoder : Decoder Manifest := Record.decoder <|
  Manifest.mk <$> .required "scenario_id" Decoder.string
    <*> .required "nodes" hostDecoder.list
    <*> .required "services" serviceDecoder.list

/-- A manifest from the text of a file. -/
def ofText (s : String) : Except Fault Manifest := Json.decode decoder (Text.Utf8.bytes s)

/-- A manifest from a file. -/
def load (t : FileTree) (path : String) : Except LoadError Manifest :=
  match t.readText path with
  | .error e => .error (.read e)
  | .ok s => (ofText s).mapError .parse

end Manifest

end CredentialBench.Workspace
