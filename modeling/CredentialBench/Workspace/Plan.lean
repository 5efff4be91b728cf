import CredentialBench.Workspace.AgentConfig
import CredentialBench.Workspace.HostState
import CredentialBench.Workspace.Issuer
import CredentialBench.Workspace.Manifest
import CredentialBench.Workspace.Scenario
import CredentialBench.Workspace.Settings

/-!
# Plans

What a workspace consists of is settled before anything is written: the documents in it, and the
steps that write them, follow from the settings, the scenario and the place of the workspace. Hosts
and services come in the order of the scenario; a host is finished before the next one is begun, and
the manifest comes last. Only where the certificates and keys are is up to the issuer, and the
manifest records what it has answered.

Before its first synchronisation a service has seeds: credentials for a first login, and values that
stand where synchronised ones will. All are made of the service's name, and none is a value that the
store ever serves.

```
<root>/layout.json
<root>/nodes/<host>/certs/<service>.crt, <service>.key
<root>/nodes/<host>/configs/<service>.toml
<root>/nodes/<host>/summaries/
<root>/nodes/<host>/secrets/services/<service>/role_id, secret_id, eab.json
<root>/nodes/<host>/state.json
<root>/nodes/<host>/bin/<agent>
```
-/

namespace CredentialBench.Workspace

/-! ## Places -/

namespace Layout

/-- The manifest. -/
def manifest (root : Place) : Place := root ++ ["layout.json"]

/-- The directory of a host. -/
def host (root : Place) (id : String) : Place := root ++ ["nodes", id]

/-- The directory of a host's certificates. -/
def certs (host : Place) : Place := host ++ ["certs"]

/-- The directory of a host's agent configurations. -/
def configs (host : Place) : Place := host ++ ["configs"]

/-- The directory of the summaries that the agent writes. -/
def summaries (host : Place) : Place := host ++ ["summaries"]

/-- The directory of a service's seeds. -/
def seeds (host : Place) (service : String) : Place := host ++ ["secrets", "services", service]

/-- The state of a host. -/
def state (host : Place) : Place := host ++ ["state.json"]

/-- The directory of a host's programs. -/
def programs (host : Place) : Place := host ++ ["bin"]

/-- The agent of a host. -/
def agent (host : Place) : Place := programs host ++ ["bootroot-agent"]

/-- The role of a service. -/
def roleId (host : Place) (service : String) : Place := seeds host service ++ ["role_id"]

/-- The secret of a service's first login. -/
def secretId (host : Place) (service : String) : Place := seeds host service ++ ["secret_id"]

/-- The binding of a service to an external account. -/
def eab (host : Place) (service : String) : Place := seeds host service ++ ["eab.json"]

/-- The agent configuration of a service. -/
def agentConfig (host : Place) (service : String) : Place := configs host ++ [service ++ ".toml"]

/-- Where the agent will write the trusted certificates of a service. -/
def caBundle (host : Place) (service : String) : Place :=
  certs host ++ [service ++ "-ca-bundle.pem"]

/-- Where the agent will write the summary of a service. -/
def summary (host : Place) (service : String) : Place := summaries host ++ [service ++ ".json"]

end Layout

/-! ## Seeds -/

namespace Seed

/-- The identifier of a service's role. -/
def roleId (service : String) : String := "role-" ++ service

/-- The secret of a service's first login. -/
def secretId (service : String) : String := "seed-secret-" ++ service

/-- The name of a service's role and of the policy of that role. -/
def roleName (service : String) : String := "bootroot-service-" ++ service

/-- The binding to an external account, as JSON. -/
def eab (service : String) : Json.Value := .object [
  ("hmac", .string ("seed-hmac-" ++ service)),
  ("kid", .string ("seed-kid-" ++ service))]

end Seed

/-! ## Documents -/

/-- Whom the certificate of a service is for. -/
def Service.identity (s : Service) (hostId domain : String) : Identity :=
  ⟨s.name, hostId, s.instanceId, domain⟩

/-- The manifest's entry of a service, with what its issuer has answered. -/
def Service.entry (s : Service) (root : Place) (hostId : String) (issued : Issued) : ServiceEntry :=
  let host := Layout.host root hostId
  let text := Path.textOfPlace
  { host := hostId
    service := s.name
    deployType := s.deployType
    instanceId := s.instanceId
    containerName := s.containerName
    workDir := text host
    statePath := text (Layout.state host)
    roleIdPath := text (Layout.roleId host s.name)
    secretIdPath := text (Layout.secretId host s.name)
    eabPath := text (Layout.eab host s.name)
    agentConfigPath := text (Layout.agentConfig host s.name)
    certPath := issued.certPath
    keyPath := issued.keyPath
    caBundlePath := text (Layout.caBundle host s.name)
    summaryPath := text (Layout.summary host s.name) }

/-- The state of a service before the first synchronisation. -/
def Service.state (s : Service) (hostId domain : String) : ServiceState where
  service := s.name
  deployType := s.deployType
  delivery := .remoteBootstrap
  sync := .pending
  hostname := hostId
  domain := domain
  agentConfigPath := "configs/" ++ s.name ++ ".toml"
  certPath := "certs/" ++ s.name ++ ".crt"
  keyPath := "certs/" ++ s.name ++ ".key"
  instanceId := s.instanceId
  containerName := s.containerName
  notes := none
  role := {
    name := Seed.roleName s.name
    roleId := Seed.roleId s.name
    secretIdPath := "secrets/services/" ++ s.name ++ "/secret_id"
    policy := Seed.roleName s.name }

/-- The manifest's part about a host, with what has been answered for its services in order. -/
def Host.entry (h : Host) (root : Place) (issued : List Issued) : HostEntry where
  host := h.id
  workDir := Path.textOfPlace (Layout.host root h.id)
  services := List.zipWith (fun s => s.entry root h.id) h.services issued

/-- The manifest's parts about some hosts, with what has been answered for all of their services in
order. -/
def hostEntries (root : Place) : List Host → List Issued → List HostEntry
  | [], _ => []
  | h :: rest, issued =>
    h.entry root (issued.take h.services.length) ::
      hostEntries root rest (issued.drop h.services.length)

/-- The state of a host before the first synchronisation. -/
def Host.state (h : Host) (settings : Settings) : HostState :=
  { HostState.empty settings.storeUrl settings.mount with
    services := .ofList (h.services.map fun s => (s.name, s.state h.id settings.domain)) }

/-- The manifest of a scenario in a place, with what has been answered for its services in
order. -/
def Scenario.manifest (s : Scenario) (root : Place) (issued : List Issued) : Manifest :=
  .ofHosts s.id (hostEntries root s.hosts issued)

/-- A value as the content of a file, in lines. -/
def jsonContent (v : Json.Value) : Content := .ofText v.indented

/-! ## Steps -/

/-- Who may use a file. -/
inductive Access
  /-- Its owner, to read and write. -/
  | owner
  /-- Whom the system lets use new files. -/
  | default
  deriving DecidableEq

/-- A step in writing a workspace. -/
inductive Step
  /-- Have a directory, and those above it. -/
  | directory (place : Place)
  /-- Write a file. -/
  | write (place : Place) (access : Access) (content : Content)
  /-- Have a certificate issued into a directory. -/
  | issue (identity : Identity) (certs : Place)
  /-- Copy the agent from a file, or write the script that does nothing if there is none. -/
  | install (agent : Option String) (place : Place)
  deriving DecidableEq

/-- The steps for a service. -/
def Service.steps (s : Service) (settings : Settings) (host : Place) (hostId : String) :
    List Step := [
  .directory (Layout.seeds host s.name),
  .write (Layout.roleId host s.name) .owner (.ofText (Seed.roleId s.name ++ "\n")),
  .write (Layout.secretId host s.name) .owner (.ofText (Seed.secretId s.name ++ "\n")),
  .write (Layout.eab host s.name) .owner (.ofText (Seed.eab s.name).compact),
  .write (Layout.agentConfig host s.name) .owner
    (.ofText (AgentConfig.forService s.name hostId s.instanceId).toToml),
  .issue (s.identity hostId settings.domain) (Layout.certs host)]

/-- The steps for a host. -/
def Host.steps (h : Host) (settings : Settings) (root : Place) : List Step :=
  let host := Layout.host root h.id
  [.directory (Layout.certs host), .directory (Layout.configs host),
    .directory (Layout.summaries host)] ++
  h.services.flatMap (fun s => s.steps settings host h.id) ++
  [.write (Layout.state host) .default (jsonContent (h.state settings).toJson),
    .directory (Layout.programs host), .install settings.agentStub (Layout.agent host)]

/-- The steps for the hosts of a scenario. -/
def Scenario.hostSteps (s : Scenario) (settings : Settings) (root : Place) : List Step :=
  s.hosts.flatMap fun h => h.steps settings root

/-- The step that writes a manifest. -/
def Manifest.step (m : Manifest) (root : Place) : Step :=
  .write (Layout.manifest root) .default (jsonContent m.toJson)

end CredentialBench.Workspace
