import CredentialBench.Document.Record
import CredentialBench.FileTree.Operations
import CredentialBench.Json.Reader
import CredentialBench.Text.Blank
import CredentialBench.Text.Quoted

/-!
# Scenarios

A scenario names hosts, and each host has services. A host's name is also the name of its directory,
and a service's name that of its files, so a scenario is checked before anything is written: names
must be single segments of a path, and no two hosts, and no two services of a host, may have the
same. The first violation in the order of the document is reported.
-/

namespace CredentialBench.Workspace

open Document

/-- A service that the agent sets up on a host. -/
structure Service where
  name : String
  /-- How the service is deployed; carried through unchanged. -/
  deployType : String
  /-- The first label of the name in the service's certificate. -/
  instanceId : String
  /-- The container that the service runs in, if it does. -/
  containerName : Option String
  deriving DecidableEq

/-- A host with its services, in order. -/
structure Host where
  id : String
  services : List Service
  deriving DecidableEq

/-- A scenario: its name and its hosts, in order. -/
structure Scenario where
  id : String
  hosts : List Host
  deriving DecidableEq

namespace Scenario

/-- The number of services on all hosts. -/
def serviceCount (s : Scenario) : Nat := (s.hosts.flatMap fun h => h.services).length

/-! ## Documents -/

/-- A service in a document. -/
def serviceDecoder : Decoder Service := Record.decoder <|
  Service.mk <$> .required "service_name" Decoder.string
    <*> .required "deploy_type" Decoder.string
    <*> .required "instance_id" Decoder.string
    <*> .defaulted "container_name" Decoder.string.nullable none

/-- A host in a document. -/
def hostDecoder : Decoder Host := Record.decoder <|
  Host.mk <$> .required "id" Decoder.string
    <*> .defaulted "services" serviceDecoder.list []

/-- A scenario in a document. -/
def decoder : Decoder Scenario := Record.decoder <|
  Scenario.mk <$> .required "id" Decoder.string
    <*> .required "nodes" hostDecoder.list

/-- A service as JSON. -/
def serviceJson (s : Service) : Json.Value := .object [
  ("service_name", .string s.name),
  ("deploy_type", .string s.deployType),
  ("instance_id", .string s.instanceId),
  ("container_name", .ofOption s.containerName)]

/-- A host as JSON. -/
def hostJson (h : Host) : Json.Value := .object [
  ("id", .string h.id),
  ("services", .array (h.services.map serviceJson))]

/-- A scenario as JSON. -/
def toJson (s : Scenario) : Json.Value := .object [
  ("id", .string s.id),
  ("nodes", .array (s.hosts.map hostJson))]

/-! ## Checking -/

/-- What a name in a scenario is the name of. -/
inductive Subject
  | scenario
  | host
  | service
  deriving DecidableEq

/-- The words for it. -/
def Subject.text : Subject → String
  | scenario => "scenario id"
  | host => "node id"
  | service => "service name"

/-- What a scenario can have wrong. -/
inductive Violation
  /-- A name is blank. -/
  | blank (what : Subject)
  /-- A name is not a single segment of a path. -/
  | notSegment (what : Subject) (name : String)
  | duplicateHost (host : String)
  | blankInstance (service host : String)
  | duplicateService (service host : String)
  deriving DecidableEq

/-- The words for a violation. -/
def Violation.message (v : Violation) : String :=
  "invalid scenario: " ++ match v with
  | blank what => what.text ++ " must not be empty"
  | notSegment what name => what.text ++ " " ++ Text.quoted name ++ " is not a valid path segment"
  | duplicateHost host => "duplicate node id " ++ Text.quoted host
  | blankInstance service host =>
    "service " ++ Text.quoted service ++ " on node " ++ Text.quoted host ++
      " has an empty instance id"
  | duplicateService service host =>
    "duplicate service " ++ Text.quoted service ++ " on node " ++ Text.quoted host

/-- Whether a name is a single segment of a path: it neither stays nor goes up, and no slash of
either kind divides it. -/
def isSegment (name : String) : Bool :=
  name != "." && name != ".." && !name.toList.contains '/' && !name.toList.contains '\\'

/-- A name must not be blank, and must be a single segment. -/
def checkName (what : Subject) (name : String) : Except Violation Unit :=
  if Text.blank name then .error (.blank what)
  else if !isSegment name then .error (.notSegment what name)
  else .ok ()

/-- The services of a host, where services of the names `seen` came before. -/
def checkServices (host : String) : (seen : List String) → List Service → Except Violation Unit
  | _, [] => .ok ()
  | seen, s :: rest => do
    checkName .service s.name
    if Text.blank s.instanceId then throw (.blankInstance s.name host)
    if s.name ∈ seen then throw (.duplicateService s.name host)
    checkServices host (s.name :: seen) rest

/-- Hosts, where hosts of the names `seen` came before. -/
def checkHosts : (seen : List String) → List Host → Except Violation Unit
  | _, [] => .ok ()
  | seen, h :: rest => do
    checkName .host h.id
    if h.id ∈ seen then throw (.duplicateHost h.id)
    checkServices h.id [] h.services
    checkHosts (h.id :: seen) rest

/-- The first violation of a scenario, if there is one. -/
def check (s : Scenario) : Except Violation Unit := do
  checkName .scenario s.id
  checkHosts [] s.hosts

/-! ## Loading -/

/-- Why a scenario cannot be loaded. -/
inductive Problem
  | load (e : LoadError)
  | invalid (v : Violation)
  deriving DecidableEq

/-- A scenario from the text of a file, checked. -/
def ofText (s : String) : Except Problem Scenario := do
  let scenario ← (Json.decode decoder (Text.Utf8.bytes s)).mapError fun f => .load (.parse f)
  scenario.check.mapError .invalid
  return scenario

/-- A scenario from a file, checked. -/
def load (t : FileTree) (path : String) : Except Problem Scenario :=
  match t.readText path with
  | .error e => .error (.load (.read e))
  | .ok s => ofText s

end Scenario

end CredentialBench.Workspace
