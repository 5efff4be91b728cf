import CredentialBench.CommandLine.Options
import CredentialBench.Simulator.Listener
import CredentialBench.Workspace.Run

/-!
# The three programs

One program writes a workspace, one is the simulator, and one stands in for the agent and does
nothing. A program's result is its exit code, what it prints, and the first line of what it
reports: zero for success, one for a failure, two for a command line that is wrong, and 101 where
an issuer panics.
-/

namespace CredentialBench.CommandLine

/-- The result of a program. -/
structure Result where
  exit : Nat
  output : String
  /-- The outermost cause of a failure. -/
  error : Option String
  deriving DecidableEq

namespace Result

/-- A command line that is wrong. -/
def usage : Result := ⟨2, "", none⟩

/-- A failure. The first line of its cause is reported. -/
def failure (cause : String) : Result :=
  ⟨1, "", some (String.ofList (("Error: " ++ cause).toList.takeWhile (· != '\n')))⟩

/-- A program that is stopped by a panic. -/
def aborted : Result := ⟨101, "", none⟩

/-- Success. -/
def success (output : String) : Result := ⟨0, output, none⟩

end Result

/-! ## Writing a workspace -/

/-- The options of the program that writes a workspace. -/
def workspaceSwitches : List Switch := [
  ⟨"scenario-file", none, .path, true⟩,
  ⟨"artifact-dir", none, .path, true⟩,
  ⟨"config", some 'c', .path, false⟩,
  ⟨"issuer", none, .oneOf (Workspace.Backend.all.map fun b => b.name), false⟩,
  ⟨"domain", none, .text, false⟩,
  ⟨"openbao-url", none, .text, false⟩,
  ⟨"kv-mount", none, .text, false⟩,
  ⟨"agent-stub", none, .path, false⟩,
  ⟨"verbose", some 'v', .nothing, false⟩]

/-- The settings with those replaced that a command line gives. -/
def overrideSettings (g : Given) (s : Workspace.Settings) : Workspace.Settings where
  domain := (g.lookup "domain").getD s.domain
  storeUrl := (g.lookup "openbao-url").getD s.storeUrl
  mount := (g.lookup "kv-mount").getD s.mount
  validityDays := s.validityDays
  backend := ((g.lookup "issuer").bind fun name =>
    Workspace.Backend.all.find? fun b => b.name == name).getD s.backend
  agentStub := (g.lookup "agent-stub") <|> s.agentStub

/-- Write a workspace, as the given options say. -/
def writeWorkspace (machine : Workspace.Issuer.Machine) (today : Nat) (g : Given) (t : FileTree) :
    Result × FileTree :=
  let scenarioFile := (g.lookup "scenario-file").getD ""
  let directory := (g.lookup "artifact-dir").getD ""
  let loaded : Except String Workspace.Settings :=
    match g.lookup "config" with
    | none => .ok .default
    | some path =>
      (Workspace.Settings.load t path).mapError fun _ => "Failed to load config " ++ path
  match loaded with
  | .error cause => (.failure cause, t)
  | .ok settings =>
    let settings := overrideSettings g settings
    match Workspace.Scenario.load t scenarioFile with
    | .error _ => (.failure ("Failed to load scenario " ++ scenarioFile), t)
    | .ok scenario =>
      match Workspace.run (settings.issuer machine today) settings scenario directory ⟨t, []⟩ with
      | (.error .panic, b) => (.aborted, b.tree)
      | (.error _, b) => (.failure "Workspace generation failed", b.tree)
      | (.ok _, b) => (.success (Path.append directory "layout.json" ++ "\n"), b.tree)

/-- The program that writes a workspace. -/
def workspaceProgram (machine : Workspace.Issuer.Machine) (today : Nat) (words : List String)
    (t : FileTree) : Result × FileTree :=
  match read workspaceSwitches words with
  | .usage => (.usage, t)
  | .help => (.success "", t)
  | .given g => writeWorkspace machine today g t

/-! ## The simulator -/

/-- The options of the simulator. -/
def simulatorSwitches : List Switch := [
  ⟨"host", none, .text, false⟩,
  ⟨"port", some 'p', .port, false⟩,
  ⟨"config", some 'c', .path, false⟩,
  ⟨"verbose", some 'v', .nothing, false⟩]

/-- The variable of the environment that gives the port where no option does. -/
def portVariable : String := "MOCK_OPENBAO_PORT"

/-- What the simulator comes to before it serves anybody: a result, or the address that it listens
on. -/
def startSimulator (net : Simulator.Network) (environment words : List (String × String))
    (t : FileTree) : Except Result Net.SocketAddress := do
  let port ← match words.lookup "port" <|> environment.lookup portVariable with
    | none => pure none
    | some s =>
      match port? s with
      | some p => pure (some p)
      | none => throw .usage
  let settings ← match words.lookup "config" with
    | none => pure Simulator.Settings.default
    | some path =>
      (Simulator.Settings.load t path).mapError fun _ => .failure ("Failed to load config " ++ path)
  (Simulator.listen net (settings.override (words.lookup "host") port)).mapError fun _ =>
    .failure "Mock OpenBao server failed"

/-- The simulator, up to the moment when it listens. -/
def simulatorProgram (net : Simulator.Network) (environment : List (String × String))
    (words : List String) (t : FileTree) : Except Result Net.SocketAddress :=
  match read simulatorSwitches words with
  | .usage => .error .usage
  | .help => .error (.success "")
  | .given g => startSimulator net environment g t

/-! ## The agent -/

/-- The program that stands in for the agent: it takes any words and does nothing. -/
def agentProgram (_words : List String) : Result := .success ""

end CredentialBench.CommandLine
