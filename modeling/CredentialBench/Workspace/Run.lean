import CredentialBench.Workspace.Issuer
import CredentialBench.Workspace.Plan

/-!
# Running a plan

A workspace is written step by step. The first step that fails ends the run, and what is written by
then stays as it is. Settings and scenario are checked before anything is touched, and the manifest
is made of what the issuer has answered on the way.
-/

namespace CredentialBench.Workspace

/-- How a run ends early. All but a panic are errors that it returns. -/
inductive RunError
  /-- Certificates would not be valid for a day. -/
  | zeroValidity
  | invalidScenario (v : Scenario.Violation)
  /-- A file or a directory could not be read or written. -/
  | io (path : String) (cause : OsError)
  /-- A service has no certificate. -/
  | issue (service : String) (cause : IssueError)
  /-- The issuer has panicked, and nothing is returned. -/
  | panic
  deriving DecidableEq

/-- How a run ends whose issuer fails for a service. -/
def RunError.ofIssuer (service : String) : IssueFailure → RunError
  | .error cause => issue service cause
  | .panic => panic

/-- The files, and the identities that a certificate was asked for, in order. -/
structure Bench where
  tree : FileTree
  asked : List Identity

namespace Bench

/-- The bench with other files. -/
def withTree (b : Bench) (t : FileTree) : Bench := { b with tree := t }

/-- The outcome of an operation on the file that a path leads to. No certificate is issued by it. -/
def ofFiles (b : Bench) (path : String) (r : Except OsError Unit × FileTree) :
    Except RunError (List Issued) × Bench :=
  match r with
  | (.error e, t) => (.error (.io path e), b.withTree t)
  | (.ok (), t) => (.ok [], b.withTree t)

end Bench

/-- The script that is installed where no agent is given. -/
def agentScript : String := "#!/usr/bin/env sh\nexit 0\n"

/-- Perform a step; the result is what the issuer has answered, if it was asked. -/
def Step.perform (issuer : Issuer) (b : Bench) : Step → Except RunError (List Issued) × Bench
  | directory p =>
    let path := Path.textOfPlace p
    b.ofFiles path (b.tree.ensureDirectory path)
  | write p .owner content =>
    let path := Path.textOfPlace p
    b.ofFiles path (b.tree.writePrivate path content)
  | write p .default content =>
    let path := Path.textOfPlace p
    b.ofFiles path (b.tree.writePlain path content)
  | issue identity certs =>
    match issuer identity (Path.textOfPlace certs) b.tree with
    | (.error failure, t) =>
      (.error (.ofIssuer identity.service failure), ⟨t, b.asked ++ [identity]⟩)
    | (.ok issued, t) => (.ok [issued], ⟨t, b.asked ++ [identity]⟩)
  | install none p =>
    let path := Path.textOfPlace p
    b.ofFiles path (b.tree.writeExecutable path (.ofText agentScript))
  | install (some source) p =>
    match b.tree.fileContent source with
    | .error e => (.error (.io source e), b)
    | .ok content =>
      let path := Path.textOfPlace p
      b.ofFiles path (b.tree.writeExecutable path content)

/-- Perform steps up to the first that fails; the result is what the issuer has answered. -/
def performAll (issuer : Issuer) : Bench → List Step → Except RunError (List Issued) × Bench
  | b, [] => (.ok [], b)
  | b, s :: rest =>
    match s.perform issuer b with
    | (.error e, b) => (.error e, b)
    | (.ok issued, b) =>
      match performAll issuer b rest with
      | (.error e, b) => (.error e, b)
      | (.ok more, b) => (.ok (issued ++ more), b)

/-- Check settings and scenario. -/
def validate (settings : Settings) (s : Scenario) : Except RunError Unit := do
  settings.check.mapError fun _ => .zeroValidity
  s.check.mapError .invalidScenario

/-- Have the directory of a workspace, and find its place. -/
def prepare (b : Bench) (directory : String) : Except RunError Place × Bench :=
  match b.tree.ensureDirectory directory with
  | (.error e, t) => (.error (.io directory e), b.withTree t)
  | (.ok (), t) => ((t.canonical directory).mapError (.io directory), b.withTree t)

/-- Write the workspace of a scenario into a directory; the result is the manifest that was
written. -/
def run (issuer : Issuer) (settings : Settings) (s : Scenario) (directory : String) (b : Bench) :
    Except RunError Manifest × Bench :=
  match validate settings s with
  | .error e => (.error e, b)
  | .ok () =>
    match prepare b directory with
    | (.error e, b) => (.error e, b)
    | (.ok root, b) =>
      match performAll issuer b (s.hostSteps settings root) with
      | (.error e, b) => (.error e, b)
      | (.ok issued, b) =>
        let manifest := s.manifest root issued
        match (manifest.step root).perform issuer b with
        | (.error e, b) => (.error e, b)
        | (.ok _, b) => (.ok manifest, b)

/-- The issuer that the settings name, on some day after the first of January 1970. -/
def Settings.issuer (settings : Settings) (machine : Issuer.Machine) (today : Nat) : Issuer :=
  match settings.backend with
  | .openssl => .openssl machine none settings.validityDays
  | .internal => .internal today settings.validityDays

end CredentialBench.Workspace
