import CredentialBench.Client.Link
import CredentialBench.Main
import CredentialBench.Proofs.Text.Utf8
import CredentialBench.Proofs.Text.Numeral
import CredentialBench.Proofs.Json.Grammar
import CredentialBench.Proofs.Json.Reading
import CredentialBench.Proofs.Json.Writing
import CredentialBench.Proofs.Json.Object
import CredentialBench.Proofs.Document.Records
import CredentialBench.Proofs.Document.RoundTrip
import CredentialBench.Proofs.Toml.Reading
import CredentialBench.Proofs.Toml.Printed
import CredentialBench.Proofs.Net.Url
import CredentialBench.Proofs.Net.Percent
import CredentialBench.Proofs.Net.Address
import CredentialBench.Proofs.Secret.Payload
import CredentialBench.Proofs.Store.History
import CredentialBench.Proofs.Simulator.Demand
import CredentialBench.Proofs.Simulator.Effect
import CredentialBench.Proofs.Simulator.NonInterference
import CredentialBench.Proofs.Simulator.ControlBody
import CredentialBench.Proofs.Simulator.Answer
import CredentialBench.Proofs.Simulator.Reachable
import CredentialBench.Proofs.Simulator.Recovery
import CredentialBench.Proofs.Simulator.Refusals
import CredentialBench.Proofs.Simulator.Ruling
import CredentialBench.Proofs.Simulator.Recognition
import CredentialBench.Proofs.Simulator.Surface
import CredentialBench.Proofs.Simulator.Listening
import CredentialBench.Proofs.Client.Request
import CredentialBench.Proofs.Client.Refinement
import CredentialBench.Proofs.Client.Visibility
import CredentialBench.Proofs.Client.ErrorStatus
import CredentialBench.Proofs.Settings
import CredentialBench.Proofs.FileTree.Places
import CredentialBench.Proofs.FileTree.Resolution
import CredentialBench.Proofs.FileTree.Operations
import CredentialBench.Proofs.Workspace.Step
import CredentialBench.Proofs.Workspace.Runs
import CredentialBench.Proofs.Workspace.Progress
import CredentialBench.Proofs.Workspace.Issuers
import CredentialBench.Proofs.Workspace.Outline
import CredentialBench.Proofs.Workspace.Materialize
import CredentialBench.Proofs.Workspace.Contents
import CredentialBench.Proofs.Workspace.Interruption
import CredentialBench.Proofs.Workspace.Convergence
import CredentialBench.Proofs.Workspace.Documents
import CredentialBench.Proofs.Workspace.Names
import CredentialBench.Proofs.Workspace.Separation
import CredentialBench.Proofs.Workspace.AgentConfig
import CredentialBench.Proofs.Workspace.Index
import CredentialBench.Proofs.Workspace.Programs
import CredentialBench.Proofs.Workspace.Seeds
