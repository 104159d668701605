import FlowAnalysis.Text.Position
import FlowAnalysis.Text.Blank
import FlowAnalysis.Analysis
import FlowAnalysis.CommandLine.Arguments
import FlowAnalysis.CommandLine.Command
import FlowAnalysis.CommandLine.Run
import FlowAnalysis.Main
import FlowAnalysis.Session
import FlowAnalysis.Proofs.Bracing.Verdict
import FlowAnalysis.Proofs.CommandLine.Validation
import FlowAnalysis.Proofs.Comments
import FlowAnalysis.Proofs.Conformance
import FlowAnalysis.Proofs.CoreModules
import FlowAnalysis.Proofs.Disabling
import FlowAnalysis.Proofs.EntrySignature
import FlowAnalysis.Proofs.GivenCredentials
import FlowAnalysis.Proofs.Idempotence
import FlowAnalysis.Proofs.Injection
import FlowAnalysis.Proofs.Leniency
import FlowAnalysis.Proofs.Literals.Composite
import FlowAnalysis.Proofs.Literals.Numbers
import FlowAnalysis.Proofs.Literals.Rendering
import FlowAnalysis.Proofs.Numbering
import FlowAnalysis.Proofs.Operations
import FlowAnalysis.Proofs.Relevance
import FlowAnalysis.Proofs.Reordering.Payload
import FlowAnalysis.Proofs.Requirements
import FlowAnalysis.Proofs.Schedules
import FlowAnalysis.Proofs.Scoping
import FlowAnalysis.Proofs.Secrets
import FlowAnalysis.Proofs.StepCalls
import FlowAnalysis.Proofs.StoredRecords
import FlowAnalysis.Proofs.Throws
import FlowAnalysis.Proofs.Trimming.Verdict
import FlowAnalysis.Proofs.Types.Declarations
import FlowAnalysis.Proofs.Types.Optionality
import FlowAnalysis.Proofs.ValidRecords
