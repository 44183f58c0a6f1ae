import AgentLang.Build
import AgentLang.Code.Header
import AgentLang.Code.Listing
import AgentLang.Code.Persisted
import AgentLang.CommandLine.FileTree
import AgentLang.CommandLine.Run
import AgentLang.Json.Printer
import AgentLang.Json.Reader
import AgentLang.Json.Tree
import AgentLang.Main
import AgentLang.Proofs.Contracts
import AgentLang.Proofs.Declarations
import AgentLang.Proofs.Execution.Machine
import AgentLang.Proofs.Execution.Meaning
import AgentLang.Proofs.Execution.StructuredCode
import AgentLang.Proofs.Generation.HandingBack
import AgentLang.Proofs.Generation.Plan
import AgentLang.Proofs.Generation.Walk
import AgentLang.Proofs.Lexing.Words
import AgentLang.Proofs.Printing.Normal
import AgentLang.Proofs.Printing.RoundTrip
import AgentLang.Proofs.Reading.Completeness
import AgentLang.Proofs.Reading.Soundness
import AgentLang.Workbench
import AgentLang.Proofs.Shape
import AgentLang.Proofs.Generation.Returning
import AgentLang.Proofs.Generation.CallSites
import AgentLang.Proofs.Generation.Inlining
import AgentLang.Proofs.Generation.Lowering
import AgentLang.Proofs.Generation.Positions
import AgentLang.Proofs.Generation.Instructions
import AgentLang.Proofs.Generation.Collapse
import AgentLang.Proofs.Reading.Descent
import AgentLang.Proofs.Reading.Agreement
import AgentLang.Proofs.Building
import AgentLang.Proofs.Workbench
import AgentLang.Proofs.Json.Strings
import AgentLang.Proofs.Json.Texts
import AgentLang.Proofs.Text.Decimals
import AgentLang.Proofs.Json.Dumps
import AgentLang.Proofs.Reading.Continuation
import AgentLang.Proofs.Reading.Refusals
import AgentLang.Proofs.Lexing.Layout
import AgentLang.Proofs.Text.Lines
import AgentLang.Proofs.Persisted
import AgentLang.Proofs.Persisted.Lines
import AgentLang.Proofs.Listing.Decoding
import AgentLang.Proofs.Listing.Recovery
import AgentLang.Proofs.Generation.Tables
import AgentLang.Proofs.DeclarationOrder
import AgentLang.Proofs.CommandLine.Locations
import AgentLang.Proofs.CommandLine.Directories
import AgentLang.Proofs.CommandLine.Artifacts
import AgentLang.Proofs.CommandLine.Traces
import AgentLang.Proofs.CommandLine.Neighbours
import AgentLang.Proofs.Generation.Styles
import AgentLang.Proofs.Generation.Sequencing
import AgentLang.Proofs.Generation.Targets
import AgentLang.Proofs.Header
