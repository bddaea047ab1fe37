import FlowAutomaton.Binary64.Read
import FlowAutomaton.Checkpoint.File
import FlowAutomaton.Diagnostics
import FlowAutomaton.Proofs.Checkpoint.RoundTrip
import FlowAutomaton.Proofs.Graph.Equivalence
import FlowAutomaton.Proofs.Graph.Refinement
import FlowAutomaton.Proofs.Checkpoint.Accepted
import FlowAutomaton.Proofs.Graph.Failure
import FlowAutomaton.Proofs.Graph.Numbering
import FlowAutomaton.Proofs.Configuration.History
import FlowAutomaton.Proofs.Graph.Exhaustion
import FlowAutomaton.Proofs.InitialValue.Outcome
import FlowAutomaton.Proofs.InitialValue.Pointwise
import FlowAutomaton.Proofs.Text.Order
import FlowAutomaton.Proofs.InitialValue.Failure
import FlowAutomaton.Proofs.InitialValue.Order
import FlowAutomaton.Proofs.Graph.InPlace
import FlowAutomaton.Proofs.Diagnostics.Heard
import FlowAutomaton.Proofs.InitialValue.Heard
import FlowAutomaton.Proofs.Session
import FlowAutomaton.Proofs.Checkpoint.Order
import FlowAutomaton.Proofs.Checkpoint.Repeats
import FlowAutomaton.Proofs.Checkpoint.Truncation
import FlowAutomaton.Proofs.Graph.Chronology
import FlowAutomaton.Proofs.Graph.Copies
import FlowAutomaton.Proofs.Soundness
import FlowAutomaton.Proofs.Checkpoint.Soundness
import FlowAutomaton.Proofs.Graph.Latest
import FlowAutomaton.Proofs.Table.Entry
import FlowAutomaton.Proofs.Value.History
import FlowAutomaton.Proofs.Value.Commute
import FlowAutomaton.Proofs.Value.Overwrite
import FlowAutomaton.Proofs.InitialValue.Width
import FlowAutomaton.Proofs.Numeral.Printed
import FlowAutomaton.Proofs.Parameter
import FlowAutomaton.Proofs.Register.Index
import FlowAutomaton.Proofs.Numeral.Grammar
import FlowAutomaton.Proofs.Address.Text
import FlowAutomaton.Proofs.Bits.Exact
import FlowAutomaton.Proofs.Statistics.History
