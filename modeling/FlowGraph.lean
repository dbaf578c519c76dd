import FlowGraph.Graph.Printer
import FlowGraph.Proofs.Aliases
import FlowGraph.Proofs.Calls
import FlowGraph.Proofs.Confinement
import FlowGraph.Proofs.Constants
import FlowGraph.Proofs.DeadCode
import FlowGraph.Proofs.Eagerness
import FlowGraph.Proofs.Emission
import FlowGraph.Proofs.FunctionKey
import FlowGraph.Proofs.History
import FlowGraph.Proofs.Interference
import FlowGraph.Proofs.Interning
import FlowGraph.Proofs.LocalTable
import FlowGraph.Proofs.Locks
import FlowGraph.Proofs.Merge
import FlowGraph.Proofs.Narrowing
import FlowGraph.Proofs.Nesting
import FlowGraph.Proofs.Operands
import FlowGraph.Proofs.Preservation
import FlowGraph.Proofs.Reachability
import FlowGraph.Proofs.ResultSlot
import FlowGraph.Proofs.Scopes
import FlowGraph.Proofs.Service
import FlowGraph.Proofs.Temporaries
import FlowGraph.Proofs.Verification
import FlowGraph.Syntax.Data
