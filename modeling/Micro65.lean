import Micro65.Main
import Micro65.Proofs.Assembly.AddressSpace
import Micro65.Proofs.Assembly.Branching
import Micro65.Proofs.Assembly.ByteCounts
import Micro65.Proofs.Assembly.DataRange
import Micro65.Proofs.Assembly.DefinedLabels
import Micro65.Proofs.Assembly.Fetching
import Micro65.Proofs.Assembly.Joining
import Micro65.Proofs.Assembly.Pages
import Micro65.Proofs.Assembly.Solution
import Micro65.Proofs.Assembly.Views
import Micro65.Proofs.Assembly.WellFormed
import Micro65.Proofs.Bus.Ownership
import Micro65.Proofs.Cpu.Arithmetic
import Micro65.Proofs.Cpu.Chains
import Micro65.Proofs.Cpu.Cycles
import Micro65.Proofs.Cpu.Decimal
import Micro65.Proofs.Cpu.Footprint
import Micro65.Proofs.Cpu.Interruption
import Micro65.Proofs.Cpu.Locating
import Micro65.Proofs.Cpu.Masking
import Micro65.Proofs.Cpu.Stack
import Micro65.Proofs.Cpu.Ticks
import Micro65.Proofs.Cpu.Writes
import Micro65.Proofs.Devices.Placing
import Micro65.Proofs.Expr.Exchange
import Micro65.Proofs.Expr.Values
import Micro65.Proofs.Layout.Convergence
import Micro65.Proofs.Layout.Evaluation
import Micro65.Proofs.Layout.Relayout
import Micro65.Proofs.Machine.Hooks
import Micro65.Proofs.Machine.NmiEdges
import Micro65.Proofs.Machine.Reports
import Micro65.Proofs.Machine.Runs
import Micro65.Proofs.Machine.Transparency
import Micro65.Proofs.Monitor.Breakpoints
import Micro65.Proofs.Monitor.Snapshot
import Micro65.Proofs.Output.Lossless
import Micro65.Proofs.Source.Attachment
import Micro65.Proofs.Source.Inlining
import Micro65.Proofs.Source.Printing
