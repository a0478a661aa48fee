import Retrocore.Main
import Retrocore.Panel
import Retrocore.Proofs.Breakpoints.Edits
import Retrocore.Proofs.Calls
import Retrocore.Proofs.Decimal.Adjust
import Retrocore.Proofs.Binary.CarryChains
import Retrocore.Proofs.Binary.Overflow
import Retrocore.Proofs.Compatible.Agree
import Retrocore.Proofs.Compatible.Execute
import Retrocore.Proofs.Compatible.Lockstep
import Retrocore.Proofs.Execution.Chronicle
import Retrocore.Proofs.Execution.FreeRun
import Retrocore.Proofs.Execution.Invisible
import Retrocore.Proofs.Execution.Budget
import Retrocore.Proofs.Disassembly.Listing
import Retrocore.Proofs.Disassembly.Loading
import Retrocore.Proofs.Disassembly.Faithful
import Retrocore.Proofs.Disassembly.Executors
import Retrocore.Proofs.Lr35902.Delivery
import Retrocore.Proofs.Lr35902.Delay
import Retrocore.Proofs.Lmc.ThreeDigits
import Retrocore.Proofs.Operations
import Retrocore.Proofs.Input.TypedNumbers
import Retrocore.Proofs.Input.Waiting
import Retrocore.Proofs.Interrupts.FlipFlops
import Retrocore.Proofs.Interrupts.Latch
import Retrocore.Proofs.Interrupts.ShutOff
import Retrocore.Proofs.Interrupts.Supplied
import Retrocore.Proofs.Interrupts.NonMaskable
import Retrocore.Proofs.Memory.Propagation
import Retrocore.Proofs.Observers.FanOut
import Retrocore.Proofs.Memory.ReadOnly
import Retrocore.Proofs.Memory.Ring
import Retrocore.Proofs.Z80.Blocks
import Retrocore.Proofs.Z80.BlockCopy
import Retrocore.Proofs.Z80.BlockSearch
import Retrocore.Proofs.Z80.BlockTransfer
import Retrocore.Proofs.Z80.Prefixed
import Retrocore.Proofs.Z80.IndexRegisters
import Retrocore.Proofs.Z80.RelativeJumps
import Retrocore.Proofs.Z80.Undocumented
import Retrocore.Proofs.Z80.Grammar
import Retrocore.Proofs.Z80.Refresh
import Retrocore.Proofs.Execution.Breakpoints
import Retrocore.Proofs.Execution.Departures
import Retrocore.Proofs.Execution.Transitions
import Retrocore.Proofs.Execution.Unattended
import Retrocore.Proofs.Faults.Undecodable
import Retrocore.Proofs.Faults.Executing
import Retrocore.Proofs.Frames.Requests
import Retrocore.Proofs.Cpm.Rounds
import Retrocore.Proofs.Cpm.Traps
import Retrocore.Proofs.Cpm.Halting
import Retrocore.Proofs.Cpm.Image
import Retrocore.Proofs.Cpm.SystemCalls
import Retrocore.Proofs.CommandLine.CopiedLines
import Retrocore.Proofs.Disassembly.Tiling
import Retrocore.Proofs.Disassembly.Reassembly
import Retrocore.Proofs.Synacor.FifteenBits
import Retrocore.Proofs.Synacor.Nesting
import Retrocore.Proofs.Stack.RoundTrips
