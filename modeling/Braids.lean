import Braids.Lib.Runs
import Braids.Lib.Census
import Braids.Lib.Fifo
import Braids.Lib.Interaction
import Braids.Core
import Braids.Executor.Machine
import Braids.Executor.Steps
import Braids.Executor.Lanes
import Braids.Executor.Accounting
import Braids.Executor.Cascade
import Braids.Executor.Settlement
import Braids.Executor.Prepares
import Braids.Executor.Workers
import Braids.Executor.Wakeups
import Braids.Stack.Jobs
import Braids.Stack.Collect
import Braids.Stack.Client
import Braids.Stack.Steps
import Braids.Stack.Carriers
import Braids.Stack.Shutdown
import Braids.Packet.Pipeline
import Braids.Packet.Packet
import Braids.Packet.View
import Braids.Packet.Recycle
import Braids.Packet.Frames
import Braids.Packet.Runs
import Braids.Packet.Slices
import Braids.Packet.Checkout
import Braids.Lib.Toposort
import Braids.Lib.Bytes
import Braids.Lib.Dataflow
import Braids.SlotTable
import Braids.SlotTable.Handles
import Braids.SlotTable.Stale
import Braids.FastNoise.Model
import Braids.FastNoise.Codec
import Braids.FastNoise.Payload
import Braids.FastNoise.Compile
import Braids.FastNoise.Kernels
import Braids.FastNoise.Loops
import Braids.FastNoise.Encode
import Braids.FastNoise.Grid
import Braids.FastNoise.Cells
import Braids.FastNoise.Layout
import Braids.FastNoise.Semantics
import Braids.FastNoise.Compilation
import Braids.FastNoise.Schedule
import Braids.FastNoise.Order
import Braids.FastNoise.Ports
import Braids.FastNoise.Simulation
import Braids.FastNoise.Stages
import Braids.FastNoise.Replay
import Braids.FastNoise.Single
import Braids.FastNoise.Faithful
import Braids.FastNoise.Acceptance
import Braids.FastNoise.Preservation
import Braids.Executor.Contract
import Braids.Executor.Soup
import Braids.Executor.Loop
import Braids.Runtime.Hooks
import Braids.Runtime.Execution
import Braids.Runtime.Planner
import Braids.Runtime.Client
import Braids.Runtime.Steps
import Braids.Runtime.Phases
import Braids.Runtime.Jobs
import Braids.Runtime.Versions
import Braids.Runtime.Updates
import Braids.Runtime.Reuse
import Braids.Runtime.Lifecycle
import Braids.Runtime.Custody
import Braids.Runtime.Isolation
import Braids.Runtime.Turns
import Braids.Runtime.Refinement
import Braids.Runtime.Panics
import Braids.Runtime.Inline
import Braids.Runtime.Agreement
import Braids.FastNoise.Hooks
import Braids.FastNoise.Updates
import Braids.Runtime.History
import Braids.Runtime.Packets
import Braids.Runtime.Trace
import Braids.FastNoise.Cancel
import Braids.FastNoise.Declared
import Braids.FastNoise.Jobs
import Braids.Runtime.Sessions
import Braids.FastNoise.Sessions
import Braids.FastNoise.Accepts
import Braids.FastNoise.Rebuild
import Braids.Lib.Bisimulation
import Braids.FastNoise.Bisimilar
import Braids.Runtime.Prompt
import Braids.Executor.Progress
import Braids.Runtime.Progress
import Braids.Lib.Ranking
import Braids.Executor.Termination
import Braids.Runtime.Completion
import Braids.Cpu.Scratch
import Braids.Cpu.Backend
import Braids.Cpu.Jobs
import Braids.FastNoise.Backend
