import DtnHardware.Lib.Machine
import DtnHardware.Lib.Calls
import DtnHardware.Lib.Broadcast
import DtnHardware.Lib.Conservation
import DtnHardware.Lib.Interference
import DtnHardware.Lib.Layout
import DtnHardware.Lib.Dominance
import DtnHardware.Lib.ArrayLoops
import DtnHardware.Lib.KeyedTable
import DtnHardware.Lib.ShiftRegister
import DtnHardware.Lib.CString
import DtnHardware.Lib.CommandLine
import DtnHardware.Lib.Tokens
import DtnHardware.Lib.TimedGraph
import DtnHardware.Lib.Tasks
import DtnHardware.Lib.TaskRules
import DtnHardware.Core.Types
import DtnHardware.Core.Bundle
import DtnHardware.Core.Wire
import DtnHardware.Core.Contact
import DtnHardware.Core.PlanLoader
import DtnHardware.Core.PlanSafety
import DtnHardware.Core.PlanText
import DtnHardware.Core.PlanRoundTrip
import DtnHardware.Core.PlanLeaks
import DtnHardware.Core.Queue
import DtnHardware.Core.Preemption
import DtnHardware.Core.Draining
import DtnHardware.Core.Custody
import DtnHardware.Core.CustodyMap
import DtnHardware.Core.Trace
import DtnHardware.Core.Disruption
import DtnHardware.Core.SharedGenerator
import DtnHardware.Cgr.Select
import DtnHardware.Cgr.Step
import DtnHardware.Cgr.Walks
import DtnHardware.Cgr.Invariant
import DtnHardware.Cgr.Soundness
import DtnHardware.Cgr.Frontier
import DtnHardware.Cgr.Bounds
import DtnHardware.Cgr.Termination
import DtnHardware.Cgr.HopLimit
import DtnHardware.Cgr.Loops
import DtnHardware.Cgr.History
import DtnHardware.Cgr.Explored
import DtnHardware.Cgr.Complete
import DtnHardware.Cgr.Optimal
import DtnHardware.Cgr.BeamWidth
import DtnHardware.Cgr.Handover
import DtnHardware.Transport.Pi
import DtnHardware.Transport.PiPaths
import DtnHardware.Transport.Esp32
import DtnHardware.Transport.Radio
import DtnHardware.Transport.Air
import DtnHardware.Transport.Reception
import DtnHardware.Transport.Receivers
import DtnHardware.Transport.LoraCommon
import DtnHardware.Transport.EspTasks
import DtnHardware.Node.Forwarding
import DtnHardware.Node.Tick
import DtnHardware.Node.Stores
import DtnHardware.Node.Timeouts
import DtnHardware.Node.TimeSync
import DtnHardware.Node.Custody
import DtnHardware.Node.Contents
import DtnHardware.Node.Sending
import DtnHardware.Node.Accounting
import DtnHardware.Node.Admission
import DtnHardware.Node.Network
import DtnHardware.Node.Ledger
import DtnHardware.Node.Delivery
import DtnHardware.Node.Stranded
import DtnHardware.Node.Relay
import DtnHardware.Node.MainPi
import DtnHardware.Node.Cli
import DtnHardware.Node.Hosts
import DtnHardware.Node.EndToEnd
import DtnHardware.Wire.Crc
import DtnHardware.Wire.Bursts
import DtnHardware.Wire.BitErrors
