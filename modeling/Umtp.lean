import Umtp.Kit.FuelLoop
import Umtp.Kit.FiniteRun
import Umtp.Machine
import Umtp.RingBuf
import Umtp.Service
import Umtp.Npdu
import Umtp.Mpu
import Umtp.Apdu
import Umtp.SessionProcess
import Umtp.Receive
import Umtp.MpuTask
import Umtp.SessionTable
import Umtp.PacketQueue
import Umtp.ParserBounds
import Umtp.Reply
import Umtp.MpuDrain
import Umtp.DlUdp
import Umtp.Task
import Umtp.ReceiveBounds
import Umtp.Request
import Umtp.Node
import Umtp.SendBounds
import Umtp.Message
import Umtp.RequestRoundTrip
import Umtp.ReplyHandling
import Umtp.ReplyRoundTrip
import Umtp.SessionIds
import Umtp.RetrySchedule
import Umtp.Client
import Umtp.Correlation
import Umtp.Completion
import Umtp.Kit.LinkedRing
import Umtp.ListHead
import Umtp.ServiceRegistry
import Umtp.Hook
import Umtp.HookDispatch
import Umtp.MemoryPool
import Umtp.PoolRuns
import Umtp.Wakeup
import Umtp.Senders
import Umtp.Stopping
import Umtp.Kit.Lockstep
import Umtp.ModeHandling
import Umtp.ModeAgreement
import Umtp.Kit.RoundUp
import Umtp.PoolSizes
import Umtp.PoolAccounting
import Umtp.PoolPlacement
import Umtp.SessionClock
import Umtp.Addresses
import Umtp.ErrorStatus
import Umtp.ServiceRouting
import Umtp.SubmitOutcome
import Umtp.RequestExecution
import Umtp.ListSequence
import Umtp.HookFlags
import Umtp.HookArguments
import Umtp.Starting
import Umtp.Crypt
import Umtp.EncryptedLink
import Umtp.MessageFormat
import Umtp.Answer
import Umtp.Provenance
import Umtp.TracedCalls
import Umtp.Network
import Umtp.PlainNetwork
import Umtp.Agreement
import Umtp.EncryptedNetwork
import Umtp.OpenNetwork
import Umtp.Kit.Observed
import Umtp.RingBytes
import Umtp.RingDeque
import Umtp.RingProcesses
import Umtp.Kit.SlotMap
import Umtp.SessionMap
import Umtp.Settling
import Umtp.Traffic
import Umtp.SubmitWait
import Umtp.ListIteration
import Umtp.LocalAddress
