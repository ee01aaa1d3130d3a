import Mtk3Smp.Kernel.ScheduleProps
import Mtk3Smp.Smp.System
import Mtk3Smp.Smp.Steps
import Mtk3Smp.Smp.SingleOwner
import Mtk3Smp.Smp.Ipi
import Mtk3Smp.Smp.KernelLock
import Mtk3Smp.Smp.MaskNesting
import Mtk3Smp.Smp.DriverLock
import Mtk3Smp.Mem.HeapProps
import Mtk3Smp.Mem.HeapSizes
import Mtk3Smp.Mem.PoolProps
import Mtk3Smp.Ipc.MessageBufferProps
import Mtk3Smp.Time.HandlerLinks
import Mtk3Smp.Time.HandlerLog
import Mtk3Smp.Time.HandlerQueue
import Mtk3Smp.Time.HandlerRuns
import Mtk3Smp.Sync.Wait
import Mtk3Smp.Lib.KeyOrder
import Mtk3Smp.Sync.Gcb
import Mtk3Smp.Sync.Semaphore
import Mtk3Smp.Sync.EventFlag
import Mtk3Smp.Mem.PoolWait
import Mtk3Smp.Ipc.Mailbox
import Mtk3Smp.Ipc.MailboxProps
import Mtk3Smp.Lib.Census
import Mtk3Smp.Sync.FastLock
import Mtk3Smp.Sync.FastMLock
import Mtk3Smp.Sync.FastMLockProps
import Mtk3Smp.Mem.FixedPool
import Mtk3Smp.Mem.FixedPoolProps
import Mtk3Smp.Kernel.SingleCore
import Mtk3Smp.Kernel.ReadyQueue
import Mtk3Smp.Kernel.SingleCoreProps
import Mtk3Smp.Kernel.SingleCoreCalls
import Mtk3Smp.Kernel.SingleCoreRuns
import Mtk3Smp.Lib.RingLinks
import Mtk3Smp.Sync.WaitCalls
import Mtk3Smp.Sync.WaitShape
import Mtk3Smp.Lib.Holdings
import Mtk3Smp.Sync.WaitPlaces
import Mtk3Smp.Lib.WrapClock
import Mtk3Smp.Time.TimerQueue
import Mtk3Smp.Time.TimerQueueProps
import Mtk3Smp.Time.CyclicTimes
import Mtk3Smp.Lib.LtsRounds
import Mtk3Smp.Time.TickDue
import Mtk3Smp.Time.TickRounds
import Mtk3Smp.Ipc.MessageBufferLifeProps
import Mtk3Smp.Ipc.MessageBufferCreate
import Mtk3Smp.Wifi.RadioStatus
import Mtk3Smp.Kernel.ScheduleBest
import Mtk3Smp.Kernel.SchedulePublish
import Mtk3Smp.Dev.Open
import Mtk3Smp.Lib.FreePool
import Mtk3Smp.Lib.Tally
import Mtk3Smp.Dev.OpenProps
import Mtk3Smp.Dev.OpenModes
import Mtk3Smp.Dev.OpenPairing
import Mtk3Smp.Dev.Serial
import Mtk3Smp.Dev.SerialProps
import Mtk3Smp.Dev.SerialSides
import Mtk3Smp.Dev.SerialRuns
import Mtk3Smp.Dev.Names
import Mtk3Smp.Dev.NamesProps
import Mtk3Smp.Dev.NamesTable
import Mtk3Smp.Dev.Adc
import Mtk3Smp.Dev.AdcProps
import Mtk3Smp.Dev.I2c
import Mtk3Smp.Dev.I2cProps
import Mtk3Smp.Dev.I2cRuns
import Mtk3Smp.Dev.Request
import Mtk3Smp.Dev.RequestCalls
import Mtk3Smp.Dev.RequestAbort
import Mtk3Smp.Dev.RequestProps
import Mtk3Smp.Dev.RequestRuns
import Mtk3Smp.Tstdlib.Bitop
import Mtk3Smp.Tstdlib.BitSearch
import Mtk3Smp.Kernel.PriorityMap
import Mtk3Smp.Kernel.PriorityQueue
import Mtk3Smp.Kernel.PriorityQueueProps
import Mtk3Smp.Time.PhysicalTimer
import Mtk3Smp.Dev.SerialQuery
import Mtk3Smp.Smp.Atomic
import Mtk3Smp.Smp.AtomicProps
import Mtk3Smp.Tmonitor.UsbConsole
import Mtk3Smp.Tmonitor.UsbConsoleProps
import Mtk3Smp.Net.Lwip
import Mtk3Smp.Net.UdpEcho
import Mtk3Smp.Net.UdpEchoProps
import Mtk3Smp.Net.TcpConn
import Mtk3Smp.Net.TcpEcho
import Mtk3Smp.Net.TcpBulk
import Mtk3Smp.Net.Ping
import Mtk3Smp.Net.Verdicts
import Mtk3Smp.Net.Segments
import Mtk3Smp.Net.SegmentRuns
import Mtk3Smp.Lib.CFormat
import Mtk3Smp.Tmonitor.Printf
import Mtk3Smp.Tmonitor.PrintfRead
import Mtk3Smp.Tmonitor.PrintfProps
import Mtk3Smp.Tmonitor.PrintfRight
import Mtk3Smp.Tmonitor.SprintfProps
import Mtk3Smp.Smp.Launch
import Mtk3Smp.Ipc.Rendezvous
import Mtk3Smp.Ipc.RendezvousPlaces
import Mtk3Smp.Ipc.RendezvousWaits
import Mtk3Smp.Ipc.RendezvousNumbers
import Mtk3Smp.Ipc.RendezvousTurns
import Mtk3Smp.Ipc.RendezvousTalks
import Mtk3Smp.Ipc.RendezvousFits
import Mtk3Smp.Ipc.RendezvousRuns
