import ModbusRTUBridge.Accounting
import ModbusRTUBridge.Adapter
import ModbusRTUBridge.Admission
import ModbusRTUBridge.AppliedImage
import ModbusRTUBridge.Attribution
import ModbusRTUBridge.CacheCopy
import ModbusRTUBridge.CacheImage
import ModbusRTUBridge.CachedBridge
import ModbusRTUBridge.Coherence
import ModbusRTUBridge.CompletionLedger
import ModbusRTUBridge.CompletionTransition
import ModbusRTUBridge.DecisionStream
import ModbusRTUBridge.Delivery
import ModbusRTUBridge.Deposits
import ModbusRTUBridge.DesiredImage
import ModbusRTUBridge.DeviceImage
import ModbusRTUBridge.DirectLedger
import ModbusRTUBridge.DownstreamExecutor
import ModbusRTUBridge.Fairness
import ModbusRTUBridge.Finishing
import ModbusRTUBridge.FixedStorage
import ModbusRTUBridge.ForwardPlan
import ModbusRTUBridge.Fragments
import ModbusRTUBridge.Freshness
import ModbusRTUBridge.Gateway
import ModbusRTUBridge.History
import ModbusRTUBridge.ImageEffect
import ModbusRTUBridge.IngressWork
import ModbusRTUBridge.LedgerHistory
import ModbusRTUBridge.LedgerMap
import ModbusRTUBridge.LedgerModel
import ModbusRTUBridge.LedgerRecord
import ModbusRTUBridge.LedgerSoundness
import ModbusRTUBridge.Lib.Guard
import ModbusRTUBridge.Lib.Machine
import ModbusRTUBridge.Lib.Overlay
import ModbusRTUBridge.Lib.Parties
import ModbusRTUBridge.Lib.Ring
import ModbusRTUBridge.Lib.RoundRobin
import ModbusRTUBridge.Lib.Serial
import ModbusRTUBridge.Lib.SlotCount
import ModbusRTUBridge.Lib.SlotTable
import ModbusRTUBridge.Lib.SortedRanges
import ModbusRTUBridge.Lib.Tiling
import ModbusRTUBridge.Lifecycle
import ModbusRTUBridge.Locate
import ModbusRTUBridge.LogTrace
import ModbusRTUBridge.Lookup
import ModbusRTUBridge.Memory
import ModbusRTUBridge.Notices
import ModbusRTUBridge.Ownership
import ModbusRTUBridge.Pieces
import ModbusRTUBridge.PollPlanner
import ModbusRTUBridge.PollRotation
import ModbusRTUBridge.PollScan
import ModbusRTUBridge.PollService
import ModbusRTUBridge.Preflight
import ModbusRTUBridge.Proposal
import ModbusRTUBridge.QueueModel
import ModbusRTUBridge.RingQueue
import ModbusRTUBridge.RouteTable
import ModbusRTUBridge.Search
import ModbusRTUBridge.SegmentCut
import ModbusRTUBridge.ServiceLoop
import ModbusRTUBridge.Settlement
import ModbusRTUBridge.ShiftingRoutes
import ModbusRTUBridge.Spans
import ModbusRTUBridge.StaleRetirement
import ModbusRTUBridge.Steps
import ModbusRTUBridge.StorageFrame
import ModbusRTUBridge.StoreForwardBridge
import ModbusRTUBridge.System
import ModbusRTUBridge.TokenOrder
import ModbusRTUBridge.Tracking
import ModbusRTUBridge.Translation
import ModbusRTUBridge.UpstreamReads
import ModbusRTUBridge.Validation
import ModbusRTUBridge.WorkLine
import ModbusRTUBridge.WorkSlot
import ModbusRTUBridge.WriteTrace
