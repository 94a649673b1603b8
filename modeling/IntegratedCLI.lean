import IntegratedCLI.PerfEvent.ThreadLifetimes
import IntegratedCLI.PerfEvent.SwitchOutput
import IntegratedCLI.PerfEvent.Backpressure
import IntegratedCLI.PerfEvent.PerCpuCountSampleGenerator
import IntegratedCLI.PerfEvent.RawRead
import IntegratedCLI.PerfEvent.ClockConversion
import IntegratedCLI.Dynolog.OnDemandLimits
import IntegratedCLI.Dynolog.SimpleJsonServer
import IntegratedCLI.Dynolog.FabricManager
import IntegratedCLI.Tagstack.TscConverterStream
import IntegratedCLI.Tagstack.DormantStates
import IntegratedCLI.Tagstack.Combinator
import IntegratedCLI.Ringbuffer.ByteQueue
import IntegratedCLI.Ringbuffer.Ownership
import IntegratedCLI.Ringbuffer.SizedChunks
import IntegratedCLI.Ringbuffer.StopBytes
import IntegratedCLI.Orquesta.Frames
import IntegratedCLI.Orquesta.Composed
import IntegratedCLI.Mon.StateAgreement
import IntegratedCLI.Mon.Combining
import IntegratedCLI.Mon.TimeFilter
import IntegratedCLI.Tagstack.SlicesConsumed
import IntegratedCLI.Tagstack.ClosedOnExit
import IntegratedCLI.Tagstack.EventsConsumed
import IntegratedCLI.Orquesta.WellFormed
import IntegratedCLI.Orquesta.Sequences
import IntegratedCLI.Orquesta.Retrying
import IntegratedCLI.Dynolog.AlignedFrames
import IntegratedCLI.Dynolog.SeriesWidths
import IntegratedCLI.Dynolog.IntegerRates
import IntegratedCLI.Dynolog.TickerPlan
import IntegratedCLI.Dynolog.CPUUsage
import IntegratedCLI.Mon.BPerf
import IntegratedCLI.Lac.ContextShift
import IntegratedCLI.Lac.SessionPrefix
import IntegratedCLI.Lac.EditedText
import IntegratedCLI.Lac.EarlyStop
import IntegratedCLI.Orquesta.ContextReads
import IntegratedCLI.Orquesta.Documents
import IntegratedCLI.Tagstack.ErrorWindows
import IntegratedCLI.Mon.FailedChanges
import IntegratedCLI.Orquesta.Publishing
import IntegratedCLI.Orquesta.Schemas
import IntegratedCLI.Mon.Binning
import IntegratedCLI.Lib.Worklist
import IntegratedCLI.Orquesta.Reachability
import IntegratedCLI.Orquesta.Composing
import IntegratedCLI.Orquesta.CycleTests
import IntegratedCLI.Orquesta.Inspection
import IntegratedCLI.Orquesta.AssignedReads
import IntegratedCLI.Orquesta.ItemStatuses
import IntegratedCLI.Common.Pow2
import IntegratedCLI.Tagstack.TreeLevels
import IntegratedCLI.Tagstack.SliceLookup
import IntegratedCLI.PerfEvent.RunningRatio
import IntegratedCLI.Dynolog.Iterators
import IntegratedCLI.Tagstack.StackBounds
import IntegratedCLI.Common.CpuRuns
import IntegratedCLI.Orquesta.Completed
import IntegratedCLI.Orquesta.Superseded
import IntegratedCLI.Lac.SelfExtend
import IntegratedCLI.Dynolog.TrackedJobs
import IntegratedCLI.Orquesta.Semantics
import IntegratedCLI.Dynolog.IPCMonitor
import IntegratedCLI.Lac.Suggestions
import IntegratedCLI.Lac.Choosing
import IntegratedCLI.Lac.Rounds
