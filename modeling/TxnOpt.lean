import TxnOpt.Evrptw.Proof.PlanSearch
import TxnOpt.Evrptw.Proof.Optimality
import TxnOpt.Evrptw.Proof.Plans
import TxnOpt.Evrptw.Objective
import TxnOpt.Evrptw.Search
import TxnOpt.Rcpsp.Proof.Search
import TxnOpt.Rcpsp.Search
import TxnOpt.Runtime.Proof.Descent
import TxnOpt.Runtime.Proof.Agreement
import TxnOpt.Lib.Steady
import TxnOpt.Runtime.Proof.CommittedPrefix
import TxnOpt.Lib.Frames
import TxnOpt.Runtime.Proof.WorkOnce
import TxnOpt.Native.Proof.WorkPoolProgress
import TxnOpt.Native.WorkPoolSchedules
import TxnOpt.Evidence.Proof.CampaignRunner
import TxnOpt.Lib.Schedules
import TxnOpt.Evidence.CampaignRunner
import TxnOpt.Evrptw.Proof.Screening
import TxnOpt.Evrptw.Proof.Caches
import TxnOpt.Evrptw.Caches
import TxnOpt.Evrptw.Screening
import TxnOpt.Lib.Lru
import TxnOpt.Evidence.Proof.CampaignPlan
import TxnOpt.Evidence.CampaignPlan
import TxnOpt.Evidence.Identity
import TxnOpt.Evidence.Proof.RestorePaths
import TxnOpt.Evidence.Proof.EntryPaths
import TxnOpt.Evidence.Proof.CommitCodec
import TxnOpt.Evidence.Proof.Toolchain
import TxnOpt.Evidence.Proof.SignedJson
import TxnOpt.Evidence.Toolchain
import TxnOpt.Evidence.Proof.Lifecycle
import TxnOpt.Evidence.Proof.Fields
import TxnOpt.Lib.Histories
import TxnOpt.Evidence.Lifecycle
import TxnOpt.Evidence.Proof.CampaignStream
import TxnOpt.Evidence.CampaignStream
import TxnOpt.Evidence.Proof.KeyDigests
import TxnOpt.Lib.Separated
import TxnOpt.Runtime.Proof.RandomTape
import TxnOpt.Lib.Words
import TxnOpt.Evrptw.Proof.ParallelExact
import TxnOpt.Evrptw.ParallelExact
import TxnOpt.Native.WorkPool
import TxnOpt.Native.Proof.WorkPool
import TxnOpt.Rcpsp.Proof.Parser
import TxnOpt.Evidence.Proof.EventStream
import TxnOpt.Evidence.EventStream
import TxnOpt.Lib.HashChain
import TxnOpt.Lib.JsonParsing
import TxnOpt.Lib.JsonPrinting
import TxnOpt.Evrptw.Proof.Neighborhoods
import TxnOpt.Evrptw.Neighborhoods
import TxnOpt.Lib.Rows
import TxnOpt.Rcpsp.Proof.Kernel
import TxnOpt.Rcpsp.Kernel
import TxnOpt.Native.Proof.RoundTransaction
import TxnOpt.Rcpsp.Proof.InitialState
import TxnOpt.Rcpsp.Parser
import TxnOpt.Rcpsp.Proof.LowerBound
import TxnOpt.Rcpsp.Proof.Screening
import TxnOpt.Evrptw.Proof.Soundness
import TxnOpt.Evidence.Proof.RoundTrip
import TxnOpt.Evidence.Proof.Reading
import TxnOpt.Evidence.Proof.Restore
import TxnOpt.Evidence.Proof.CosStore
import TxnOpt.Evidence.Proof.Mirror
import TxnOpt.Evidence.Proof.TencentCos
import TxnOpt.Lib.Steps
import TxnOpt.Evidence.Proof.FileSystem
import TxnOpt.Evidence.Proof.Commit
import TxnOpt.Evidence.Proof.Codec
import TxnOpt.Lib.JsonSorting
import TxnOpt.Evidence.CosStore
import TxnOpt.Evidence.TencentCos
import TxnOpt.Evidence.FileSystem
import TxnOpt.Evidence.Proof.Archive
import TxnOpt.Evidence.Archive
import TxnOpt.Lib.Lexicographic
import TxnOpt.Evidence.Codec
import TxnOpt.Lib.JsonReading
import TxnOpt.Lib.Json
import TxnOpt.Rcpsp.Proof.Repair
import TxnOpt.Rcpsp.Oracle
import TxnOpt.Rcpsp.Proof.Validation
import TxnOpt.Rcpsp.Validation
import TxnOpt.Runtime.Proof.Serial
import TxnOpt.Lib.Firsts
import TxnOpt.Runtime.Proof.Screening
import TxnOpt.Evrptw.Proof.Refinement
import TxnOpt.Evrptw.Proof.Output
import TxnOpt.Lib.Offsets
import TxnOpt.Evrptw.Proof.Batch
import TxnOpt.Evrptw.Proof.Native
import TxnOpt.Evrptw.Native
import TxnOpt.Evrptw.Proof.Termination
import TxnOpt.Evrptw.Proof.Agreement
import TxnOpt.Evrptw.Proof.Validator
import TxnOpt.Evrptw.Proof.Exactness
import TxnOpt.Evrptw.Proof.Search
import TxnOpt.Evrptw.Proof.Extend
import TxnOpt.Evrptw.Walks
import TxnOpt.Evrptw.Validation
import TxnOpt.Evrptw.Charging
import TxnOpt.Evidence.Proof.Soundness
import TxnOpt.Formal.Proof.OrderedPlusCal
import TxnOpt.Evidence.Proof.Refinement
import TxnOpt.Evidence.Refinement
import TxnOpt.Runtime.Proof.Sealing
