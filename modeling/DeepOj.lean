import DeepOj.Cluster.Payload
import DeepOj.Cluster.Ownership
import DeepOj.Sandbox.Limits
import DeepOj.Sandbox.Deadline
import DeepOj.Worker.Uploaded
import DeepOj.Worker.SlotConservation
import DeepOj.Worker.TestCaseManager
import DeepOj.Sandbox.SharedStderr
import DeepOj.Worker.ReadyComplete
import DeepOj.Worker.CacheInUse
import DeepOj.Conc.Footprint
import DeepOj.Worker.AttemptFiles
import DeepOj.Worker.AttemptIsolation
import DeepOj.Worker.CancelledExecution
import DeepOj.Go.Base64
import DeepOj.Go.JsonString
import DeepOj.Go.Json
import DeepOj.Go.JsonMarshal
import DeepOj.Go.JsonUnmarshal
import DeepOj.Go.Protowire
import DeepOj.Pb.TaskRequest
import DeepOj.Worker.TaskPayload
import DeepOj.Scheduler.Repair
import DeepOj.Sandbox.Engine
import DeepOj.Worker.JudgeOutput
import DeepOj.Worker.EngineProtocol
import DeepOj.Cluster.JobStream
import DeepOj.Worker.Drain
import DeepOj.Scheduler.StreamTrim
import DeepOj.Cluster.OutboxLife
import DeepOj.Scheduler.RepairCycle
import DeepOj.Worker.Reclaim
import DeepOj.Worker.Lease
import DeepOj.Conc.Log
import DeepOj.Worker.HeartbeatRace
import DeepOj.Sandbox.Isolation
import DeepOj.Sandbox.Blame
import DeepOj.Worker.DrainWithLimit
import DeepOj.Worker.UnzipBounds
import DeepOj.Worker.CacheIndex
import DeepOj.Worker.BothHandlers
import DeepOj.Worker.ReclaimScan
import DeepOj.Api.CreateProblem
import DeepOj.Worker.ValidatedFields
import DeepOj.Worker.CompileStep
import DeepOj.Worker.PrepareFresh
import DeepOj.Worker.CacheBound
import DeepOj.Common.Keyspace
import DeepOj.Worker.RejectReason
import DeepOj.Api.TruncateErr
import DeepOj.Worker.JobId
import DeepOj.Worker.AutoClaimReply
import DeepOj.Repository.Backoff
import DeepOj.Api.SubmitEntries
import DeepOj.Repository.FirstLogin
import DeepOj.Api.RateLimit
import DeepOj.Worker.SandboxDir
import DeepOj.Naming.Suffix
import DeepOj.Scheduler.Discovery
import DeepOj.Cluster.Recovery
import DeepOj.Cluster.InflightCap
import DeepOj.Cluster.StreamRefinement
import DeepOj.Scheduler.GcLoop
import DeepOj.Cluster.Stranded
import DeepOj.Api.TokenOwner
import DeepOj.Api.ProblemStore
import DeepOj.Worker.RunReturn
