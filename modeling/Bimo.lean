import Bimo.RouteSeparation
import Bimo.RouteDeletion
import Bimo.RouteNames
import Bimo.Handle
import Bimo.InboxIds
import Bimo.Enqueue
import Bimo.FabricRecovery
import Bimo.FactoryPlan
import Bimo.FabricPlan
import Bimo.WorkRequest
import Bimo.Effects
import Bimo.Claims
import Bimo.PoolSize
import Bimo.PoolLoops
import Bimo.BindAgent
import Bimo.LatestRun
import Bimo.Tar
import Bimo.Finishing
import Bimo.Cancellation
import Bimo.Deployment
import Bimo.Task
import Bimo.WorkflowLog
import Bimo.PodInput
import Bimo.PublisherRuns
import Bimo.Executions
import Bimo.Rollback
import Bimo.Budgets
import Bimo.Processes
import Bimo.RemainTargets
import Bimo.Utf8
import Bimo.LineReader
import Bimo.FrontHead
import Bimo.Front
import Bimo.JsonScan
import Bimo.TornJournal
import Bimo.Gateway
import Bimo.GatewayRuns
import Bimo.EngineSpec
import Bimo.ProxyConfig
import Bimo.SpecFields
import Bimo.AgentCa
import Bimo.JsonText
import Bimo.Lossy
import Bimo.FingerprintFiles
import Bimo.Answers
import Bimo.GitPaths
import Bimo.Secrets
import Bimo.GitObjects
import Bimo.SourceScan
import Bimo.ScanSound
import Bimo.WriterChanges
import Bimo.Integration
import Bimo.JsonParse
import Bimo.Serial
import Bimo.PodInbox
import Bimo.DeliveredInbox
import Bimo.Closing
import Bimo.Base64
import Bimo.RandomPorts
import Bimo.Calendar
import Bimo.Double
import Bimo.CanonicalJson
import Bimo.Organizer
import Bimo.Reasons
import Bimo.Changelogs
import Bimo.History
import Bimo.Prompts
import Bimo.Diagnostics
import Bimo.Snapshots
import Bimo.PiBaseline
import Bimo.Parallelism
import Bimo.JsonFile
import Bimo.Templates
import Bimo.Following
