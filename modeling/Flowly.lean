import Flowly.Agenda.Deferrals
import Flowly.Agenda.Limits
import Flowly.Agent.AnnounceQueue
import Flowly.Agent.ChildRun
import Flowly.Agent.KeptTasks
import Flowly.Agent.LiveText
import Flowly.Agent.Microcompact
import Flowly.Agent.RegistryErrors
import Flowly.Agent.RunAbort
import Flowly.Agent.RunSteering
import Flowly.Agent.RunTranscript
import Flowly.Agent.RunningTurn
import Flowly.Agent.StreamHub
import Flowly.Board.Cancels
import Flowly.Compaction.Breaker
import Flowly.Compaction.Envelope
import Flowly.Compaction.Lossless
import Flowly.Compaction.RequestGuard
import Flowly.Compaction.SessionLock
import Flowly.Compaction.Shares
import Flowly.Compaction.ToolProtocol
import Flowly.Compaction.Transcript
import Flowly.Cron.Fires
import Flowly.Cron.Persistence
import Flowly.Exec.ApprovalManager
import Flowly.Exec.Executor
import Flowly.Exec.ProcessRegistry
import Flowly.Exec.ReaderLoop
import Flowly.Flowlets.Agreement
import Flowly.Flowlets.Computed
import Flowly.Flowlets.Latches
import Flowly.Flowlets.Lossless
import Flowly.Flowlets.Refreshes
import Flowly.Flowlets.Retries
import Flowly.Flowlets.Skeleton
import Flowly.Flowlets.TrackerCards
import Flowly.Flowlets.Watches
import Flowly.Goals.Readable
import Flowly.Goals.WorkQueues
import Flowly.Mcp.Delegated
import Flowly.Mcp.Delivery
import Flowly.Mcp.OauthStore
import Flowly.Memory.CurrentFacts
import Flowly.Memory.Importer
import Flowly.Memory.Merges
import Flowly.Memory.OneDreamer
import Flowly.Memory.Verified
import Flowly.Memory.Withheld
import Flowly.Plans.Approved
import Flowly.Providers.KeyRotator
import Flowly.Session.Commands
import Flowly.Session.CommitGuard
import Flowly.Session.Coverage
import Flowly.Session.HistoryPage
import Flowly.Session.Revision
import Flowly.Session.ThreadHistory
import Flowly.Session.ToolSequence
import Flowly.Session.Transcript
