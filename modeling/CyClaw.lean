import CyClaw.Graph.Convergence
import CyClaw.Sql.ReadOnly
import CyClaw.Auth.Records
import CyClaw.Auth.LastAdmin
import CyClaw.Auth.Revocation
import CyClaw.Auth.Sessions
import CyClaw.Auth.Failures
import CyClaw.Auth.Lockout
import CyClaw.Auth.Bootstrap
import CyClaw.Repo.Overwrites
import CyClaw.Repo.Review
import CyClaw.Repo.Retry
import CyClaw.Repo.PullRequests
import CyClaw.Locks.Skills
import CyClaw.Harness.Containment
import CyClaw.Harness.ChatClient
import CyClaw.Gate.IndexBuild
import CyClaw.Harness.GenerationGate
import CyClaw.Harness.Settings
import CyClaw.Harness.EnvWrites
import CyClaw.Numbat.Rollover
import CyClaw.Harness.AllowlistWrites
import CyClaw.Auth.UserAccess
import CyClaw.Sync.OneSync
import CyClaw.Sync.Scheduler
import CyClaw.Memory.Cap
import CyClaw.Memory.Proposals
import CyClaw.Soul.Serialised
import CyClaw.Llm.Retry
import CyClaw.Retrieval.Generations
import CyClaw.Retrieval.Fusion
import CyClaw.Retrieval.Chunks
import CyClaw.Mcp.Requests
import CyClaw.Sync.RcloneFilters
import CyClaw.Repo.ReadPaths
import CyClaw.Github.Context
import CyClaw.Harness.MemoryNotes
import CyClaw.Telegram.Media
import CyClaw.Audit.Redaction
import CyClaw.Deepagent.ChatModel
import CyClaw.Metrics.Ledgers
import CyClaw.Optimizer.Acceptance
import CyClaw.Sync.LastTouch
import CyClaw.RateLimit.RetryAfter
import CyClaw.Harness.SessionListing
import CyClaw.Fsconnect.Glob
import CyClaw.Fsconnect.Incremental
import CyClaw.Netconnect.ScopedNeighbors
import CyClaw.Sql.Literals
import CyClaw.Telegram.Undelivered
import CyClaw.Graph.PromptBudget
import CyClaw.Repo.Aliases
import CyClaw.Sync.Rendering
import CyClaw.Auth.TokenLabels
import CyClaw.Fsconnect.Gates
