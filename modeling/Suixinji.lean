import Suixinji.Relational.Table
import Suixinji.Relational.Evolution
import Suixinji.Relational.Truth
import Suixinji.Relational.Numbering
import Suixinji.Relational.Transition
import Suixinji.Relational.Checked
import Suixinji.Relational.Ranking
import Suixinji.Relational.ReadWrite
import Suixinji.Dispatch.Schema
import Suixinji.Dispatch.Watermark
import Suixinji.Dispatch.Consistency
import Suixinji.Dispatch.Intake
import Suixinji.Dispatch.Stage
import Suixinji.Dispatch.FastPath
import Suixinji.Dispatch.TaskLife
import Suixinji.Dispatch.System
import Suixinji.Dispatch.Effects
import Suixinji.Dispatch.Fencing
import Suixinji.Deliveries.Store
import Suixinji.Deliveries.Settled
import Suixinji.Dispatch.IntakeRace
import Suixinji.Dispatch.IntakeExact
import Suixinji.Dispatch.Places
import Suixinji.Dispatch.Isolation
import Suixinji.Dispatch.Marks
import Suixinji.Dispatch.Barrier
import Suixinji.Dispatch.Writes
import Suixinji.Dispatch.Agreement
import Suixinji.Streams.Outbox
import Suixinji.Streams.Traced
import Suixinji.Streams.Worker
import Suixinji.Streams.NoTaskLost
import Suixinji.Sessions.Overlap
import Suixinji.Coordination.Exclusion
import Suixinji.Facts.Schema
import Suixinji.Facts.Access
import Suixinji.Facts.Ingest
import Suixinji.Facts.Plan
import Suixinji.Facts.Review
import Suixinji.Facts.System
import Suixinji.Facts.Effects
import Suixinji.Facts.Evidence
import Suixinji.Facts.Forgotten
import Suixinji.Facts.Outcome
import Suixinji.Facts.Cards
import Suixinji.Facts.Decisions
import Suixinji.Facts.Visibility
import Suixinji.Facts.Citations
import Suixinji.Facts.Readers
import Suixinji.Memories.Schema
import Suixinji.Memories.Store
import Suixinji.Memories.Apply
import Suixinji.Memories.Review
import Suixinji.Memories.System
import Suixinji.Memories.Effects
import Suixinji.Memories.Approval
import Suixinji.Memories.Applied
import Suixinji.Memories.Waiting
import Suixinji.Memories.Reviewed
import Suixinji.Memories.Adjudicate
import Suixinji.Memories.Consolidate
import Suixinji.Memories.Approvable
import Suixinji.Memories.Once
import Suixinji.Memories.Projections
import Suixinji.Memories.Writes
import Suixinji.Memories.Marks
import Suixinji.Memories.Fresh
import Suixinji.Memories.Embeddings
import Suixinji.Memories.Usable
import Suixinji.TaskCards.Card
import Suixinji.TaskCards.Plan
import Suixinji.TaskCards.Apply
import Suixinji.TaskCards.Lawful
import Suixinji.TaskCards.System
import Suixinji.TaskCards.History
import Suixinji.Memories.Local
import Suixinji.Memories.AppendOnly
import Suixinji.Summaries.Subscription
import Suixinji.Deliveries.Local
import Suixinji.Summaries.Scheduler
import Suixinji.Summaries.SentOnce
import Suixinji.Relational.Json
import Suixinji.Local.Wal
import Suixinji.Relational.Text
import Suixinji.Local.Process
import Suixinji.Local.Durable
import Suixinji.Local.Notes
import Suixinji.Local.Shelf
import Suixinji.Relational.Footprint
import Suixinji.Local.Files
import Suixinji.Local.Spaces
import Suixinji.Notes.Rows
import Suixinji.Memories.Permitted
import Suixinji.Relational.Search
import Suixinji.Ask.Plan
import Suixinji.Ask.Validate
import Suixinji.Ask.Evidence
import Suixinji.Ask.Execute
import Suixinji.Ask.Rounds
import Suixinji.Ask.Total
import Suixinji.Ask.Complete
import Suixinji.Memories.Forgotten
import Suixinji.Ask.Lookups
import Suixinji.Ask.Quoted
import Suixinji.Dispatch.Ledger
import Suixinji.Deliveries.Bounded
import Suixinji.Dispatch.Apart
import Suixinji.Deliveries.Handler
import Suixinji.Deliveries.Terminates
import Suixinji.Consolidation.Runs
import Suixinji.Consolidation.OnePerPeriod
import Suixinji.Hooks.Released
import Suixinji.Cache.Access
import Suixinji.Ask.Permitted
import Suixinji.Ask.Grounded
import Suixinji.Ask.Masked
import Suixinji.Summaries.Hidden
import Suixinji.Dispatch.Spaces
import Suixinji.Coordination.Idempotency
import Suixinji.Relational.Absorb
import Suixinji.Memories.Merge
import Suixinji.Retrieval.Fusion
import Suixinji.Retrieval.Fair
import Suixinji.Relational.Grouping
import Suixinji.Retrieval.Precedence
import Suixinji.Retrieval.Authority
import Suixinji.Retrieval.OrderFree
import Suixinji.Calendar.Date
import Suixinji.Calendar.Range
import Suixinji.Calendar.Ordered
import Suixinji.Calendar.Expressions
import Suixinji.Relational.Firsts
import Suixinji.Ask.FactResolver
import Suixinji.Ask.OwnEvidence
import Suixinji.Ask.Repairs
import Suixinji.Ask.Stable
import Suixinji.Memories.Versions
import Suixinji.TaskCards.Commands
import Suixinji.TaskCards.Truthful
import Suixinji.Relational.Lanes
import Suixinji.Ask.Merge
import Suixinji.Relational.Rotation
import Suixinji.Coordination.KeyPool
import Suixinji.Relational.Quote
import Suixinji.Coordination.RedisKeys
import Suixinji.Coordination.RateLimit
import Suixinji.Coordination.Limiters
import Suixinji.Coordination.RedisLimiter
import Suixinji.Coordination.Limits
import Suixinji.Extraction.Candidates
import Suixinji.Extraction.Validate
import Suixinji.Relational.Occurrences
import Suixinji.Extraction.Atoms
import Suixinji.Relational.Best
import Suixinji.Ask.BusinessItems
import Suixinji.Relational.Greedy
import Suixinji.Retrieval.NoteReranker
import Suixinji.Retrieval.Reranking
import Suixinji.Extraction.Hybrid
import Suixinji.Extraction.Coverage
import Suixinji.Relational.Packing
import Suixinji.Deliveries.TextChunks
import Suixinji.Coordination.Failover
import Suixinji.Local.Drainer
import Suixinji.Relational.Permits
import Suixinji.Local.Capacity
import Suixinji.Relational.Window
import Suixinji.Retrieval.NoteSearch
import Suixinji.Ask.Fallback
import Suixinji.Ask.Hydrate
import Suixinji.Summaries.Windows
import Suixinji.Memories.Sqlite
import Suixinji.Memories.Purge
import Suixinji.Relational.JsonObject
import Suixinji.Llm.JsonReply
import Suixinji.Relational.Forest
import Suixinji.Relational.Optimistic
import Suixinji.Preferences.Card
import Suixinji.Preferences.Edits
import Suixinji.Preferences.Review
import Suixinji.Preferences.System
import Suixinji.Preferences.Effects
import Suixinji.Preferences.Linearized
import Suixinji.Preferences.Details
