import Suixinji.Relational.Table

/-! The tables of the dispatch layer (infrastructure/schema.py), with the columns
and the payload keys that its transactions read or write. -/
namespace Suixinji.Dispatch
open Suixinji.Relational

abbrev TenantId := String
abbrev SpaceId := String
abbrev InboxId := String
abbrev TaskId := String

/-- Milliseconds. -/
abbrev Time := Int

inductive TaskStatus where
  | blocked
  | queued
  | running
  | retry
  | completed
  | deadLetter
  | cancelled
  deriving DecidableEq

inductive StageStatus where
  | pending
  | completed
  | failed
  deriving DecidableEq

/-- `status IN ('completed', 'failed')` for a note or memory stage. -/
def StageStatus.ended : StageStatus → Bool
  | .pending => false
  | .completed | .failed => true

inductive InboxStatus where
  | pending
  | processed
  | failed
  | blockedSensitive
  | skippedCommand
  deriving DecidableEq

/-- `status IN ('processed', 'failed')`. -/
def InboxStatus.finalized : InboxStatus → Bool
  | .processed | .failed => true
  | _ => false

/-- The column text, which `skip_inbox_record` also writes as an error. -/
def InboxStatus.text : InboxStatus → String
  | .pending => "pending"
  | .processed => "processed"
  | .failed => "failed"
  | .blockedSensitive => "blocked_sensitive"
  | .skippedCommand => "skipped_command"

inductive EventStatus where
  | pending
  | publishing
  | retry
  | published
  | dead
  deriving DecidableEq

inductive AttemptStatus where
  | running
  | leaseExpired
  | completed
  | failed
  | deadLetter
  | deferred
  deriving DecidableEq

/-- The text of `payload ->> 'required_watermark'`, by what a cast makes of it. -/
inductive WatermarkText where
  | empty
  | number (n : Int)
  | malformed
  deriving DecidableEq

/-- `payload_json`; a missing key and a JSON null are both `none`. -/
structure Payload where
  inboxId : Option InboxId := none
  barrierInboxId : Option InboxId := none
  parentTaskId : Option TaskId := none
  sourceSpaceId : Option String := none
  sequenceNo : Option Nat := none
  consistency : Option String := none
  requiredWatermark : Option WatermarkText := none
  question : Option String := none
  operation : Option String := none
  noteId : Option String := none
  deriving DecidableEq

/-- `new_id("event")` draws a random id; the fast path digests task and attempt.
The two kinds differ in length, and the digest is taken to be collision free. -/
inductive EventId where
  | random (uuid : Nat)
  | digest (task : TaskId) (attempt : Nat)
  deriving DecidableEq

structure Gap where
  sequenceNo : Nat
  inboxId : InboxId
  error : String
  deriving DecidableEq

structure Space where
  id : SpaceId
  tenantId : TenantId
  source : String
  sourceSpaceId : String
  processedSequenceNo : Nat := 0
  noteWatermark : Nat := 0
  memoryWatermark : Nat := 0
  memoryGapSequenceNo : Option Nat := none
  lastNoteGap : Option Gap := none
  lastMemoryGap : Option Gap := none
  deriving DecidableEq

structure InboxMessage where
  id : InboxId
  source : String
  sourceMessageId : String
  tenantId : TenantId
  spaceId : SpaceId
  text : String
  receivedAt : Time
  status : InboxStatus := .pending
  sequenceNo : Nat
  noteStatus : StageStatus := .pending
  memoryStatus : StageStatus := .pending
  noteCompletedAt : Option Time := none
  memoryCompletedAt : Option Time := none
  deriving DecidableEq

structure OutboxEvent where
  id : EventId
  eventType : String := "task.requested"
  aggregateId : TaskId
  taskType : String
  attempt : Nat
  createdAt : Time
  status : EventStatus := .pending
  publishAttemptCount : Nat := 0
  maxAttempts : Nat := 10
  claimedBy : Option String := none
  leaseToken : Option String := none
  leaseExpiresAt : Option Time := none
  nextAttemptAt : Option Time := none
  lastAttemptAt : Option Time := none
  publishedAt : Option Time := none
  failedAt : Option Time := none
  lastError : Option String := none
  deriving DecidableEq

structure Task where
  id : TaskId
  taskType : String
  tenantId : TenantId
  spaceId : SpaceId
  sourceMessageId : Option String
  idempotencyKey : String
  status : TaskStatus
  attemptCount : Nat := 0
  failureCount : Nat := 0
  deferCount : Nat := 0
  maxAttempts : Nat
  payload : Payload
  nextRetryAt : Option Time := none
  createdAt : Time
  startedAt : Option Time := none
  completedAt : Option Time := none
  lastError : Option String := none
  claimedBy : Option String := none
  leaseToken : Option String := none
  leaseExpiresAt : Option Time := none
  claimVersion : Nat := 0
  deriving DecidableEq

structure TaskAttempt where
  taskId : TaskId
  workerId : String
  attemptNo : Nat
  status : AttemptStatus
  startedAt : Time
  finishedAt : Option Time := none
  errorType : Option String := none
  errorSummary : Option String := none
  deriving DecidableEq

def TaskAttempt.key (a : TaskAttempt) : TaskId × Nat := (a.taskId,a.attemptNo)

structure Db where
  spaces : Table Space.id := .empty
  inbox : Table InboxMessage.id := .empty
  tasks : Table Task.id := .empty
  outbox : Table OutboxEvent.id := .empty
  attempts : Table TaskAttempt.key := .empty

def Db.messages (db : Db) (space : SpaceId) : List InboxMessage :=
  db.inbox.rows.filter (fun m => m.spaceId = space)

theorem Db.mem_messages {db : Db} {space : SpaceId} {m : InboxMessage} :
    m ∈ db.messages space ↔ m ∈ db.inbox ∧ m.spaceId = space := by
  simp [Db.messages,Table.mem_def]

/-- The keys whose value Python takes for true: present and not empty. -/
def truthy (value : Option String) : Option String := value.filter (· ≠ "")

end Suixinji.Dispatch
