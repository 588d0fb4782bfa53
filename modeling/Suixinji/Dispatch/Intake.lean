import Suixinji.Dispatch.Consistency
import Suixinji.Dispatch.Watermark

/-! Spaces, tasks and commands on their way in: `ensure_tenant_space`
(repositories/postgres/common.py), `enqueue_task` and `receive_command`
(repositories/postgres/dispatch.py). -/
namespace Suixinji.Dispatch
open Suixinji.Relational

def defaultTenantId : TenantId := "default"

/-- `uq_spaces_source_identity`. -/
def Space.identity (s : Space) : TenantId × String × String := (s.tenantId,s.source,s.sourceSpaceId)

/-- `INSERT INTO spaces ... ON CONFLICT DO NOTHING RETURNING id`. -/
def Db.insertSpace (db : Db) (s : Space) : Db × Option SpaceId :=
  if db.spaces.rows.any (fun other => other.identity = s.identity) then (db,none)
  else match db.spaces.insert s with
    | some spaces => ({db with spaces},some s.id)
    | none => (db,none)

/-- A space's row when it is inserted. -/
def newSpace (tenantId source sourceSpaceId : String) (id : SpaceId) : Space := {id,tenantId,source,sourceSpaceId}

def Db.spaceByIdentity? (db : Db) (identity : TenantId × String × String) : Option SpaceId :=
  (db.spaces.rows.find? (fun s => s.identity = identity)).map Space.id

def digestSpaceId (host : Host) (tenantId source sourceSpaceId : String) : SpaceId :=
  "space_" ++ ((host.sha256Hex (tenantId ++ ":" ++ source ++ ":" ++ sourceSpaceId)).take 32).toString

def ensureTenantSpace (host : Host) (db : Db) (sourceSpaceId tenantId source : String) : Option (Db × SpaceId) :=
  let identity := (tenantId,source,sourceSpaceId)
  if (db.spaces.find? sourceSpaceId).any (fun s => s.tenantId = tenantId) then some (db,sourceSpaceId)
  else match truthy (db.spaceByIdentity? identity) with
    | some existing => some (db,existing)
    | none =>
      let (db,created) := db.insertSpace (newSpace tenantId source sourceSpaceId sourceSpaceId)
      match truthy created with
      | some created => some (db,created)
      | none =>
        let internalId := digestSpaceId host tenantId source sourceSpaceId
        let (db,created) := db.insertSpace (newSpace tenantId source sourceSpaceId internalId)
        match truthy created with
        | some created => some (db,created)
        | none => (db.spaceByIdentity? identity).map (db,·)

/-- The arguments of `_enqueue_task_in_session`, with its defaults. -/
structure NewTask where
  taskType : String
  tenantId : TenantId := defaultTenantId
  spaceId : SpaceId
  sourceMessageId : Option String := none
  idempotencyKey : String
  payload : Payload
  maxAttempts : Nat := 5
  initialStatus : TaskStatus := .queued
  publish : Bool := true
  deriving DecidableEq

def NewTask.row (new : NewTask) (id : TaskId) (now : Time) : Task where
  id := id
  taskType := new.taskType
  tenantId := new.tenantId
  spaceId := new.spaceId
  sourceMessageId := new.sourceMessageId
  idempotencyKey := new.idempotencyKey
  status := new.initialStatus
  maxAttempts := new.maxAttempts
  payload := new.payload
  createdAt := now

def Db.taskByKey? (db : Db) (idempotencyKey : String) : Option Task :=
  db.tasks.rows.find? (fun t => t.idempotencyKey = idempotencyKey)

def enqueueTaskInSession (db : Db) (new : NewTask) (taskId : TaskId) (uuid : Nat) (now : Time) :
    Option (Db × TaskId × Bool) :=
  if new.publish ∧ new.initialStatus ≠ .queued then none
  else match db.taskByKey? new.idempotencyKey with
    | some existing => some (db,existing.id,false)
    | none => do
      let t := new.row taskId now
      let db := {db with tasks := ← db.tasks.insert t}
      let db ← if new.publish then publishTaskRequest db t 1 uuid now else some db
      return (db,taskId,true)

def enqueueTask (host : Host) (db : Db) (new : NewTask) (taskId : TaskId) (uuid : Nat) (now : Time) :
    Option (Db × TaskId × Bool) := do
  let (db,spaceId) ← ensureTenantSpace host db new.spaceId new.tenantId "feishu"
  enqueueTaskInSession db {new with spaceId} taskId uuid now

/-- The arguments of `receive_command`. -/
structure Command where
  source : String
  sourceMessageId : String
  tenantId : TenantId
  spaceId : String
  textValue : String
  receivedAt : Time
  taskType : String
  taskPayload : Payload := {}
  maxAttempts : Nat := 5
  deriving DecidableEq

/-- `tenant_id or DEFAULT_TENANT_ID`. -/
def Command.tenant (c : Command) : TenantId := if c.tenantId = "" then defaultTenantId else c.tenantId

/-- What the deduplication of tasks looks at. -/
def Command.idempotencyKey (c : Command) : String :=
  c.tenant ++ ":" ++ c.taskType ++ ":" ++ c.source ++ ":" ++ c.sourceMessageId

/-- What the deduplication of messages looks at. -/
def Command.identity (c : Command) : TenantId × String × String := (c.tenant,c.source,c.sourceMessageId)

/-- The ids a transaction draws at random. -/
structure Draws where
  inboxId : InboxId
  taskId : TaskId
  event : Nat
  released : TaskId → Nat

structure DispatchResult where
  inboxId : InboxId
  taskId : Option TaskId
  created : Bool
  duplicate : Bool
  deriving DecidableEq

/-- `uq_inbox_tenant_source_message`. -/
def InboxMessage.identity (m : InboxMessage) : TenantId × String × String :=
  (m.tenantId,m.source,m.sourceMessageId)

/-- `uq_inbox_space_sequence`. -/
def InboxMessage.slot (m : InboxMessage) : SpaceId × Nat := (m.spaceId,m.sequenceNo)

def Db.insertMessage (db : Db) (m : InboxMessage) : Option Db := do
  if db.inbox.rows.any (fun n => n.identity = m.identity || n.slot = m.slot) then none
  else return {db with inbox := ← db.inbox.insert m}

def Db.messageByIdentity? (db : Db) (identity : TenantId × String × String) : Option InboxMessage :=
  db.inbox.rows.find? (fun m => m.identity = identity)

/-- `coalesce(max(sequence_no), 0) + 1` over the space. -/
def Db.nextSequenceNo (db : Db) (space : SpaceId) : Nat :=
  ((db.messages space).map InboxMessage.sequenceNo).max?.getD 0 + 1

def Command.message (c : Command) (id : InboxId) (spaceId : SpaceId) (sequenceNo : Nat) : InboxMessage :=
  let stage : StageStatus := if c.taskType = "ingest" then .pending else .completed
  let ended : Option Time := if c.taskType = "ingest" then none else some c.receivedAt
  {id,source := c.source,sourceMessageId := c.sourceMessageId,tenantId := c.tenant,spaceId,
    text := c.textValue,receivedAt := c.receivedAt,sequenceNo,noteStatus := stage,memoryStatus := stage,
    noteCompletedAt := ended,memoryCompletedAt := ended}

def Command.consistency (host : Host) (c : Command) : Consistency :=
  taskConsistency host c.taskType c.taskPayload.consistency c.taskPayload.question

def Command.rootTask (host : Host) (c : Command) (space : Space) (m : InboxMessage) : NewTask :=
  let consistency := c.consistency host
  let required := m.sequenceNo - 1
  let current := if consistency = .memory then space.memoryWatermark else space.noteWatermark
  let initialStatus : TaskStatus :=
    if (consistency = .note ∨ consistency = .memory) ∧ current < required then .blocked else .queued
  {taskType := c.taskType,tenantId := c.tenant,spaceId := m.spaceId,
    sourceMessageId := some c.sourceMessageId,idempotencyKey := c.idempotencyKey,
    payload := {c.taskPayload with
      sourceSpaceId := some c.spaceId
      inboxId := some m.id
      sequenceNo := some m.sequenceNo
      consistency := some consistency.text
      requiredWatermark := some (.number required)},
    maxAttempts := c.maxAttempts,initialStatus,publish := initialStatus = .queued}

/-- What follows the insertion of the message in `receive_command`. -/
def receiveMessage (host : Host) (db : Db) (c : Command) (m : InboxMessage) (draws : Draws) (now : Time) :
    Option (Db × DispatchResult) := do
  let space ← db.spaces.find? m.spaceId
  let (db,taskId,_) ← enqueueTaskInSession db (c.rootTask host space m) draws.taskId draws.event now
  let result : DispatchResult := ⟨m.id,some taskId,true,false⟩
  if c.taskType = "ingest" then some (db,result)
  else (advanceWatermarksInSession db space draws.released now).map (·,result)

/-- The reply for a message that is there already. -/
def duplicateOf (db : Db) (c : Command) (existing : InboxMessage) : DispatchResult :=
  ⟨existing.id,(db.taskByKey? c.idempotencyKey).map Task.id,false,true⟩

/-- What follows the advisory lock of the space in `receive_command`. -/
def receiveInSpace (host : Host) (db : Db) (c : Command) (spaceId : SpaceId) (draws : Draws) (now : Time) :
    Option (Db × DispatchResult) :=
  match db.messageByIdentity? c.identity with
  | some existing => some (db,duplicateOf db c existing)
  | none => do
    let m := c.message draws.inboxId spaceId (db.nextSequenceNo spaceId)
    let db ← db.insertMessage m
    receiveMessage host db c m draws now

def receiveCommand (host : Host) (db : Db) (c : Command) (draws : Draws) (now : Time) :
    Option (Db × DispatchResult) := do
  let (db,spaceId) ← ensureTenantSpace host db c.spaceId c.tenant c.source
  receiveInSpace host db c spaceId draws now

end Suixinji.Dispatch
