import Suixinji.Dispatch.Watermark

/-! `_complete_task_with_inbox_outcome` (repositories/postgres/tasks.py): finish a
task, end stages of its inbox message, advance the marks and release blocked
tasks, all in one statement.

Under READ COMMITTED the statement reads the snapshot `snap` it started with;
only the rows it updates are seen as they are once its locks are granted, in
`db`. Run alone, `snap` and `db` are one state. -/
namespace Suixinji.Dispatch
open Suixinji.Relational

/-- What a worker shows of its claim. -/
structure Lease where
  taskId : TaskId
  leaseToken : String
  claimVersion : Nat
  deriving DecidableEq

/-- `id = :task_id AND status = 'running' AND lease_token = :lease_token AND
claim_version = :claim_version`. -/
def Task.claimedBy? (t : Task) (lease : Lease) : Bool :=
  t.id = lease.taskId && t.status = .running && t.leaseToken = some lease.leaseToken &&
    t.claimVersion = lease.claimVersion

/-- ... and `lease_expires_at > :now`. -/
def Task.ownedBy (t : Task) (lease : Lease) (now : Time) : Bool :=
  t.claimedBy? lease && t.leaseExpiresAt.any (now < ·)

def Task.completed (t : Task) (now : Time) : Task :=
  {t with
    status := .completed
    completedAt := some now
    nextRetryAt := none
    lastError := none
    claimedBy := none
    leaseToken := none
    leaseExpiresAt := none}

def TaskAttempt.of (a : TaskAttempt) (t : Task) : Bool := a.taskId = t.id && a.attemptNo = t.attemptCount

def TaskAttempt.completed (a : TaskAttempt) (now : Time) : TaskAttempt :=
  {a with status := .completed,finishedAt := some now}

/-- Mark a task and its current attempt completed. -/
def completeRow (db : Db) (t : Task) (now : Time) : Db :=
  {db with
    tasks := db.tasks.put (t.completed now)
    attempts := db.attempts.updateWhere (TaskAttempt.of · t) (TaskAttempt.completed · now)}

structure InboxOutcome where
  inboxId : InboxId
  noteCompleted : Bool
  memoryCompleted : Bool
  finalize : Bool
  deriving DecidableEq

/-- The `SET` of `updated_inbox`. -/
def InboxOutcome.apply (o : InboxOutcome) (now : Time) (m : InboxMessage) : InboxMessage :=
  {m with
    noteStatus := if o.noteCompleted then .completed else m.noteStatus
    noteCompletedAt := if o.noteCompleted then some now else m.noteCompletedAt
    memoryStatus := if o.memoryCompleted then .completed else m.memoryStatus
    memoryCompletedAt := if o.memoryCompleted then some now else m.memoryCompletedAt
    status := if o.finalize ∧ !m.status.finalized then .processed else m.status}

/-- A mark of `progress`: `GREATEST(mark, COALESCE(MIN(open) - 1, MAX(any), mark))`
over the candidates above the mark, the updated message with its new status. -/
def progressMark (candidates : List InboxMessage) (updated : InboxMessage)
    (stage : InboxMessage → StageStatus) (mark : Nat) : Nat :=
  let above := candidates.filter (fun m => mark < m.sequenceNo)
  let unended := above.filter (fun m => !(if m.id = updated.id then stage updated else stage m).ended)
  max mark (((unended.map InboxMessage.sequenceNo).min?.map (· - 1)).getD
    ((above.map InboxMessage.sequenceNo).max?.getD mark))

/-- The `SET` of `updated_space`. -/
def Space.progressed (s : Space) (o : InboxOutcome) (sequenceNo noteMark memoryMark : Nat) : Space :=
  {s with
    noteWatermark := noteMark
    memoryWatermark := memoryMark
    processedSequenceNo := if o.finalize then max s.processedSequenceNo sequenceNo else s.processedSequenceNo}

/-- The parts `activated` and `published`, for the marks of the updated space. -/
def activateInStatement (snap db : Db) (s : Space) (now : Time) : Option Db := do
  let chosen ← released snap.tasks s.id (readyInStatement s.noteWatermark s.memoryWatermark)
  let hit (t : Task) : Bool := (snap.tasks.find? t.id).any chosen && chosen t
  return {db with
    tasks := db.tasks.updateWhere hit Task.requeued Task.requeued_id
    outbox := db.outbox.insertNew ((db.tasks.rows.filter hit).map
      (fun t => requested (.digest t.id (t.attemptCount + 1)) t (t.attemptCount + 1) now))}

/-- The parts from `updated_inbox` on. -/
def progressInbox (snap db : Db) (o : InboxOutcome) (now : Time) : Option Db :=
  match db.inbox.find? o.inboxId with
  | none => some db
  | some m =>
    let m := o.apply now m
    let db := {db with inbox := db.inbox.put m}
    match snap.spaces.find? m.spaceId,db.spaces.find? m.spaceId with
    | some seen,some s =>
      let candidates := snap.messages seen.id
      let s := s.progressed o m.sequenceNo
        (progressMark candidates m InboxMessage.noteStatus seen.noteWatermark)
        (progressMark candidates m InboxMessage.memoryStatus seen.memoryWatermark)
      activateInStatement snap {db with spaces := db.spaces.put s} s now
    | _,_ => some db

def completeTaskWithInboxOutcome (snap db : Db) (lease : Lease) (o : InboxOutcome) (now : Time) :
    Option (Db × Bool) :=
  match snap.inbox.find? o.inboxId with
  | none => some (db,false)
  | some locked =>
    let owned (t : Task) : Bool :=
      t.ownedBy lease now && t.tenantId = locked.tenantId && t.spaceId = locked.spaceId
    match (snap.tasks.find? lease.taskId).filter owned,(db.tasks.find? lease.taskId).filter owned with
    | some _,some t => (progressInbox snap (completeRow db t now) o now).map (·,true)
    | _,_ => some (db,false)

end Suixinji.Dispatch
