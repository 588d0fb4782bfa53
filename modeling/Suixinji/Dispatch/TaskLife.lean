import Suixinji.Dispatch.FastPath
import Suixinji.Dispatch.Stage

/-! The life of a task: claimed under a lease, renewed, completed, failed,
deferred, queued again (repositories/postgres/tasks.py). Each function is one
transaction; `none` is an exception. -/
namespace Suixinji.Dispatch
open Suixinji.Relational

def seconds (n : Int) : Time := n * 1000

/-- No status from which a task is never claimed, and the retry delay is over. -/
def Task.due (t : Task) (now : Time) : Bool :=
  t.status ≠ .blocked && t.status ≠ .cancelled && t.status ≠ .completed && t.status ≠ .deadLetter &&
    t.nextRetryAt.all (· ≤ now)

/-- Not running, or running under a lease that has run out; without an expiry, a
task that started before `staleBefore`. -/
def Task.unleased (t : Task) (now staleBefore : Time) : Bool :=
  t.status ≠ .running ||
    match t.leaseExpiresAt with
    | some expires => expires ≤ now
    | none => t.startedAt.all (· ≤ staleBefore)

def Task.claimed (t : Task) (workerId leaseToken : String) (expires now : Time) : Task :=
  {t with
    status := .running
    startedAt := some now
    attemptCount := t.attemptCount + 1
    claimedBy := some workerId
    leaseToken := some leaseToken
    leaseExpiresAt := some expires
    claimVersion := t.claimVersion + 1}

/-- The part `expired_attempt`: close the attempt of the claim that ran out. -/
def expireAttempt (attempts : Table TaskAttempt.key) (t : Task) (now : Time) : Table TaskAttempt.key :=
  attempts.updateWhere (fun a => t.status = .running && a.of t && a.status = .running)
    (fun a => {a with status := .leaseExpired,finishedAt := some now})

def claimTask (db : Db) (taskId : TaskId) (workerId leaseToken : String) (staleAfterSeconds : Int) (now : Time) :
    Option (Db × Option Task) :=
  let stale := seconds (max 1 staleAfterSeconds)
  match (db.tasks.find? taskId).filter (fun t => t.due now && t.unleased now (now - stale)) with
  | none => some (db,none)
  | some t => do
    let claimed := t.claimed workerId leaseToken (now + stale) now
    let attempts ← (expireAttempt db.attempts t now).insert
      {taskId,workerId,attemptNo := claimed.attemptCount,status := .running,startedAt := now}
    return ({db with tasks := db.tasks.put claimed,attempts},some claimed)

def renewTaskLease (db : Db) (lease : Lease) (leaseSeconds : Int) (now : Time) : Db × Bool :=
  match (db.tasks.find? lease.taskId).filter (·.claimedBy? lease) with
  | none => (db,false)
  | some t =>
    ({db with tasks := db.tasks.put {t with leaseExpiresAt := some (now + seconds (max 1 leaseSeconds))}},true)

def ownedRunningTask (db : Db) (lease : Lease) (now : Time) : Option Task :=
  (db.tasks.find? lease.taskId).filter (·.ownedBy lease now)

/-- The outcome arguments of `complete_task`. -/
structure Outcomes where
  releaseInboxId : Option InboxId := none
  activateTaskId : Option TaskId := none
  noteReadyInboxId : Option InboxId := none
  memoryReadyInboxId : Option InboxId := none
  ingestCompleteInboxId : Option InboxId := none
  deriving DecidableEq

def Outcomes.count (o : Outcomes) : Nat :=
  ([o.releaseInboxId,o.activateTaskId,o.noteReadyInboxId,o.memoryReadyInboxId,
    o.ingestCompleteInboxId].filter Option.isSome).length

/-- The first outcome of the table `inbox_outcome` that is given. -/
def Outcomes.inbox (o : Outcomes) : Option InboxOutcome :=
  (o.noteReadyInboxId.map (⟨·,true,false,false⟩)).or <|
  (o.memoryReadyInboxId.map (⟨·,false,true,true⟩)).or <|
  (o.ingestCompleteInboxId.map (⟨·,true,true,true⟩)).or <|
  o.releaseInboxId.map (⟨·,false,false,true⟩)

/-- The statement for a task without any outcome and the step-by-step path set the
same columns. An inbox outcome never reaches the branches behind them; its
statement started at `snap`. -/
def completeTask (snap db : Db) (lease : Lease) (o : Outcomes) (uuid : Nat) (now : Time) : Option (Db × Bool) :=
  if o.count > 1 then none
  else match o.inbox with
    | some outcome => completeTaskWithInboxOutcome snap db lease outcome now
    | none =>
      match ownedRunningTask db lease now with
      | none => some (db,false)
      | some t =>
        match truthy o.activateTaskId with
        | none => some (completeRow db t now,true)
        | some taskId => (activateTaskInSession (completeRow db t now) taskId uuid now).map (·,true)

def Payload.barrier (p : Payload) : Option InboxId := (truthy p.barrierInboxId).or (truthy p.inboxId)

def barrierInboxId (t : Task) : Option InboxId := t.payload.barrier

def cancelBlockedDependents (db : Db) (parentTaskId : TaskId) (error : String) (now : Time) : Db :=
  {db with
    tasks := db.tasks.updateWhere (fun t => t.status = .blocked && t.payload.parentTaskId = some parentTaskId)
      (Task.cancelled · (firstChars 2000 ("parent task failed: " ++ error)) now)}

inductive FailReply where
  | stale
  | retry
  | deadLetter
  deriving DecidableEq

def Task.exhausted (t : Task) : Bool := t.failureCount + 1 ≥ t.maxAttempts

def Task.failed (t : Task) (error : String) (retryAt now : Time) : Task :=
  {t with
    failureCount := t.failureCount + 1
    status := if t.exhausted then .deadLetter else .retry
    lastError := some (firstChars 2000 error)
    nextRetryAt := if t.exhausted then none else some retryAt
    completedAt := if t.exhausted then some now else none
    claimedBy := none
    leaseToken := none
    leaseExpiresAt := none}

def TaskAttempt.failed (a : TaskAttempt) (exhausted : Bool) (error : String) (now : Time) : TaskAttempt :=
  {a with
    status := if exhausted then .deadLetter else .failed
    finishedAt := some now
    errorType := some (firstChars 255 (beforeColon error))
    errorSummary := some (firstChars 2000 error)}

/-- `now + timedelta(seconds=max(0.1, delay))`, the delay in milliseconds. -/
def retryTime (delay : Int) (now : Time) : Time := now + max 100 delay

def deadLettered (db : Db) (t : Task) (error : String) (uuid : TaskId → Nat) (now : Time) : Option Db :=
  let db := if (truthy t.payload.inboxId).isSome then cancelBlockedDependents db t.id error now else db
  match barrierInboxId t with
  | none => some db
  | some inboxId =>
    (if t.taskType = "memory" then markInboxMemoryCompletedInSession db inboxId false (some error) uuid now
      else some db).bind (finalizeInboxInSession · inboxId false (some error) uuid now)

def failTask (db : Db) (lease : Lease) (error : String) (delay : Int) (uuid : TaskId → Nat) (now : Time) :
    Option (Db × FailReply) :=
  match ownedRunningTask db lease now with
  | none => some (db,.stale)
  | some t =>
    let db := {db with
      tasks := db.tasks.put (t.failed error (retryTime delay now) now)
      attempts := db.attempts.updateWhere (TaskAttempt.of · t) (TaskAttempt.failed · t.exhausted error now)}
    if t.exhausted then (deadLettered db t error uuid now).map (·,.deadLetter)
    else some (db,.retry)

def Task.deferred (t : Task) (reason : String) (retryAt : Time) : Task :=
  {t with
    status := .retry
    deferCount := t.deferCount + 1
    lastError := some (firstChars 2000 reason)
    nextRetryAt := some retryAt
    claimedBy := none
    leaseToken := none
    leaseExpiresAt := none}

def deferTask (db : Db) (lease : Lease) (reason : String) (delay : Int) (now : Time) : Db × Bool :=
  match ownedRunningTask db lease now with
  | none => (db,false)
  | some t =>
    ({db with
      tasks := db.tasks.put (t.deferred reason (retryTime delay now))
      attempts := db.attempts.updateWhere (TaskAttempt.of · t) (fun a =>
        {a with status := .deferred,finishedAt := some now,errorSummary := some (firstChars 2000 reason)})},true)

/-- `ORDER BY next_retry_at, created_at`, nulls last. -/
def retryOrder (s t : Task) : Bool :=
  match s.nextRetryAt,t.nextRetryAt with
  | some a,some b => a < b || (a = b && s.createdAt ≤ t.createdAt)
  | some _,none => true
  | none,some _ => false
  | none,none => s.createdAt ≤ t.createdAt

def dueRetries (db : Db) (limit : Int) (taskIds : Option (List TaskId)) (now : Time) : List Task :=
  ((db.tasks.rows.filter (fun t =>
      t.status = .retry && t.nextRetryAt.all (· ≤ now) && taskIds.all (t.id ∈ ·))).insertionSort
    (fun s t => retryOrder s t)).take (max 1 limit).toNat

/-- How many tasks were queued again. -/
def enqueueDueRetries (db : Db) (limit : Int) (taskIds : Option (List TaskId)) (uuid : TaskId → Nat) (now : Time) :
    Option (Db × Nat) := do
  let rows := dueRetries db limit taskIds now
  let outbox ← db.outbox.insertAll
    (rows.map (fun t => requested (.random (uuid t.id)) t (t.attemptCount + 1) now))
  return ({db with tasks := db.tasks.updateWhere (· ∈ rows) Task.requeued Task.requeued_id,outbox},rows.length)

end Suixinji.Dispatch
