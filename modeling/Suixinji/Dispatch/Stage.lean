import Mathlib.Data.List.Sort
import Suixinji.Dispatch.Watermark

/-! Ending the stages of an inbox message step by step, and skipping it
(repositories/postgres/dispatch.py). -/
namespace Suixinji.Dispatch
open Suixinji.Relational

/-- The keyword arguments of `complete_inbox_stage_in_session`. -/
structure Stages where
  note : Bool := false
  memory : Bool := false
  finalize : Bool := false
  success : Bool := true
  error : Option String := none
  deriving DecidableEq

def Stages.stageStatus (a : Stages) : StageStatus := if a.success then .completed else .failed

def Stages.errorText (a : Stages) : String := (truthy a.error).getD "unknown"

/-- `text.split(":", 1)[0]`. -/
def beforeColon (text : String) : String := String.ofList (text.toList.takeWhile (· ≠ ':'))

/-- `text[:n]`. -/
def firstChars (n : Nat) (text : String) : String := String.ofList (text.toList.take n)

def Stages.noteGap (a : Stages) (m : InboxMessage) : Gap :=
  ⟨m.sequenceNo,m.id,firstChars 256 a.errorText⟩

def Stages.memoryGap (a : Stages) (m : InboxMessage) : Gap :=
  ⟨m.sequenceNo,m.id,firstChars 128 (beforeColon a.errorText)⟩

def Space.withMemoryGap (s : Space) (gap : Gap) : Space :=
  {s with memoryGapSequenceNo := some gap.sequenceNo,lastMemoryGap := some gap}

def endNote (a : Stages) (now : Time) : InboxMessage × Space → InboxMessage × Space
  | (m,s) =>
    if a.note then
      ({m with noteStatus := a.stageStatus,noteCompletedAt := some now},
        if a.success then s else {s with lastNoteGap := some (a.noteGap m)})
    else (m,s)

def endMemory (a : Stages) (now : Time) : InboxMessage × Space → InboxMessage × Space
  | (m,s) =>
    if a.memory then
      ({m with memoryStatus := a.stageStatus,memoryCompletedAt := some now},
        if a.success then s else s.withMemoryGap (a.memoryGap m))
    else (m,s)

def finalizeStages (a : Stages) (now : Time) : InboxMessage × Space → InboxMessage × Space
  | (m,s) =>
    if a.finalize ∧ !m.status.finalized then
      let s := {s with processedSequenceNo := max s.processedSequenceNo m.sequenceNo}
      if a.success then ({m with status := .processed},s)
      else
        let m := {m with status := .failed}
        let m := if m.noteStatus = .pending then {m with noteStatus := .failed,noteCompletedAt := some now} else m
        if m.memoryStatus = .pending then
          ({m with memoryStatus := .failed,memoryCompletedAt := some now},s.withMemoryGap (a.memoryGap m))
        else (m,s)
    else (m,s)

/-- The message and its space as `complete_inbox_stage_in_session` sets them. -/
def staged (a : Stages) (now : Time) (m : InboxMessage) (s : Space) : InboxMessage × Space :=
  finalizeStages a now (endMemory a now (endNote a now (m,s)))

def completeInboxStageInSession (db : Db) (inboxId : InboxId) (a : Stages) (uuid : TaskId → Nat) (now : Time) :
    Option Db := do
  let m ← db.inbox.find? inboxId
  let s ← db.spaces.find? m.spaceId
  let (m,s) := staged a now m s
  advanceWatermarksInSession {db with inbox := db.inbox.put m,spaces := db.spaces.put s} s uuid now

def markInboxMemoryCompletedInSession (db : Db) (inboxId : InboxId) (success : Bool) (error : Option String)
    (uuid : TaskId → Nat) (now : Time) : Option Db :=
  completeInboxStageInSession db inboxId {memory := true,success,error} uuid now

def finalizeInboxInSession (db : Db) (inboxId : InboxId) (success : Bool) (error : Option String)
    (uuid : TaskId → Nat) (now : Time) : Option Db :=
  completeInboxStageInSession db inboxId {finalize := true,success,error} uuid now

def markInboxProcessed (db : Db) (inboxId : InboxId) (uuid : TaskId → Nat) (now : Time) : Option Db :=
  finalizeInboxInSession db inboxId true none uuid now

def markInboxFailed (db : Db) (inboxId : InboxId) (error : String) (uuid : TaskId → Nat) (now : Time) :
    Option Db :=
  finalizeInboxInSession db inboxId false (some error) uuid now

def InboxMessage.skipped (m : InboxMessage) (finalStatus : InboxStatus) (now : Time) : InboxMessage :=
  {m with
    status := finalStatus
    noteStatus := .completed
    memoryStatus := .completed
    noteCompletedAt := some now
    memoryCompletedAt := some now}

/-- `task_type = 'ingest' AND status IN ('blocked', 'queued', 'retry')`. -/
def Task.waitingIngest (t : Task) : Bool :=
  t.taskType = "ingest" && (t.status = .blocked || t.status = .queued || t.status = .retry)

def Task.cancelled (t : Task) (reason : String) (now : Time) : Task :=
  {t with status := .cancelled,completedAt := some now,lastError := some reason}

/-- The `UPDATE tasks` of `skip_inbox_record`: every tenant's and space's tasks of
that source message id. -/
def cancelRoot (tasks : Table Task.id) (m : InboxMessage) (reason : InboxStatus) (now : Time) : Table Task.id :=
  tasks.updateWhere (fun t => t.sourceMessageId = some m.sourceMessageId && t.waitingIngest)
    (Task.cancelled · reason.text now)

/-- Whether there is such a message. -/
def skipInboxRecord (db : Db) (inboxId : InboxId) (finalStatus : InboxStatus) (cancelRootTask : Bool)
    (uuid : TaskId → Nat) (now : Time) : Option (Db × Bool) :=
  match db.inbox.find? inboxId with
  | none => some (db,false)
  | some m => do
    let s ← db.spaces.find? m.spaceId
    let db := {db with inbox := db.inbox.put (m.skipped finalStatus now)}
    let db := if cancelRootTask then {db with tasks := cancelRoot db.tasks m finalStatus now} else db
    let db ← advanceWatermarksInSession db s uuid now
    return (db,true)

/-- `ORDER BY received_at LIMIT max(1, min(limit, 5000))`. -/
def oldest (limit : Int) (messages : List InboxMessage) : List InboxId :=
  ((messages.insertionSort (fun m n => m.receivedAt ≤ n.receivedAt)).map InboxMessage.id).take
    (max 1 (min limit 5000)).toNat

def sensitiveIds (db : Db) (limit : Int) : List InboxId :=
  oldest limit (db.inbox.rows.filter (fun m => m.status = .blockedSensitive && !m.noteStatus.ended))

/-- One row for each task joined to the message by its source message id. -/
def unknownCommandIds (db : Db) (limit : Int) : List InboxId :=
  oldest limit (db.inbox.rows.flatMap (fun m =>
    ((db.tasks.rows.filter (fun t => t.sourceMessageId = some m.sourceMessageId)).filter
      (fun t => m.status = .pending && m.text.startsWith "/" && t.waitingIngest)).map (fun _ => m)))

/-- The transactions of `recover_skipped_ingress` that follow its selection, in order. -/
def recoverySkips (db : Db) (limit : Int) : List (InboxId × InboxStatus × Bool) :=
  (sensitiveIds db limit).map (·,.blockedSensitive,false) ++
    (unknownCommandIds db limit).map (·,.skippedCommand,true)

end Suixinji.Dispatch
