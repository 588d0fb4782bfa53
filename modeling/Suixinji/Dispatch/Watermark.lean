import Mathlib.Algebra.Group.Int.Defs
import Suixinji.Relational.Truth
import Suixinji.Dispatch.Schema

/-! Watermarks of a space and the blocked tasks they release
(repositories/postgres/dispatch.py). `none` is an exception: the transaction is
rolled back. -/
namespace Suixinji.Dispatch
open Suixinji.Relational

inductive Cast where
  | value (n : Int)
  | null
  | raised
  deriving DecidableEq

/-- A cast of the payload text to a signed integer of `bits` bits. -/
def castSigned (bits : Nat) : Option WatermarkText → Cast
  | none => .null
  | some (.number n) => if -2^(bits-1) ≤ n ∧ n < 2^(bits-1) then .value n else .raised
  | some .empty => .raised
  | some .malformed => .raised

/-- `as_integer()`. -/
def castInteger : Option WatermarkText → Cast := castSigned 32

/-- `NULLIF(text, '')::bigint`. -/
def castBigint (text : Option WatermarkText) : Cast :=
  castSigned 64 (if text = some .empty then none else text)

def Cast.coalesce (default : Int) : Cast → Cast
  | .null => .value default
  | c => c

/-- `cast <= mark`. -/
def Cast.atMost (mark : Nat) : Cast → Truth
  | .value n => .ofBool (n ≤ mark)
  | .null => .null
  | .raised => .raised

/-- `consistency = 'note'`, or any other text. -/
def consistencyIs (value : String) (text : Option String) : Truth := .ofOption (text.map (· = value))

/-- `consistency IN ('note', 'memory')`. -/
def consistencyGuarded (text : Option String) : Truth :=
  .ofOption (text.map (fun c => c = "note" || c = "memory"))

/-- The condition of `_activate_ready_tasks_in_session`. -/
def readyInSession (noteWatermark memoryWatermark : Nat) (p : Payload) : Truth :=
  .or (consistencyGuarded p.consistency).not
    (.or (.and (consistencyIs "note" p.consistency) ((castInteger p.requiredWatermark).atMost noteWatermark))
      (.and (consistencyIs "memory" p.consistency) ((castInteger p.requiredWatermark).atMost memoryWatermark)))

/-- The condition of the `activated` part of `_complete_task_with_inbox_outcome`. -/
def readyInStatement (noteWatermark memoryWatermark : Nat) (p : Payload) : Truth :=
  .or (consistencyGuarded (some (p.consistency.getD "weak"))).not
    (.or (.and (consistencyIs "note" p.consistency)
        (((castBigint p.requiredWatermark).coalesce 0).atMost noteWatermark))
      (.and (consistencyIs "memory" p.consistency)
        (((castBigint p.requiredWatermark).coalesce 0).atMost memoryWatermark)))

def Task.requeued (t : Task) : Task :=
  {t with status := .queued, nextRetryAt := none, claimedBy := none, leaseToken := none, leaseExpiresAt := none}

theorem Task.requeued_id (t : Task) : t.requeued.id = t.id := rfl

/-- The outbox row of `_publish_task_request`. -/
def requested (id : EventId) (t : Task) (attempt : Nat) (now : Time) : OutboxEvent where
  id := id
  aggregateId := t.id
  taskType := t.taskType
  attempt := max 1 attempt
  createdAt := now

def publishTaskRequest (db : Db) (t : Task) (attempt uuid : Nat) (now : Time) : Option Db := do
  let outbox ← db.outbox.insert (requested (.random uuid) t attempt now)
  return {db with outbox}

def Task.blockedIn (space : SpaceId) (t : Task) : Bool := t.spaceId = space && t.status = .blocked

/-- The rows `space_id = space AND status = 'blocked' AND ready`, unless the
condition raises on one of them. -/
def released (tasks : Table Task.id) (space : SpaceId) (ready : Payload → Truth) : Option (Task → Bool) :=
  if tasks.rows.any (fun t => t.blockedIn space && ready t.payload = .raised) then none
  else some (fun t => t.blockedIn space && ready t.payload = .yes)

/-- All rows get the transaction's time, so the source's order among them is not
kept. `uuid` gives the random id drawn for each task's event. -/
def activateReadyTasksInSession (db : Db) (space : Space) (uuid : TaskId → Nat) (now : Time) : Option Db := do
  let chosen ← released db.tasks space.id (readyInSession space.noteWatermark space.memoryWatermark)
  let outbox ← db.outbox.insertAll ((db.tasks.rows.filter chosen).map
    (fun t => requested (.random (uuid t.id)) t (t.attemptCount + 1) now))
  return {db with tasks := db.tasks.updateWhere chosen Task.requeued Task.requeued_id, outbox}

/-- `activate_task_in_session`: release one named task, whatever its space's marks. -/
def activateTaskInSession (db : Db) (taskId : TaskId) (uuid : Nat) (now : Time) : Option Db := do
  let t ← db.tasks.find? taskId
  if t.status = .blocked then
    publishTaskRequest {db with tasks := db.tasks.put t.requeued} t (t.attemptCount + 1) uuid now
  else return db

/-- The mark `_advance_watermarks_in_session` stores for one stage. -/
def advanced (messages : List InboxMessage) (stage : InboxMessage → StageStatus) (current : Nat) : Nat :=
  let above := messages.filter (fun m => current < m.sequenceNo)
  match ((above.filter (fun m => !(stage m).ended)).map InboxMessage.sequenceNo).min? with
  | some firstOpen => max current (firstOpen - 1)
  | none =>
    match (above.map InboxMessage.sequenceNo).max? with
    | some last => max current last
    | none => current

def Db.advancedSpace (db : Db) (space : Space) : Space :=
  {space with
    noteWatermark := advanced (db.messages space.id) InboxMessage.noteStatus space.noteWatermark
    memoryWatermark := advanced (db.messages space.id) InboxMessage.memoryStatus space.memoryWatermark}

def advanceWatermarksInSession (db : Db) (space : Space) (uuid : TaskId → Nat) (now : Time) : Option Db :=
  activateReadyTasksInSession {db with spaces := db.spaces.put (db.advancedSpace space)}
    (db.advancedSpace space) uuid now

end Suixinji.Dispatch
