import Mathlib.Logic.Function.Basic
import Suixinji.Dispatch.Writes
import Suixinji.Dispatch.Fencing
import Suixinji.Streams.Outbox

/-! The way of a task from the outbox to the workers: the relay of
repositories/postgres/outbox.py, the consumer groups, and `StreamWorker._handle`
(runtime/streams/worker.py). -/
namespace Suixinji.Streams
open Suixinji.Relational Suixinji.Transition Suixinji.Dispatch

abbrev WorkerId := String
abbrev MessageId := Nat

/-- An entry of a task type's stream with its state in the consumer group. -/
structure Message where
  id : MessageId
  event : EventId
  taskId : TaskId
  acked : Bool := false
  consumer : Option WorkerId := none
  deriving DecidableEq

/-- Where a worker stands in `_handle`. -/
inductive Phase where
  | idle
  | received (message : MessageId)
  | refused (message : MessageId)
  | handling (message : MessageId) (lease : Lease)
  | acking (message : MessageId)
  deriving DecidableEq

/-- Where a relay stands in `relay_outbox_batch`: the events claimed and not yet
marked, and whether the first of them has been published. -/
structure Relaying where
  events : List OutboxEvent := []
  published : Option Bool := none

/-- A worker crashes, or an exception leaves `_handle`, by falling back to `idle`
with an empty batch. -/
structure World where
  db : Db := {}
  stream : Table Message.id := .empty
  phase : WorkerId → Phase := fun _ => .idle
  batch : WorkerId → List MessageId := fun _ => []
  relay : String → Relaying := fun _ => {}

inductive HandlerResult where
  | outcome (o : Outcomes) (uuid : Nat)
  | retryLater (reason : String) (delay : Int)
  | failed (error : String) (delay : Int) (uuid : TaskId → Nat)

def HandlerResult.op (lease : Lease) : HandlerResult → Op
  | .outcome o uuid => .completeTask lease o uuid
  | .retryLater reason delay => .deferTask lease reason delay
  | .failed error delay uuid => .failTask lease error delay uuid

/-- The replies after which `_handle` acknowledges the message. -/
def settles : Reply → Bool
  | .done ok => ok
  | .failed result => result ≠ .stale
  | _ => false

/-- `existing is None or existing["status"] in {...}`. -/
def acknowledgeable : Option TaskStatus → Bool
  | none => true
  | some status => status ≠ .queued && status ≠ .running

inductive Event where
  /-- A transaction of anyone but the workers' `_handle`. -/
  | dispatch (op : Op) (now : Time)
  | claimBatch (relay : String) (limit : Int) (eventIds : Option (List EventId)) (leaseSeconds : Int)
    (token : EventId → String) (now : Time)
  | publish (relay : String) (id : MessageId)
  /-- `publish_task` raised; the server may have added the entry all the same. -/
  | publishFails (relay : String) (added : Option MessageId)
  | markBatch (relay : String) (error : String) (now : Time)
  | relayCrashes (relay : String)
  /-- XREADGROUP, or XAUTOCLAIM from another consumer. -/
  | deliver (worker : WorkerId) (id : MessageId)
  | start (worker : WorkerId)
  | claim (worker : WorkerId) (leaseToken : String) (leaseSeconds : Int) (now : Time)
  | readStatus (worker : WorkerId)
  | finish (worker : WorkerId) (result : HandlerResult) (now : Time)
  | acknowledge (worker : WorkerId)
  | workerCrashes (worker : WorkerId)

namespace World

def enter (w : World) (i : WorkerId) (p : Phase) : World := {w with phase := Function.update w.phase i p}

@[simp] theorem enter_self (w : World) (i : WorkerId) (p : Phase) : (w.enter i p).phase i = p :=
  Function.update_self ..

theorem enter_other (w : World) {i j : WorkerId} (p : Phase) (other : j ≠ i) : (w.enter i p).phase j = w.phase j :=
  Function.update_of_ne other ..

def crash (w : World) (i : WorkerId) : World :=
  {w.enter i .idle with batch := Function.update w.batch i []}

def relayed (w : World) (r : String) (s : Relaying) : World := {w with relay := Function.update w.relay r s}

@[simp] theorem relayed_self (w : World) (r : String) (s : Relaying) : (w.relayed r s).relay r = s :=
  Function.update_self ..

theorem relayed_other (w : World) {r q : String} (s : Relaying) (other : q ≠ r) : (w.relayed r s).relay q = w.relay q :=
  Function.update_of_ne other ..

/-- XADD. -/
def add (w : World) (id : MessageId) (e : OutboxEvent) : Option World :=
  (w.stream.insert {id,event := e.id,taskId := e.aggregateId}).map (fun stream => {w with stream})

def setMessage (w : World) (m : Message) : World := {w with stream := w.stream.put m}

end World

/-- The transactions of `_handle` itself. -/
def ofWorker : Op → Bool
  | .claimTask .. | .completeTask .. | .failTask .. | .deferTask .. => true
  | _ => false

def next (host : Host) (w : World) : Event → Option World
  | .dispatch op now => if ofWorker op then none else some {w with db := (outcome host w.db w.db now op).1}
  | .claimBatch r limit eventIds leaseSeconds token now =>
    if (w.relay r).events = [] then
      let (db,events) := claimOutboxBatch w.db r limit eventIds leaseSeconds token now
      some ({w with db}.relayed r {events})
    else none
  | .publish r id =>
    match w.relay r with
    | ⟨e::rest,none⟩ => (w.add id e).map (World.relayed · r ⟨e::rest,some true⟩)
    | _ => none
  | .publishFails r added =>
    match w.relay r with
    | ⟨e::rest,none⟩ =>
      (match added with
        | none => some w
        | some id => w.add id e).map (World.relayed · r ⟨e::rest,some false⟩)
    | _ => none
  | .markBatch r error now =>
    match w.relay r with
    | ⟨e::rest,some true⟩ =>
      some ({w with db := (markOutboxPublished w.db e.id (e.leaseToken.getD "") now).1}.relayed r ⟨rest,none⟩)
    | ⟨e::rest,some false⟩ =>
      some ({w with db := (markOutboxFailed w.db e.id (e.leaseToken.getD "") error now).1}.relayed r ⟨rest,none⟩)
    | _ => none
  | .relayCrashes r => some (w.relayed r {})
  | .deliver i id =>
    match w.phase i,w.stream.find? id with
    | .idle,some m =>
      if m.acked then none
      else some {w.setMessage {m with consumer := some i} with batch := Function.update w.batch i (w.batch i ++ [id])}
    | _,_ => none
  | .start i =>
    match w.phase i,w.batch i with
    | .idle,id::rest =>
      (w.stream.find? id).map (fun m =>
        {w.enter i (if m.taskId = "" then .acking id else .received id) with batch := Function.update w.batch i rest})
    | _,_ => none
  | .claim i leaseToken leaseSeconds now =>
    match w.phase i with
    | .received id =>
      (w.stream.find? id).map (fun m =>
        let (db,reply) := outcome host w.db w.db now (.claimTask m.taskId i leaseToken leaseSeconds)
        match reply with
        | .claimed (some t) => {w with db}.enter i (.handling id t.lease)
        | .claimed none => {w with db}.enter i (.refused id)
        | _ => w.crash i)
    | _ => none
  | .readStatus i =>
    match w.phase i with
    | .refused id =>
      (w.stream.find? id).map (fun m =>
        if acknowledgeable ((w.db.tasks.find? m.taskId).map Task.status) then w.enter i (.acking id)
        else w.enter i .idle)
    | _ => none
  | .finish i result now =>
    match w.phase i with
    | .handling id lease =>
      let (db,reply) := outcome host w.db w.db now (result.op lease)
      some (if reply = .raised then w.crash i
        else if settles reply then {w with db}.enter i (.acking id)
        else {w with db}.enter i .idle)
    | _ => none
  | .acknowledge i =>
    match w.phase i with
    | .acking id => (w.stream.find? id).map (fun m => (w.setMessage {m with acked := true}).enter i .idle)
    | _ => none
  | .workerCrashes i => some (w.crash i)

def Step (host : Host) (w : World) (e : Event) (w' : World) : Prop := next host w e = some w'

end Suixinji.Streams
