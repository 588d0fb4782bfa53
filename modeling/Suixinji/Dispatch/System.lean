import Suixinji.Dispatch.Intake
import Suixinji.Dispatch.TaskLife
import Suixinji.Relational.Transition

/-! The dispatch layer as a transition system on its tables: one step is one
transaction, labelled by the call and its reply. -/
namespace Suixinji.Dispatch
open Suixinji.Relational Suixinji.Transition

inductive Op where
  | receiveCommand (c : Command) (draws : Draws)
  | enqueueTask (new : NewTask) (taskId : TaskId) (uuid : Nat)
  | claimTask (taskId : TaskId) (workerId leaseToken : String) (staleAfterSeconds : Int)
  | renewTaskLease (lease : Lease) (leaseSeconds : Int)
  | completeTask (lease : Lease) (o : Outcomes) (uuid : Nat)
  | failTask (lease : Lease) (error : String) (delay : Int) (uuid : TaskId → Nat)
  | deferTask (lease : Lease) (reason : String) (delay : Int)
  | enqueueDueRetries (limit : Int) (taskIds : Option (List TaskId)) (uuid : TaskId → Nat)
  | skipInboxRecord (inboxId : InboxId) (finalStatus : InboxStatus) (cancelRootTask : Bool) (uuid : TaskId → Nat)
  | markInboxProcessed (inboxId : InboxId) (uuid : TaskId → Nat)
  | markInboxFailed (inboxId : InboxId) (error : String) (uuid : TaskId → Nat)

inductive Reply where
  | dispatched (result : DispatchResult)
  | enqueued (taskId : TaskId) (created : Bool)
  | claimed (row : Option Task)
  | done (ok : Bool)
  | failed (result : FailReply)
  | queued (count : Nat)
  | raised
  deriving DecidableEq

/-- The statement of an inbox outcome sees `snap`; everything else sees `db`. -/
def perform (host : Host) (snap db : Db) (now : Time) : Op → Option (Db × Reply)
  | .receiveCommand c draws => (receiveCommand host db c draws now).map (Prod.map id .dispatched)
  | .enqueueTask new taskId uuid =>
    (enqueueTask host db new taskId uuid now).map (Prod.map id (fun r => .enqueued r.1 r.2))
  | .claimTask taskId workerId leaseToken stale =>
    (claimTask db taskId workerId leaseToken stale now).map (Prod.map id .claimed)
  | .renewTaskLease lease leaseSeconds => some (Prod.map id .done (renewTaskLease db lease leaseSeconds now))
  | .completeTask lease o uuid => (completeTask snap db lease o uuid now).map (Prod.map id .done)
  | .failTask lease error delay uuid => (failTask db lease error delay uuid now).map (Prod.map id .failed)
  | .deferTask lease reason delay => some (Prod.map id .done (deferTask db lease reason delay now))
  | .enqueueDueRetries limit taskIds uuid =>
    (enqueueDueRetries db limit taskIds uuid now).map (Prod.map id .queued)
  | .skipInboxRecord inboxId finalStatus cancelRootTask uuid =>
    (skipInboxRecord db inboxId finalStatus cancelRootTask uuid now).map (Prod.map id .done)
  | .markInboxProcessed inboxId uuid => (markInboxProcessed db inboxId uuid now).map (·,.done true)
  | .markInboxFailed inboxId error uuid => (markInboxFailed db inboxId error uuid now).map (·,.done true)

/-- `session_scope`: an exception rolls the transaction back. -/
def outcome (host : Host) (snap db : Db) (now : Time) (op : Op) : Db × Reply :=
  (perform host snap db now op).getD (db,.raised)

structure Call where
  op : Op
  now : Time
  reply : Reply

/-- A transaction that runs alone. -/
def Step (host : Host) (db : Db) (call : Call) (db' : Db) : Prop :=
  outcome host db db call.now call.op = (db',call.reply)

/-- A transaction whose completion statement may have started at another state. -/
def OverlappedStep (host : Host) (db : Db) (call : Call) (db' : Db) : Prop :=
  ∃ snap, outcome host snap db call.now call.op = (db',call.reply)

theorem Step.overlapped {host : Host} {db db' : Db} {call : Call} (step : Step host db call db') :
    OverlappedStep host db call db' := ⟨db,step⟩

theorem outcome_cases {host : Host} {snap db db' : Db} {now : Time} {op : Op} {reply : Reply}
    (result : outcome host snap db now op = (db',reply)) :
    perform host snap db now op = some (db',reply) ∨
      (perform host snap db now op = none ∧ db' = db ∧ reply = .raised) := by
  unfold outcome at result
  cases performed : perform host snap db now op with
  | none =>
    rw [performed] at result
    cases result
    exact .inr ⟨rfl,rfl,rfl⟩
  | some r =>
    rw [performed] at result
    exact .inl (congrArg some result)

def execute (host : Host) (db : Db) : List (Time × Op) → Db × List Call
  | [] => (db,[])
  | (now,op)::ops =>
    let (db',reply) := outcome host db db now op
    let (db'',calls) := execute host db' ops
    (db'',⟨op,now,reply⟩::calls)

theorem run_execute (host : Host) (db : Db) (ops : List (Time × Op)) :
    Run (Step host) db (execute host db ops).2 (execute host db ops).1 := by
  induction ops generalizing db with
  | nil => exact .nil db
  | cons head ops ih => exact .cons rfl (ih _)

theorem run_execute_guarded (host : Host) (db : Db) (allowed : Op → Prop) (ops : List (Time × Op))
    (all : ∀ o ∈ ops, allowed o.2) :
    Run (Guarded (fun _ call => allowed call.op) (Step host)) db (execute host db ops).2 (execute host db ops).1 := by
  induction ops generalizing db with
  | nil => exact .nil db
  | cons head ops ih =>
    have first := all head (List.mem_cons_self ..)
    exact .cons ⟨first,rfl⟩ (ih _ (fun o later => all o (List.mem_cons_of_mem _ later)))

def Db.after (db : Db) (host : Host) (now : Time) (op : Op) : Db := (outcome host db db now op).1

def Db.reply (db : Db) (host : Host) (now : Time) (op : Op) : Reply := (outcome host db db now op).2

theorem step_after (host : Host) (db : Db) (now : Time) (op : Op) :
    Step host db ⟨op,now,db.reply host now op⟩ (db.after host now op) := rfl

end Suixinji.Dispatch
