import Mathlib.Algebra.Group.Int.Defs
import Suixinji.Deliveries.Store
import Suixinji.Dispatch.Apart

/-! The stream worker on a delivery task: `_handle` of runtime/streams/worker.py around
`handle_delivery` of apps/handlers.py, one transaction a step, beside whatever else
goes on in the tables. -/
namespace Suixinji.Deliveries
open Suixinji.Relational Suixinji.Dispatch Suixinji.Transition

/-- The payload keys that `handle_delivery` reads. -/
structure DeliveryPayload where
  deliveryKey : String
  deliveryType : Option String := none
  messageId : Option String := none
  chatId : String
  text : String
  deriving DecidableEq

/-- Milliseconds for the base of the retry delays. -/
structure WorkerSettings where
  taskLeaseSeconds : Int := 60
  workerRetryBase : Int := 2000

def DeliveryPayload.reservation (p : DeliveryPayload) (t : Task) : Reservation where
  deliveryKey := p.deliveryKey
  deliveryType := (truthy p.deliveryType).getD "message"
  tenantId := (truthy (some t.tenantId)).getD defaultTenantId
  spaceId := t.spaceId
  messageId := p.messageId

/-- How the handler ends for the worker. -/
inductive Handled where
  | returns
  | retryLater (reason : String) (delay : Int)
  | raises (error : String)
  deriving DecidableEq

inductive Stage where
  | waiting
  | claimed (t : Task)
  | refused (t : Task)
  | reserved (t : Task)
  | sent (t : Task) (result : Sending)
  | ended (t : Task) (handled : Handled)
  deriving DecidableEq

/-- The tables and the run in progress. -/
structure Desk where
  store : Store
  stage : Stage

inductive Move where
  | claim (workerId token : String) (now : Time)
  -- the error is that of a reservation that raises
  | reserve (error : String) (now : Time)
  | look
  | send (chatId text : String) (result : Sending)
  | fake
  | mark (now : Time)
  | report (uuid : TaskId → Nat) (now : Time)
  | elsewhere

def Move.claims : Move → Bool
  | .claim .. => true
  | _ => false

def defaultOutcome (t : Task) : Outcomes := {releaseInboxId := truthy t.payload.inboxId}

/-- `complete_task`, `defer_task` or `fail_task`, and whether the lease was still held. -/
def reportTask (w : WorkerSettings) (db : Db) (t : Task) (uuid : TaskId → Nat) (now : Time) :
    Handled → Option (Db × Bool)
  | .returns => completeTask db db t.lease (defaultOutcome t) (uuid t.id) now
  | .retryLater reason delay => some (deferTask db t.lease reason delay now)
  | .raises error =>
    (failTask db t.lease error (w.workerRetryBase * 2 ^ t.failureCount) uuid now).map (Prod.map id (· ≠ .stale))

def markSending (store : Store) (key : String) (now : Time) : Sending → Store × Handled
  | .returns => (markSent store key now,.returns)
  | .timesOut error => (markUnknown store key error now,.returns)
  | .raises error => (markFailed store key error now,.raises error)

def refusedDelivery (existing : Option Delivery) : Handled :=
  if existing.any (·.status.settled) then .returns else .retryLater "delivery is already reserved" 1000

def Desk.next (host : Host) (settings : Settings) (w : WorkerSettings) (p : DeliveryPayload) (taskId : TaskId) (s : Desk) :
    Move → Option Desk
  | .claim workerId token now =>
    if s.stage = .waiting then do
      let (db,row) ← claimTask s.store.db taskId workerId token w.taskLeaseSeconds now
      return ⟨{s.store with db},.claimed (← row)⟩
    else none
  | .reserve error now =>
    match s.stage with
    | .claimed t =>
      match reserveDelivery host settings s.store (p.reservation t) now with
      | none => some {s with stage := .ended t (.raises error)}
      | some (store,none) => some ⟨store,.refused t⟩
      | some (store,some _) => some ⟨store,.reserved t⟩
    | _ => none
  | .look =>
    match s.stage with
    | .refused t => some {s with stage := .ended t (refusedDelivery (s.store.deliveries.find? p.deliveryKey))}
    | _ => none
  | .send chatId text result =>
    match s.stage with
    | .reserved t =>
      if chatId = p.chatId ∧ text = p.text ∧ !settings.fakeExternals then some {s with stage := .sent t result} else none
    | _ => none
  | .fake =>
    match s.stage with
    | .reserved t => if settings.fakeExternals then some {s with stage := .sent t .returns} else none
    | _ => none
  | .mark now =>
    match s.stage with
    | .sent t result =>
      let (store,handled) := markSending s.store p.deliveryKey now result
      some ⟨store,.ended t handled⟩
    | _ => none
  | .report uuid now =>
    match s.stage with
    | .ended t handled =>
      let (db,_) := (reportTask w s.store.db t uuid now handled).getD (s.store.db,false)
      some ⟨{s.store with db},.waiting⟩
    | _ => none
  | .elsewhere => none

/-- A step of anyone else: any call that neither claims nor ends the task, the
reservations and outcomes of other deliveries, and the recovery of stale ones. -/
inductive Elsewhere (host : Host) (settings : Settings) (taskId : TaskId) (key : String) : Store → Store → Prop
  | dispatch {store : Store} (snap : Db) (op : Op) (now : Time) (other : op.task? ≠ some taskId) :
    Elsewhere host settings taskId key store {store with db := (outcome host snap store.db now op).1}
  | reserve {store store' : Store} {r : Reservation} {now : Time} {row : Option Delivery} (other : r.deliveryKey ≠ key)
    (ok : reserveDelivery host settings store r now = some (store',row)) : Elsewhere host settings taskId key store store'
  | mark {store : Store} {deliveryKey : String} (status : DeliveryStatus) (error : Option String) (now : Time)
    (other : deliveryKey ≠ key) : Elsewhere host settings taskId key store (updateStatus store deliveryKey status error now)
  | recover {store : Store} (now : Time) : Elsewhere host settings taskId key store (recoverStaleReservedDeliveries store now).1

/-- The parameters a run is about. -/
structure Errand where
  host : Host
  settings : Settings
  worker : WorkerSettings
  payload : DeliveryPayload
  taskId : TaskId

def Errand.Step (x : Errand) (s : Desk) (m : Move) (s' : Desk) : Prop :=
  s.next x.host x.settings x.worker x.payload x.taskId m = some s' ∨
    (m = .elsewhere ∧ s'.stage = s.stage ∧ Elsewhere x.host x.settings x.taskId x.payload.deliveryKey s.store s'.store)

/-- A report is made under the lease of its claim. -/
def Errand.Kept (x : Errand) (s : Desk) : Move → Prop
  | .report uuid now => ∀ t handled, s.stage = .ended t handled →
      ∃ db, reportTask x.worker s.store.db t uuid now handled = some (db,true)
  | _ => True

/-- `send_text` raises. -/
def Raising (_ : Desk) : Move → Prop
  | .send _ _ result => result ≠ .returns
  | _ => True

/-- One run of the worker on the task, from its claim to its report. -/
def Errand.HandleRun (x : Errand) (ok : Desk → Move → Prop) (s s' : Desk) : Prop :=
  s.stage = .waiting ∧ s'.stage = .waiting ∧ ∃ moves, Run (Guarded ok x.Step) s moves s' ∧ moves.countP Move.claims = 1

/-- A task without failures so far, and no row of its delivery. -/
structure Errand.Begins (x : Errand) (maxAttempts : Nat) (s : Desk) : Prop where
  waiting : s.stage = .waiting
  task : ∃ t ∈ s.store.db.tasks, t.id = x.taskId ∧ t.maxAttempts = maxAttempts ∧ t.failureCount = 0 ∧
    (t.status = .blocked ∨ t.status = .queued)
  untouched : ∀ d ∈ s.store.deliveries, d.deliveryKey ≠ x.payload.deliveryKey

def Errand.Terminal (x : Errand) (s : Desk) : Prop :=
  ∃ t ∈ s.store.db.tasks, t.id = x.taskId ∧ (t.status = .completed ∨ t.status = .deadLetter)

end Suixinji.Deliveries
