import Mathlib.Logic.Function.Basic
import Suixinji.Dispatch.Intake
import Suixinji.Dispatch.TaskLife
import Suixinji.Relational.Transition

/-! Deliveries: the reservations and their outcomes (repositories/postgres/delivery.py)
and the workers that run `handle_delivery` on them (apps/handlers.py). -/
namespace Suixinji.Deliveries
open Suixinji.Relational Suixinji.Dispatch

inductive DeliveryStatus where
  | reserved
  | sent
  | failed
  | unknown
  deriving DecidableEq

/-- `status in {DELIVERY_SENT, DELIVERY_UNKNOWN}`. -/
def DeliveryStatus.settled : DeliveryStatus → Bool
  | .sent | .unknown => true
  | .reserved | .failed => false

structure Delivery where
  deliveryKey : String
  deliveryType : String
  tenantId : TenantId
  spaceId : SpaceId
  messageId : Option String
  status : DeliveryStatus
  createdAt : Time
  updatedAt : Time
  reservedAt : Option Time
  leaseExpiresAt : Option Time
  attemptCount : Nat
  error : Option String
  deriving DecidableEq

structure DeliveryAttempt where
  deliveryKey : String
  attemptNo : Nat
  status : DeliveryStatus
  startedAt : Time
  finishedAt : Option Time := none
  error : Option String := none
  deriving DecidableEq

/-- `uq_delivery_attempt_no`. -/
def DeliveryAttempt.key (a : DeliveryAttempt) : String × Nat := (a.deliveryKey,a.attemptNo)

def DeliveryAttempt.of (a : DeliveryAttempt) (d : Delivery) : Bool :=
  a.deliveryKey = d.deliveryKey && a.attemptNo = d.attemptCount

structure Store where
  db : Db := {}
  deliveries : Table Delivery.deliveryKey := .empty
  attempts : Table DeliveryAttempt.key := .empty

structure Settings where
  /-- An int; a negative one refuses what 0 refuses, every row that is there. -/
  deliveryMaxAttempts : Nat
  deliveryReservationTtlSeconds : Int
  fakeExternals : Bool

/-- The arguments of `reserve_delivery`. -/
structure Reservation where
  deliveryKey : String
  deliveryType : String := "message"
  tenantId : TenantId := defaultTenantId
  spaceId : String
  messageId : Option String := none
  deriving DecidableEq

def isReservationExpired (d : Delivery) (now : Time) : Bool :=
  d.status = .reserved && d.leaseExpiresAt.all (· ≤ now)

/-- Whether an existing row may be reserved again. -/
def Delivery.reservable (settings : Settings) (now : Time) (d : Delivery) : Bool :=
  !d.status.settled && !(d.status = .reserved && !isReservationExpired d now) &&
    d.attemptCount < settings.deliveryMaxAttempts

def Reservation.row (r : Reservation) (settings : Settings) (spaceId : SpaceId) (old : Option Delivery)
    (now : Time) : Delivery where
  deliveryKey := r.deliveryKey
  deliveryType := r.deliveryType
  tenantId := r.tenantId
  spaceId := spaceId
  messageId := r.messageId
  status := .reserved
  createdAt := (old.map Delivery.createdAt).getD now
  updatedAt := now
  reservedAt := some now
  leaseExpiresAt := some (now + seconds settings.deliveryReservationTtlSeconds)
  attemptCount := (old.map Delivery.attemptCount).getD 0 + 1
  error := none

def Store.write (store : Store) (old : Option Delivery) (row : Delivery) : Option (Table Delivery.deliveryKey) :=
  match old with
  | none => store.deliveries.insert row
  | some _ => some (store.deliveries.put row)

/-- The reserved row, if the delivery is this caller's to make. One reading of the
clock stands for those of the transaction. -/
def reserveDelivery (host : Host) (settings : Settings) (store : Store) (r : Reservation) (now : Time) :
    Option (Store × Option Delivery) := do
  let (db,spaceId) ← ensureTenantSpace host store.db r.spaceId r.tenantId "feishu"
  let store := {store with db}
  let old := store.deliveries.find? r.deliveryKey
  if old.any (fun d => !d.reservable settings now) then return (store,none)
  else
    let row := r.row settings spaceId old now
    let deliveries ← store.write old row
    let attempts := store.attempts.insertNew
      [{deliveryKey := r.deliveryKey,attemptNo := row.attemptCount,status := .reserved,startedAt := now}]
    return ({store with deliveries,attempts},some row)

def Delivery.withStatus (d : Delivery) (status : DeliveryStatus) (error : Option String) (now : Time) : Delivery :=
  {d with status,updatedAt := now,error}

def DeliveryAttempt.ended (a : DeliveryAttempt) (status : DeliveryStatus) (error : Option String)
    (now : Time) : DeliveryAttempt :=
  {a with status,finishedAt := some now,error}

/-- `_update_status`, behind `mark_sent`, `mark_failed` and `mark_unknown`. -/
def updateStatus (store : Store) (deliveryKey : String) (status : DeliveryStatus) (error : Option String)
    (now : Time) : Store :=
  match store.deliveries.find? deliveryKey with
  | none => store
  | some d => {store with
      deliveries := store.deliveries.put (d.withStatus status error now)
      attempts := store.attempts.updateWhere (DeliveryAttempt.of · d) (DeliveryAttempt.ended · status error now)}

def markSent (store : Store) (deliveryKey : String) (now : Time) : Store :=
  updateStatus store deliveryKey .sent none now

def markFailed (store : Store) (deliveryKey error : String) (now : Time) : Store :=
  updateStatus store deliveryKey .failed (some error) now

def markUnknown (store : Store) (deliveryKey error : String) (now : Time) : Store :=
  updateStatus store deliveryKey .unknown (some error) now

def expiredError : Option String := some "reservation lease expired"

/-- The stale reservations become failures; how many there were. -/
def recoverStaleReservedDeliveries (store : Store) (now : Time) : Store × Nat :=
  let stale (d : Delivery) : Bool := isReservationExpired d now
  let rows := store.deliveries.rows.filter stale
  ({store with
    deliveries := store.deliveries.updateWhere stale (Delivery.withStatus · .failed expiredError now)
    attempts := store.attempts.updateWhere (fun a => rows.any a.of) (DeliveryAttempt.ended · .failed expiredError now)},
    rows.length)

abbrev Worker := Nat

/-- Where a worker stands in `handle_delivery`, with the key and the number of the
attempt it reserved. -/
inductive Phase where
  | idle
  | refused (deliveryKey : String)
  | reserved (deliveryKey : String) (attempt : Nat)
  | returned (deliveryKey : String) (attempt : Nat)
  | timedOut (deliveryKey : String) (attempt : Nat) (error : String)
  | raised (deliveryKey : String) (attempt : Nat) (error : String)
  deriving DecidableEq

def Phase.holds : Phase → Option (String × Nat)
  | .reserved key n | .returned key n | .timedOut key n _ | .raised key n _ => some (key,n)
  | .idle | .refused _ => none

/-- What `send_text` does. -/
inductive Sending where
  | returns
  | timesOut (error : String)
  | raises (error : String)
  deriving DecidableEq

def Sending.phase (key : String) (attempt : Nat) : Sending → Phase
  | .returns => .returned key attempt
  | .timesOut error => .timedOut key attempt error
  | .raises error => .raised key attempt error

structure World where
  store : Store
  phase : Worker → Phase

inductive Event where
  | reserve (w : Worker) (r : Reservation) (now : Time) (granted : Bool)
  | look (w : Worker)
  | send (w : Worker) (deliveryKey : String) (result : Sending)
  | fake (w : Worker)
  | mark (w : Worker) (now : Time)
  | crash (w : Worker)
  | recover (now : Time)
  deriving DecidableEq

def World.move (s : World) (w : Worker) (p : Phase) : World := {s with phase := Function.update s.phase w p}

def next (host : Host) (settings : Settings) (s : World) : Event → Option World
  | .reserve w r now granted =>
    if s.phase w = .idle then do
      let (store,row) ← reserveDelivery host settings s.store r now
      match row,granted with
      | some d,true => some ({s with store}.move w (.reserved d.deliveryKey d.attemptCount))
      | none,false => some ({s with store}.move w (.refused r.deliveryKey))
      | _,_ => none
    else none
  -- `get_delivery`, then a return or RetryLater
  | .look w =>
    match s.phase w with
    | .refused _ => some (s.move w .idle)
    | _ => none
  | .send w key result =>
    match s.phase w with
    | .reserved held attempt =>
      if held = key ∧ !settings.fakeExternals then some (s.move w (result.phase key attempt)) else none
    | _ => none
  -- FAKE_EXTERNALS: nothing is sent
  | .fake w =>
    match s.phase w with
    | .reserved key attempt => if settings.fakeExternals then some (s.move w (.returned key attempt)) else none
    | _ => none
  | .mark w now =>
    match s.phase w with
    | .returned key _ => some ({s with store := markSent s.store key now}.move w .idle)
    | .timedOut key _ error => some ({s with store := markUnknown s.store key error now}.move w .idle)
    | .raised key _ error => some ({s with store := markFailed s.store key error now}.move w .idle)
    | _ => none
  | .crash w => some (s.move w .idle)
  | .recover now => some {s with store := (recoverStaleReservedDeliveries s.store now).1}

def Step (host : Host) (settings : Settings) (s : World) (e : Event) (s' : World) : Prop :=
  next host settings s e = some s'

/-- No worker is at work. -/
def World.quiet (s : World) : Prop := ∀ w, s.phase w = .idle

end Suixinji.Deliveries
