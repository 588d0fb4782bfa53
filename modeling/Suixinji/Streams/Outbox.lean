import Mathlib.Algebra.Group.Nat.Defs
import Suixinji.Dispatch.TaskLife

/-! Events on their way to the stream (repositories/postgres/outbox.py). -/
namespace Suixinji.Dispatch
open Suixinji.Relational

/-- Not published, and waiting or under a lease that has run out. -/
def OutboxEvent.claimable (e : OutboxEvent) (now : Time) : Bool :=
  e.publishedAt.isNone &&
    (((e.status = .pending || e.status = .retry) && e.nextAttemptAt.all (· ≤ now)) ||
      (e.status = .publishing && e.leaseExpiresAt.any (· ≤ now)))

/-- `OUTBOX_MAX_ATTEMPTS`. -/
def outboxMaxAttempts : Nat := 10

def OutboxEvent.claimedFor (e : OutboxEvent) (workerId token : String) (leaseSeconds : Int) (now : Time) :
    OutboxEvent :=
  {e with
    status := .publishing
    claimedBy := some workerId
    leaseToken := some token
    leaseExpiresAt := some (now + seconds (max 1 leaseSeconds))
    lastAttemptAt := some now
    publishAttemptCount := e.publishAttemptCount + 1
    maxAttempts := if e.maxAttempts = 0 then outboxMaxAttempts else e.maxAttempts}

/-- `ORDER BY created_at LIMIT max(1, limit)`. -/
def claimableEvents (db : Db) (limit : Int) (eventIds : Option (List EventId)) (now : Time) : List OutboxEvent :=
  ((db.outbox.rows.filter (fun e => e.claimable now && eventIds.all (e.id ∈ ·))).insertionSort
    (fun e f => e.createdAt ≤ f.createdAt)).take (max 1 limit).toNat

/-- `token` gives the random token drawn for each event. -/
def claimOutboxBatch (db : Db) (workerId : String) (limit : Int) (eventIds : Option (List EventId))
    (leaseSeconds : Int) (token : EventId → String) (now : Time) : Db × List OutboxEvent :=
  let rows := claimableEvents db limit eventIds now
  ({db with outbox := db.outbox.updateWhere (· ∈ rows) (fun e => e.claimedFor workerId (token e.id) leaseSeconds now)},
    rows.map (fun e => e.claimedFor workerId (token e.id) leaseSeconds now))

/-- `id = :event_id AND status = 'publishing' AND lease_token = :lease_token`. -/
def OutboxEvent.heldWith (e : OutboxEvent) (eventId : EventId) (leaseToken : String) : Bool :=
  e.id = eventId && e.status = .publishing && e.leaseToken = some leaseToken

def OutboxEvent.marked (e : OutboxEvent) (now : Time) : OutboxEvent :=
  {e with
    status := .published
    publishedAt := some now
    claimedBy := none
    leaseToken := none
    leaseExpiresAt := none
    nextAttemptAt := none
    lastError := none}

def markOutboxPublished (db : Db) (eventId : EventId) (leaseToken : String) (now : Time) : Db × Bool :=
  ({db with outbox := db.outbox.updateWhere (·.heldWith eventId leaseToken) (·.marked now)},
    db.outbox.rows.any (·.heldWith eventId leaseToken))

def OutboxEvent.exhausted (e : OutboxEvent) : Bool :=
  max 1 (if e.maxAttempts = 0 then outboxMaxAttempts else e.maxAttempts) ≤ e.publishAttemptCount

/-- `min(300, 2 ** max(0, publish_attempt_count - 1))` seconds. -/
def OutboxEvent.backoff (e : OutboxEvent) : Time := seconds (min 300 (2 ^ (e.publishAttemptCount - 1) : Nat))

def OutboxEvent.refused (e : OutboxEvent) (error : String) (now : Time) : OutboxEvent :=
  {e with
    status := if e.exhausted then .dead else .retry
    failedAt := if e.exhausted then some now else none
    nextAttemptAt := if e.exhausted then none else some (now + e.backoff)
    lastError := some (firstChars 2000 error)
    claimedBy := none
    leaseToken := none
    leaseExpiresAt := none}

/-- The new status, unless the token is stale. -/
def markOutboxFailed (db : Db) (eventId : EventId) (leaseToken error : String) (now : Time) :
    Db × Option EventStatus :=
  ({db with outbox := db.outbox.updateWhere (·.heldWith eventId leaseToken) (·.refused error now)},
    (db.outbox.rows.find? (·.heldWith eventId leaseToken)).map (fun e => (e.refused error now).status))

end Suixinji.Dispatch
