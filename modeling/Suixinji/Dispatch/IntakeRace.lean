import Mathlib.Logic.Function.Basic
import Suixinji.Dispatch.Effects

/-! `receive_command` transactions that run at the same time. Each statement reads
what is committed and what its own transaction wrote; a row under a unique key
that another open transaction wrote makes it wait. -/
namespace Suixinji.Dispatch.IntakeRace
open Suixinji.Relational

abbrev Txn := Nat

/-- A call past `ensure_tenant_space`; the space may be its own uncommitted row. -/
structure Receiving where
  command : Command
  draws : Draws
  now : Time
  spaceId : SpaceId
  newSpace : Option Space

/-- The text under `pg_advisory_xact_lock`. -/
def Receiving.lockKey (r : Receiving) : String := r.command.tenant ++ ":" ++ r.spaceId

inductive Phase where
  | idle
  | ensured (r : Receiving)
  | locked (r : Receiving)
  | numbered (r : Receiving) (sequenceNo : Nat)
  | inserted (r : Receiving) (m : InboxMessage)

/-- The call of a transaction that is open. -/
def Phase.receiving : Phase → Option Receiving
  | .idle => none
  | .ensured r | .locked r | .numbered r _ | .inserted r _ => some r

/-- The call of a transaction that holds its advisory lock. -/
def Phase.holder : Phase → Option Receiving
  | .idle | .ensured _ => none
  | .locked r | .numbered r _ | .inserted r _ => some r

def Phase.newSpace (p : Phase) : Option Space := p.receiving.bind Receiving.newSpace

/-- The uncommitted inbox row. -/
def Phase.message : Phase → Option InboxMessage
  | .inserted _ m => some m
  | _ => none

structure World where
  db : Db := {}
  phase : Txn → Phase := fun _ => .idle

def initial : World := {}

def World.move (w : World) (i : Txn) (p : Phase) : World := {w with phase := Function.update w.phase i p}

/-- The end of a transaction: the rows it wrote, its root task, the marks. -/
def finish (host : Host) (db : Db) (r : Receiving) (m : InboxMessage) : Option (Db × DispatchResult) := do
  let db ← db.withSpace r.newSpace
  let db ← db.insertMessage m
  receiveMessage host db r.command m r.draws r.now

inductive Event where
  | ensure (i : Txn) (c : Command)
  | lock (i : Txn)
  | look (i : Txn)
  | insert (i : Txn)
  | commit (i : Txn) (c : Command) (result : DispatchResult)
  | abort (i : Txn)

inductive Step (host : Host) : World → Event → World → Prop
  -- whatever its statements see one after the other, this is what they end with
  | ensure {w : World} {i : Txn} {r : Receiving} (idle : w.phase i = .idle)
      (ensured : Ensured host w.db r.command.spaceId r.command.tenant r.command.source r.spaceId r.newSpace)
      (free : ∀ j s t, r.newSpace = some s → (w.phase j).newSpace = some t →
        s.id ≠ t.id ∧ s.identity ≠ t.identity) :
      Step host w (.ensure i r.command) (w.move i (.ensured r))
  | lock {w : World} {i : Txn} {r : Receiving} (here : w.phase i = .ensured r)
      (free : ∀ j r', (w.phase j).holder = some r' → r'.lockKey ≠ r.lockKey) :
      Step host w (.lock i) (w.move i (.locked r))
  | look {w : World} {i : Txn} {r : Receiving} (here : w.phase i = .locked r)
      (absent : w.db.messageByIdentity? r.command.identity = none) :
      Step host w (.look i) (w.move i (.numbered r (w.db.nextSequenceNo r.spaceId)))
  | duplicate {w : World} {i : Txn} {r : Receiving} {m : InboxMessage} {db : Db} (here : w.phase i = .locked r)
      (known : w.db.messageByIdentity? r.command.identity = some m)
      (written : w.db.withSpace r.newSpace = some db) :
      Step host w (.commit i r.command (duplicateOf w.db r.command m)) ({w with db}.move i .idle)
  | insert {w : World} {i : Txn} {r : Receiving} {n : Nat} {m : InboxMessage} {db : Db}
      (here : w.phase i = .numbered r n) (row : m = r.command.message r.draws.inboxId r.spaceId n)
      (unique : w.db.insertMessage m = some db)
      (free : ∀ j m', (w.phase j).message = some m' →
        m'.id ≠ m.id ∧ m'.identity ≠ m.identity ∧ m'.slot ≠ m.slot) :
      Step host w (.insert i) (w.move i (.inserted r m))
  -- its task's key is its own until it commits: nobody else can have inserted it since
  | commit {w : World} {i : Txn} {r : Receiving} {m : InboxMessage} {db : Db} {result : DispatchResult}
      (here : w.phase i = .inserted r m) (done : finish host w.db r m = some (db,result)) :
      Step host w (.commit i r.command result) ({w with db}.move i .idle)
  -- an exception, or a crash
  | abort {w : World} (i : Txn) : Step host w (.abort i) (w.move i .idle)

end Suixinji.Dispatch.IntakeRace
