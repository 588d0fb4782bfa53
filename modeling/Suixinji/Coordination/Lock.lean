import Mathlib.Logic.Function.Basic
import Suixinji.Relational.Transition

/-! `coordinated_lock` of one key, with the Redis backend and critical=True
(infrastructure/redis_lock.py). A process makes one call at a time; any number
of processes call. -/
namespace Suixinji.Coordination
open Suixinji.Transition

abbrev Process := Nat

/-- `uuid4().hex`. -/
abbrev Token := Nat

/-- Where a process stands in `coordinated_lock`. -/
inductive Phase where
  | outside
  | acquiring (token : Token)
  | refused (token : Token)
  | inRedis (token : Token)
  | releasing (token : Token)
  | fallback
  | inPostgres
  | unlocking
  deriving DecidableEq

/-- Inside the body, by either branch. -/
def Phase.inside : Phase → Bool
  | .inRedis _ | .inPostgres => true
  | _ => false

def Phase.token : Phase → Option Token
  | .acquiring t | .refused t | .inRedis t | .releasing t => some t
  | _ => none

/-- What becomes of a call to a server: it answers, the call fails before the
server has acted, or the server acts and its reply is lost. -/
inductive Answer where
  | replied
  | failed
  | lost
  deriving DecidableEq

structure World where
  redis : Option Token := none
  postgres : Option Process := none
  phase : Process → Phase := fun _ => .outside
  drawn : List Token := []

/-- No process has called yet. -/
def initial : World := {}

def World.move (w : World) (p : Process) (dest : Phase) : World := {w with phase := Function.update w.phase p dest}

/-- `SET key token NX`. -/
def World.set (w : World) (t : Token) : World := if w.redis = none then {w with redis := some t} else w

/-- `_RELEASE_LUA`: delete the key if it still holds the token. -/
def World.delete (w : World) (t : Token) : World := if w.redis = some t then {w with redis := none} else w

inductive Event where
  | call (p : Process) (t : Token)
  | noClient (p : Process)
  | trySet (p : Process) (answer : Answer)
  | retry (p : Process)
  | giveUp (p : Process)
  | leave (p : Process)
  | release (p : Process) (answer : Answer)
  | expire
  | lock (p : Process)
  | lockFails (p : Process)
  | unlock (p : Process) (answer : Answer)
  deriving DecidableEq

/-- One step of one process, or of the Redis clock. -/
def next (w : World) : Event → Option World
  | .call p t =>
    if w.phase p = .outside ∧ t ∉ w.drawn then some ({w with drawn := t::w.drawn}.move p (.acquiring t)) else none
  -- `RedisDistributedLock(key)` raises: the exception is swallowed and `acquired` stays False
  | .noClient p => if w.phase p = .outside then some (w.move p .fallback) else none
  | .trySet p answer =>
    match w.phase p,answer with
    | .acquiring t,.replied =>
      some ((w.set t).move p (if w.redis = none then .inRedis t else .refused t))
    | .acquiring _,.failed => some (w.move p .fallback)
    | .acquiring t,.lost => some ((w.set t).move p .fallback)
    | _,_ => none
  | .retry p =>
    match w.phase p with
    | .refused t => some (w.move p (.acquiring t))
    | _ => none
  -- the deadline has passed: `acquire` returns False
  | .giveUp p =>
    match w.phase p with
    | .refused _ => some (w.move p .fallback)
    | _ => none
  | .leave p =>
    match w.phase p with
    | .inRedis t => some (w.move p (.releasing t))
    | .inPostgres => some (w.move p .unlocking)
    | _ => none
  | .release p answer =>
    match w.phase p with
    | .releasing t => some ((if answer = .failed then w else w.delete t).move p .outside)
    | _ => none
  | .expire => some {w with redis := none}
  | .lock p =>
    if w.phase p = .fallback ∧ w.postgres = none then some ({w with postgres := some p}.move p .inPostgres)
    else none
  | .lockFails p => if w.phase p = .fallback then some (w.move p .outside) else none
  | .unlock p answer =>
    if w.phase p = .unlocking then
      some ((if answer = .failed then w else {w with postgres := none}).move p .outside)
    else none

/-- The renewal thread: the key does not expire under a process inside the body. -/
def Renewed (w : World) (e : Event) : Prop :=
  e = .expire → ∀ p t, w.phase p = .inRedis t → w.redis ≠ some t

def Step (w : World) (e : Event) (w' : World) : Prop := next w e = some w' ∧ Renewed w e

def Exclusive (w : World) : Prop := ∀ p q, (w.phase p).inside → (w.phase q).inside → p = q

end Suixinji.Coordination
