import Mathlib.Data.List.Basic
import Mathlib.Logic.Function.Basic

/-! The two rate limiters (infrastructure/redis_rate_limit.py): the Lua scripts over a Redis keyspace,
each run atomically, and the one in process memory. Times are milliseconds of one clock. -/
namespace Suixinji.Coordination.RateLimit

/-- `uuid4().hex`. -/
abbrev Token := Nat

/-- Tokens with the time at which each expires: a sorted set, or a dict. -/
abbrev Slots := List (Token × Int)

def Slots.drop (slots : Slots) (token : Token) : Slots := slots.filter (·.1 ≠ token)

def Slots.put (slots : Slots) (token : Token) (expires : Int) : Slots := slots.drop token ++ [(token,expires)]

def Slots.liveAt (slots : Slots) (now : Int) : Slots := slots.filter (now < ·.2)

structure LimitResult where
  allowed : Bool
  current : Int
  retryAfterMs : Int
  deriving DecidableEq

inductive Value where
  | counter (value : Int)
  | sortedSet (members : Slots)
  deriving DecidableEq

/-- A key's value and the time set for its expiry. -/
structure Entry where
  value : Value
  expires : Option Int := none
  deriving DecidableEq

variable {κ : Type} [DecidableEq κ]

abbrev Keyspace (κ : Type) := κ → Option Entry

/-- A key is gone from the time that was set on. -/
def live (db : Keyspace κ) (now : Int) (key : κ) : Option Entry := (db key).filter (fun e => e.expires.all (now < ·))

/-- Commands on a value of another kind fail with WRONGTYPE: `none`. -/
def incrBy (db : Keyspace κ) (now : Int) (key : κ) (n : Int) : Option (Int × Keyspace κ) :=
  match live db now key with
  | none => some (n,Function.update db key (some {value := .counter n}))
  | some {value := .counter value,expires} =>
    some (value + n,Function.update db key (some {value := .counter (value + n),expires}))
  | some {value := .sortedSet _,..} => none

def pExpire (db : Keyspace κ) (now : Int) (key : κ) (ms : Int) : Keyspace κ :=
  match live db now key with
  | none => db
  | some e => Function.update db key (some {e with expires := some (now + ms)})

def pTtl (db : Keyspace κ) (now : Int) (key : κ) : Int :=
  match live db now key with
  | none => -2
  | some {expires := none,..} => -1
  | some {expires := some when_,..} => when_ - now

def members (db : Keyspace κ) (now : Int) (key : κ) : Option Slots :=
  match live db now key with
  | none => some []
  | some {value := .sortedSet members,..} => some members
  | some {value := .counter _,..} => none

def setMembers (db : Keyspace κ) (now : Int) (key : κ) (slots : Slots) : Keyspace κ :=
  if slots = [] then Function.update db key none
  else Function.update db key (some {value := .sortedSet slots,expires := (live db now key).bind Entry.expires})

/-- `_FIXED_WINDOW_LUA`. -/
def fixedWindow (db : Keyspace κ) (now : Int) (key : κ) (cost window limit : Int) : Option ((Bool × Int × Int) × Keyspace κ) := do
  let (value,db) ← incrBy db now key cost
  let db := if value = cost then pExpire db now key window else db
  let ttl := pTtl db now key
  some ((decide (value ≤ limit),value,ttl),db)

/-- `_ACQUIRE_SLOT_LUA`. -/
def acquireScript (db : Keyspace κ) (now : Int) (key : κ) (nowMs limit expiresMs : Int) (token : Token) (ttl : Int) :
    Option (Bool × Keyspace κ) := do
  let db := setMembers db now key ((← members db now key).liveAt nowMs)
  let slots ← members db now key
  if limit ≤ slots.length then some (false,db)
  else some (true,pExpire (setMembers db now key (slots.put token expiresMs)) now key ttl)

/-- The answer of a call; `wrongType` is the error of a command on a value of another kind. -/
inductive Answer where
  | limited (result : LimitResult)
  | slot (token : Option Token)
  | released
  | wrongType
  deriving DecidableEq

namespace Redis

def allow (db : Keyspace κ) (now : Int) (key : κ) (limit window cost : Int) : Answer × Keyspace κ :=
  match fixedWindow db now key (max 1 cost) (max 1 window) (max 1 limit) with
  | none => (.wrongType,db)
  | some ((allowed,current,ttl),db) => (.limited ⟨allowed,current,max 0 ttl⟩,db)

def acquireSlot (db : Keyspace κ) (now : Int) (key : κ) (limit ttl : Int) (token : Token) : Answer × Keyspace κ :=
  let expiresMs := now + max 1 ttl
  match acquireScript db now key now (max 1 limit) expiresMs token (max 1 ttl) with
  | none => (.wrongType,db)
  | some (acquired,db) => (.slot (if acquired then some token else none),db)

def releaseSlot (db : Keyspace κ) (now : Int) (key : κ) (token : Token) : Answer × Keyspace κ :=
  match members db now key with
  | none => (.wrongType,db)
  | some slots => (.released,setMembers db now key (slots.drop token))

end Redis

structure LocalRateLimiter (κ : Type) where
  windows : κ → Option (Int × Int) := fun _ => none
  slots : κ → Option Slots := fun _ => none

namespace LocalRateLimiter

def allow (s : LocalRateLimiter κ) (now : Int) (key : κ) (limit window cost : Int) : Answer × LocalRateLimiter κ :=
  let (expires,current) := (s.windows key).getD (now + window,0)
  let (expires,current) := if expires ≤ now then (now + window,0) else (expires,current)
  let current := current + max 1 cost
  (.limited ⟨decide (current ≤ limit),current,max 0 (expires - now)⟩,
    {s with windows := Function.update s.windows key (some (expires,current))})

def acquireSlot (s : LocalRateLimiter κ) (now : Int) (key : κ) (limit ttl : Int) (token : Token) : Answer × LocalRateLimiter κ :=
  let slots := ((s.slots key).getD []).liveAt now
  if limit ≤ slots.length then (.slot none,{s with slots := Function.update s.slots key (some slots)})
  else (.slot (some token),{s with slots := Function.update s.slots key (some (slots.put token (now + ttl)))})

def releaseSlot (s : LocalRateLimiter κ) (key : κ) (token : Token) : Answer × LocalRateLimiter κ :=
  (.released,{s with slots := Function.update s.slots key ((s.slots key).map (·.drop token))})

end LocalRateLimiter

/-- A call; an `acquire_slot` with the token it draws. -/
inductive Call (κ : Type) where
  | allow (key : κ) (cost : Int)
  | acquireSlot (key : κ) (token : Token)
  | releaseSlot (key : κ) (token : Token)

def Call.key : Call κ → κ
  | .allow key _ | .acquireSlot key _ | .releaseSlot key _ => key

/-- Whether a call is about slots, and not about a window. -/
def Call.onSlots : Call κ → Bool
  | .allow .. => false
  | _ => true

structure Timed (κ : Type) where
  now : Int
  call : Call κ

/-- The one limit and the one window or ttl of every key. -/
structure Use (κ : Type) where
  limit : κ → Int
  period : κ → Int

variable (use : Use κ)

def redisStep (db : Keyspace κ) (e : Timed κ) : Answer × Keyspace κ :=
  match e.call with
  | .allow key cost => Redis.allow db e.now key (use.limit key) (use.period key) cost
  | .acquireSlot key token => Redis.acquireSlot db e.now key (use.limit key) (use.period key) token
  | .releaseSlot key token => Redis.releaseSlot db e.now key token

def localStep (s : LocalRateLimiter κ) (e : Timed κ) : Answer × LocalRateLimiter κ :=
  match e.call with
  | .allow key cost => s.allow e.now key (use.limit key) (use.period key) cost
  | .acquireSlot key token => s.acquireSlot e.now key (use.limit key) (use.period key) token
  | .releaseSlot key token => s.releaseSlot key token

/-- The answers of a limiter to calls in turn. -/
def answers {σ : Type} (step : σ → Timed κ → Answer × σ) (s : σ) : List (Timed κ) → List Answer
  | [] => []
  | e::es => (step s e).1 :: answers step (step s e).2 es

def redisAnswers (calls : List (Timed κ)) : List Answer := answers (redisStep use) (fun _ => none) calls

def localAnswers (calls : List (Timed κ)) : List Answer := answers (localStep use) {} calls

end Suixinji.Coordination.RateLimit
