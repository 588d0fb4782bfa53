import Mathlib.Logic.Function.Basic
import Suixinji.Coordination.RedisKeys
import Suixinji.Hooks.Run

/-! The cache of tool results with Redis (infrastructure/redis_cache.py,
agent/hooks/tool_cache.py): the steps of the calls of read tools and of the
writers that change the database and invalidate a space. -/
namespace Suixinji.Cache
open Suixinji.Hooks
open Coordination.RedisKeys (part Hex segments segments_of_key read read_segments)

/-- One `run_tool` of a read tool. -/
structure Call (C : Type) where
  tool : String
  space : String
  /-- `json.dumps(args, sort_keys=True)`. -/
  payload : String
  /-- `context.metadata["access_context"]`, which only the callable reads. -/
  access : C
  deriving DecidableEq

/-- What a key of `cache_search` is joined from, in one environment. -/
structure Key where
  tenant : String
  kind : String
  space : String
  version : Nat
  digest : String
  deriving DecidableEq

/-- A result, the call it was computed for and the state of the database it was
computed from. -/
structure Entry (C V : Type) where
  value : V
  call : Call C
  asOf : Nat
  deriving DecidableEq

/-- Where `run_tool` stands. -/
inductive Phase (C V : Type) where
  | looking
  | keyed (version : Nat)
  | missed
  | ready (entry : Entry C V) (cached : Bool)
  | storing (entry : Entry C V) (cached : Bool) (version : Nat)
  | returned (entry : Entry C V) (cached : Bool)
  deriving DecidableEq

def Phase.result? {C V : Type} : Phase C V → Option (Entry C V × Bool)
  | .looking | .keyed _ | .missed => none
  | .ready entry cached | .storing entry cached _ | .returned entry cached => some (entry,cached)

structure Reader (C V : Type) where
  call : Call C
  /-- The state of the database at the last invalidation that had finished when the call began. -/
  since : Nat
  phase : Phase C V := .looking
  deriving DecidableEq

structure World (D C V : Type) where
  /-- The states of the database, the current one last. -/
  history : List D
  /-- The counters `cachever:space`, by tenant and space. -/
  versions : String → String → Nat := fun _ _ => 0
  entries : Key → Option (Entry C V) := fun _ => none
  /-- The state of the database at the last invalidation of the space. -/
  floor : String → Nat := fun _ => 0
  readers : Nat → Option (Reader C V) := fun _ => none

inductive Event (D C : Type) where
  /-- A writer commits a change. -/
  | commit (db : D)
  /-- `invalidate_space_cache`, or the bump of a write tool; what `incr` raises is swallowed. -/
  | invalidate (tenant space : String) (applied : Bool)
  | begin (p : Nat) (call : Call C)
  | readVersion (p : Nat)
  | fetch (p : Nat)
  /-- The lookup is not made, finds nothing or raises. -/
  | miss (p : Nat)
  | execute (p : Nat)
  | readStoreVersion (p : Nat)
  | store (p : Nat)
  /-- `after_tool` stores nothing, or raises. -/
  | finish (p : Nat)
  | expire (key : Key)

/-- The tenant of a `RedisCache` call that names none, as in `ToolCacheHook`. -/
def defaultTenant : String := "default"

/-- `RedisKeys.cache_search`. -/
def cacheSearch (digest : String → String) (tenant kind space : String) (version : Nat) (payload : String) : Key :=
  ⟨part tenant,part kind,part space,version,digest payload⟩

/-- The parts are read back from the key. -/
theorem cacheSearch_eq_iff {digest : String → String} (hex : ∀ text, Hex (digest text)) (env : String)
    {tenant tenant' kind kind' space space' payload payload' : String} {version version' : Nat} :
    Coordination.RedisKeys.key digest env (.cacheSearch tenant kind space version payload) =
        Coordination.RedisKeys.key digest env (.cacheSearch tenant' kind' space' version' payload') ↔
      cacheSearch digest tenant kind space version payload = cacheSearch digest tenant' kind' space' version' payload' := by
  unfold cacheSearch
  constructor
  · intro same
    have whole := congrArg read (segments_of_key hex same)
    rw [read_segments,read_segments,Option.some_inj] at whole
    obtain ⟨tenants,kinds,spaces,versions,digests⟩ := Coordination.RedisKeys.Call.cacheSearch.inj whole
    have numbers : (version : Int) = version' := Quote.intOf_repr.injective versions
    rw [tenants,kinds,spaces,digests,Int.ofNat.inj numbers]
  · intro same
    obtain ⟨tenants,kinds,spaces,rfl,digests⟩ := Key.mk.inj same
    rw [Coordination.RedisKeys.key,Coordination.RedisKeys.key,segments,segments,Coordination.RedisKeys.cacheSearch,Coordination.RedisKeys.cacheSearch,
      Coordination.RedisKeys.tenant,Coordination.RedisKeys.tenant,tenants,kinds,spaces,digests]

variable {D C V : Type}

/-- `RedisCache.version`. -/
def World.version (w : World D C V) (tenant space : String) : Nat := w.versions (part tenant) (part space)

/-- `RedisCache.bump_version`. -/
def World.bump (w : World D C V) (tenant space : String) : World D C V :=
  let counters := Function.update (w.versions (part tenant)) (part space) (w.version tenant space + 1)
  {w with versions := Function.update w.versions (part tenant) counters}

/-- The key under which the hook looks up and stores the result of a call. -/
def Call.key (digest : String → String) (call : Call C) (version : Nat) : Key :=
  cacheSearch digest defaultTenant call.tool call.space version call.payload

def World.move (w : World D C V) (p : Nat) (r : Reader C V) (phase : Phase C V) : World D C V :=
  {w with readers := Function.update w.readers p (some {r with phase := phase})}

variable (execute : Call C → D → V) (digest : String → String)

/-- One step of a writer or of the call `p`. -/
def next (w : World D C V) : Event D C → Option (World D C V)
  | .commit db => some {w with history := w.history ++ [db]}
  | .invalidate tenant space applied =>
    let w := if applied then w.bump tenant space else w
    some {w with floor := Function.update w.floor (part space) (w.history.length - 1)}
  | .begin p call =>
    some {w with readers := Function.update w.readers p (some {call, since := w.floor (part call.space)})}
  | .readVersion p => do
    let r ← w.readers p
    match r.phase with
    | .looking => if r.call.tool ∈ readTools then some (w.move p r (.keyed (w.version defaultTenant r.call.space))) else none
    | _ => none
  | .fetch p => do
    let r ← w.readers p
    match r.phase with
    | .keyed version => do
      let entry ← w.entries (r.call.key digest version)
      some (w.move p r (.ready entry true))
    | _ => none
  | .miss p => do
    let r ← w.readers p
    match r.phase with
    | .looking | .keyed _ => some (w.move p r .missed)
    | _ => none
  | .execute p => do
    let r ← w.readers p
    match r.phase with
    | .missed => do
      let db ← w.history.getLast?
      some (w.move p r (.ready ⟨execute r.call db,r.call,w.history.length - 1⟩ false))
    | _ => none
  -- also after a hit: the value that was found is stored again
  | .readStoreVersion p => do
    let r ← w.readers p
    match r.phase with
    | .ready entry cached =>
      if r.call.tool ∈ readTools then some (w.move p r (.storing entry cached (w.version defaultTenant r.call.space))) else none
    | _ => none
  | .store p => do
    let r ← w.readers p
    match r.phase with
    | .storing entry cached version =>
      some ({w with entries := Function.update w.entries (r.call.key digest version) (some entry)}.move p r (.returned entry cached))
    | _ => none
  | .finish p => do
    let r ← w.readers p
    match r.phase with
    | .ready entry cached | .storing entry cached _ => some (w.move p r (.returned entry cached))
    | _ => none
  | .expire key => some {w with entries := Function.update w.entries key none}

def Step (w : World D C V) (e : Event D C) (w' : World D C V) : Prop := next execute digest w e = some w'

/-- A deployment before its first read, with a state of the database. -/
def start (db : D) : World D C V := {history := [db]}

end Suixinji.Cache
