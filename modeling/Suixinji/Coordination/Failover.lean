import Mathlib.Data.List.Perm.Subperm
import Suixinji.Coordination.KeyPool
import Suixinji.Relational.Transition

/-! Requests with the keys of a pool (`_chat_completion_with_key_pool` of core/llm_client.py), between the calls that other
threads make of the same pool. -/
namespace Suixinji.Coordination.Failover
open Suixinji.Transition Suixinji.Coordination.KeyPool

structure Caller where
  /-- `config.api_key`. -/
  apiKey : Option String
  builderAcceptsApiKey : Bool
  timeoutRetries : Nat

/-- A request, and the keys that were failed over from before it. -/
structure Request where
  key : Option String
  left : List (Option String)
  deriving DecidableEq

/-- Where the call is between two of its steps; with the key of the client, none for the default client. -/
inductive Phase where
  | selecting
  /-- After the sleep. -/
  | waited
  | ready (current : Option String)
  | sent (current : Option String)
  /-- The failure is reported; whether its category is one to fail over for. -/
  | failed (current : Option String) (retryable : Bool)
  | ended
  deriving DecidableEq

structure World where
  pool : APIKeyPool
  phase : Phase := .selecting
  usedKeys : List String := []
  timeoutAttempts : Nat := 0
  requests : List Request := []
  left : List (Option String) := []

inductive Outcome where
  | success
  | timeout
  | error (category : Category) (retryAfter : Option ℚ) (jitter : ℚ)

inductive Event where
  /-- A call of the pool by another thread. -/
  | other (call : Timed)
  | acquire (now : ℚ)
  | send
  | answer (now : ℚ) (outcome : Outcome)
  | decide (now : ℚ)

variable (caller : Caller)

def clientKey (current : Option String) : Option String :=
  if current.isSome && caller.builderAcceptsApiKey then current else caller.apiKey

/-- `pool.acquire(exclude=used_keys)`; `again` where a wait is followed by another one. -/
def World.select (w : World) (now : ℚ) (again : Bool) : World :=
  let answered := w.pool.acquire w.usedKeys now
  match answered.1 with
  | (some key,_) => { w with pool := answered.2,phase := .ready (some key),usedKeys := w.usedKeys ++ [key] }
  | (none,wait) => { w with pool := answered.2,phase := if again && 0 < wait then .waited else .ready none }

def World.answered (w : World) (current : Option String) (now : ℚ) : Outcome → World
  | .success => { w with pool := w.pool.reportSuccess current,phase := .ended }
  | .timeout =>
    if w.timeoutAttempts + 1 ≤ caller.timeoutRetries then
      { w with timeoutAttempts := w.timeoutAttempts + 1,phase := .ready current }
    else
      { w with
        timeoutAttempts := w.timeoutAttempts + 1
        pool := w.pool.reportFailure now current .other none 0
        phase := .failed current true }
  | .error category retryAfter jitter =>
    { w with pool := w.pool.reportFailure now current category retryAfter jitter,phase := .failed current (category ≠ .other) }

def next (w : World) (e : Event) : Option World :=
  match w.phase,e with
  | _,.other call => some { w with pool := w.pool.step call }
  | .selecting,.acquire now => some (w.select now true)
  | .waited,.acquire now => some (w.select now false)
  | .ready current,.send => some { w with requests := w.requests ++ [⟨clientKey caller current,w.left⟩],phase := .sent current }
  | .sent current,.answer now outcome => some (w.answered caller current now outcome)
  | .failed current retryable,.decide now =>
    if caller.builderAcceptsApiKey && retryable && w.pool.hasAlternative w.usedKeys now then
      some { w with left := w.left ++ [clientKey caller current],phase := .selecting }
    else some { w with phase := .ended }
  | _,_ => none

def Bounded (keys : List String) (w : World) : Prop :=
  w.requests.length ≤ max 1 keys.length + caller.timeoutRetries ∧ ∀ r ∈ w.requests, r.key ∉ r.left

def Granted (w : World) : Event → Prop
  | .acquire now => w.phase = .waited → w.pool.states ≠ [] → ∃ s ∈ w.pool.states, s.key ∉ w.usedKeys ∧ s.cooldownUntil ≤ now
  | .other _ | .send | .answer .. | .decide _ => True

instance (w : World) (e : Event) : Decidable (Granted w e) :=
  match e with
  | .acquire now => inferInstanceAs (Decidable (w.phase = .waited → w.pool.states ≠ [] →
    ∃ s ∈ w.pool.states, s.key ∉ w.usedKeys ∧ s.cooldownUntil ≤ now))
  | .other _ | .send | .answer .. | .decide _ => .isTrue trivial

instance (caller : Caller) (keys : List String) (w : World) : Decidable (Bounded caller keys w) := inferInstanceAs (Decidable (_ ∧ _))

/-- What the key of a client is: a used one that was not left, or the default one of an empty pool. -/
def Held (keys : List String) (w : World) (current : Option String) : Prop :=
  (keys ≠ [] → ∃ key ∈ w.usedKeys, current = some key ∧ some key ∉ w.left) ∧ (keys = [] → w.left = [])

/-- The requests that were sent, by what is used up: the keys and the retries. -/
def spent (w : World) : Nat := min w.timeoutAttempts caller.timeoutRetries

def PhaseInv (keys : List String) (w : World) : Phase → Prop
  | .selecting | .waited =>
    w.requests.length ≤ w.usedKeys.length + spent caller w ∧ (keys ≠ [] → ∃ key ∈ keys, key ∉ w.usedKeys) ∧ (keys = [] → w.left = [])
  | .ready current => w.requests.length + 1 ≤ max 1 w.usedKeys.length + spent caller w ∧ Held keys w current
  | .sent current | .failed current _ => w.requests.length ≤ max 1 w.usedKeys.length + spent caller w ∧ Held keys w current
  | .ended => w.requests.length ≤ max 1 w.usedKeys.length + spent caller w

structure Inv (keys : List String) (w : World) : Prop where
  pool : w.pool.states.map KeyState.key = keys
  once : w.usedKeys.Nodup
  subset : ∀ key ∈ w.usedKeys, key ∈ keys
  left_used : ∀ key ∈ w.left, ∃ k ∈ w.usedKeys, key = some k
  accepts : caller.builderAcceptsApiKey = false → w.left = []
  phase : PhaseInv caller keys w w.phase
  never_back : ∀ r ∈ w.requests, r.key ∉ r.left

variable {caller} {keys : List String} {w w' : World} {e : Event} {now : ℚ}

theorem Held.fresh (held : Held keys w current) (accepts : caller.builderAcceptsApiKey = false → w.left = []) :
    clientKey caller current ∉ w.left := by
  unfold clientKey
  cases accepted : caller.builderAcceptsApiKey with
  | false =>
    rw [accepts accepted]
    exact List.not_mem_nil
  | true =>
    by_cases none_ : keys = []
    · rw [held.2 none_]
      exact List.not_mem_nil
    · obtain ⟨key,_,rfl,apart⟩ := held.1 none_
      exact apart

theorem Inv.bounded (inv : Inv caller keys w) : Bounded caller keys w := by
  refine ⟨?_,inv.never_back⟩
  have used : w.usedKeys.length ≤ keys.length := (List.subperm_of_subset inv.once inv.subset).length_le
  have retries : spent caller w ≤ caller.timeoutRetries := min_le_right _ _
  have phase := inv.phase
  cases at_ : w.phase <;> rw [at_] at phase <;> simp only [PhaseInv] at phase <;> omega

theorem Inv.other (inv : Inv caller keys w) (call : Timed) : Inv caller keys { w with pool := w.pool.step call } where
  pool := (APIKeyPool.keeps_step call).keys.trans inv.pool
  once := inv.once
  subset := inv.subset
  left_used := inv.left_used
  accepts := inv.accepts
  phase := inv.phase
  never_back := inv.never_back

theorem acquire_fresh (inv : Inv caller keys w) (unused : keys ≠ [] → ∃ key ∈ keys, key ∉ w.usedKeys) {key : String} {wait : ℚ}
    (returned : (w.pool.acquire w.usedKeys now).1 = (some key,wait)) : key ∈ keys ∧ key ∉ w.usedKeys := by
  obtain ⟨s,⟨there,left⟩,rfl,_⟩ := APIKeyPool.acquire_some returned
  have inside : s.key ∈ keys := inv.pool ▸ List.mem_map_of_mem there
  refine ⟨inside,left.elim id (fun all => ?_)⟩
  obtain ⟨key,listed,fresh⟩ := unused (List.ne_nil_of_mem inside)
  exact absurd (all key (inv.pool ▸ listed)) fresh

theorem acquire_keys (inv : Inv caller keys w) : (w.pool.acquire w.usedKeys now).2.states.map KeyState.key = keys :=
  (APIKeyPool.keeps_acquire false).keys.trans inv.pool

theorem Inv.selected (inv : Inv caller keys w) {key : String} {pool : APIKeyPool} (pool_keys : pool.states.map KeyState.key = keys)
    (inside : key ∈ keys) (fresh : key ∉ w.usedKeys) (spent_ : w.requests.length ≤ w.usedKeys.length + spent caller w) :
    Inv caller keys { w with pool := pool,phase := .ready (some key),usedKeys := w.usedKeys ++ [key] } where
  pool := pool_keys
  once := List.nodup_append.mpr ⟨inv.once,List.nodup_singleton _,fun _ old _ new same =>
    fresh (List.mem_singleton.mp new ▸ same ▸ old)⟩
  subset k member := (List.mem_append.mp member).elim (inv.subset k) (fun new => List.mem_singleton.mp new ▸ inside)
  left_used k member := by
    obtain ⟨k',used,same⟩ := inv.left_used k member
    exact ⟨k',List.mem_append_left _ used,same⟩
  accepts := inv.accepts
  phase := by
    refine ⟨?_,fun _ => ⟨key,List.mem_append_right _ (List.mem_singleton_self _),rfl,fun left => ?_⟩,fun none_ => ?_⟩
    · have size : (w.usedKeys ++ [key]).length = w.usedKeys.length + 1 := List.length_append
      change w.requests.length + 1 ≤ max 1 (w.usedKeys ++ [key]).length + spent caller w
      omega
    · obtain ⟨k,used,same⟩ := inv.left_used _ left
      exact fresh (Option.some.inj same ▸ used)
    · exact absurd inside (none_ ▸ List.not_mem_nil)
  never_back := inv.never_back

theorem Inv.select (inv : Inv caller keys w) (phase : PhaseInv caller keys w .selecting) (again : Bool)
    (granted : again = false → w.pool.states ≠ [] → ∃ s ∈ w.pool.states, s.key ∉ w.usedKeys ∧ s.cooldownUntil ≤ now) :
    Inv caller keys (w.select now again) := by
  obtain ⟨spent_,unused,none_left⟩ := phase
  unfold World.select
  dsimp only
  split
  · rename_i key wait returned
    obtain ⟨inside,fresh⟩ := acquire_fresh inv unused returned
    exact inv.selected (acquire_keys inv) inside fresh spent_
  · rename_i wait refused
    have same : (w.pool.acquire w.usedKeys now).2 = w.pool := APIKeyPool.acquire_none_same (congrArg Prod.fst refused)
    rw [same]
    split
    · exact { inv with phase := ⟨spent_,unused,none_left⟩ }
    · rename_i last
      -- the default client: only of an empty pool
      have none_ : w.pool.states = [] := by
        by_contra some_state
        cases again with
        | false =>
          obtain ⟨s,there,fresh,elapsed⟩ := granted rfl some_state
          have returned := APIKeyPool.acquire_isSome ⟨there,.inl fresh⟩ elapsed
          rw [refused] at returned
          exact absurd returned (by simp)
        | true =>
          obtain ⟨_,cooling,s,eligible,over_wait⟩ := APIKeyPool.acquire_none some_state refused
          have positive : 0 < wait := by linarith [cooling s eligible]
          exact last (by simp [positive])
      have empty : keys = [] := by rw [← inv.pool,none_]; rfl
      refine { inv with phase := ⟨?_,fun some_key => absurd empty some_key,none_left⟩ }
      have nothing_used : w.usedKeys = [] := List.eq_nil_iff_forall_not_mem.mpr (fun k used =>
        absurd (inv.subset k used) (empty ▸ List.not_mem_nil))
      change w.requests.length + 1 ≤ max 1 w.usedKeys.length + spent caller w
      rw [nothing_used,List.length_nil] at spent_ ⊢
      omega

theorem Inv.send (inv : Inv caller keys w) {current : Option String} (phase : PhaseInv caller keys w (.ready current)) :
    Inv caller keys { w with requests := w.requests ++ [⟨clientKey caller current,w.left⟩],phase := .sent current } where
  pool := inv.pool
  once := inv.once
  subset := inv.subset
  left_used := inv.left_used
  accepts := inv.accepts
  phase := by
    refine ⟨?_,phase.2⟩
    rw [List.length_append,List.length_singleton]
    exact phase.1
  never_back r member := by
    rcases List.mem_append.mp member with old | new
    · exact inv.never_back r old
    · rw [List.mem_singleton.mp new]
      exact phase.2.fresh inv.accepts

theorem keeps_failure (p : APIKeyPool) (current : Option String) (category : Category) (retryAfter : Option ℚ) (jitter : ℚ) :
    (p.reportFailure now current category retryAfter jitter).states.map KeyState.key = p.states.map KeyState.key :=
  (APIKeyPool.keeps_step ⟨now,.reportFailure current category retryAfter jitter⟩).keys

theorem keeps_success (p : APIKeyPool) (current : Option String) :
    (p.reportSuccess current).states.map KeyState.key = p.states.map KeyState.key :=
  (APIKeyPool.keeps_step ⟨0,.reportSuccess current⟩).keys

theorem Inv.answered (inv : Inv caller keys w) {current : Option String} (phase : PhaseInv caller keys w (.sent current))
    (outcome : Outcome) : Inv caller keys (w.answered caller current now outcome) := by
  obtain ⟨sent_,held⟩ := phase
  unfold spent at sent_
  cases outcome with
  | success =>
    exact { inv with pool := (keeps_success w.pool current).trans inv.pool,phase := sent_ }
  | timeout =>
    unfold World.answered
    dsimp only
    split
    · refine { inv with phase := ⟨?_,held⟩ }
      change w.requests.length + 1 ≤ max 1 w.usedKeys.length + min (w.timeoutAttempts + 1) caller.timeoutRetries
      omega
    · refine { inv with pool := (keeps_failure w.pool current .other none 0).trans inv.pool,phase := ⟨?_,held⟩ }
      change w.requests.length ≤ max 1 w.usedKeys.length + min (w.timeoutAttempts + 1) caller.timeoutRetries
      omega
  | error category retryAfter jitter =>
    exact { inv with pool := (keeps_failure w.pool current category retryAfter jitter).trans inv.pool,phase := ⟨sent_,held⟩ }

theorem Inv.failover (inv : Inv caller keys w) {current : Option String} {retryable : Bool}
    (phase : PhaseInv caller keys w (.failed current retryable)) (accepted : caller.builderAcceptsApiKey = true)
    (alternative : w.pool.hasAlternative w.usedKeys now = true) :
    Inv caller keys { w with left := w.left ++ [clientKey caller current],phase := .selecting } := by
  obtain ⟨_,returned,fresh⟩ := (hasAlternative_iff _ _ _).mp alternative
  obtain ⟨s,⟨there,_⟩,rfl,_⟩ := APIKeyPool.acquire_some (Prod.ext returned rfl)
  have inside : s.key ∈ keys := inv.pool ▸ List.mem_map_of_mem there
  have some_key : keys ≠ [] := List.ne_nil_of_mem inside
  obtain ⟨failed_,held⟩ := phase
  obtain ⟨key,used,rfl,_⟩ := held.1 some_key
  have same : clientKey caller (some key) = some key := by simp [clientKey,accepted]
  have positive := List.length_pos_of_mem used
  exact { inv with
    left_used := fun k member => by
      rcases List.mem_append.mp member with old | new
      · exact inv.left_used k old
      · exact ⟨key,used,(List.mem_singleton.mp new).trans same⟩
    accepts := fun refused => absurd (accepted.symm.trans refused) (by decide)
    phase := by
      refine ⟨?_,fun _ => ⟨s.key,inside,fresh⟩,fun none_ => absurd none_ some_key⟩
      change w.requests.length ≤ w.usedKeys.length + spent caller w
      omega }

theorem Inv.next (inv : Inv caller keys w) (granted : Granted w e) (stepped : next caller w e = some w') : Inv caller keys w' := by
  have phase := inv.phase
  cases e with
  | other call =>
    obtain rfl : { w with pool := w.pool.step call } = w' := by
      unfold Failover.next at stepped
      cases at_ : w.phase <;> rw [at_] at stepped <;> exact Option.some.inj stepped
    exact inv.other call
  | acquire now =>
    cases at_ : w.phase with
    | selecting =>
      simp only [Failover.next,at_,Option.some.injEq] at stepped
      rw [at_] at phase
      exact stepped ▸ inv.select phase true (fun h => absurd h (by decide))
    | waited =>
      simp only [Failover.next,at_,Option.some.injEq] at stepped
      rw [at_] at phase
      exact stepped ▸ inv.select phase false (fun _ => granted at_)
    | ready | sent | failed | ended => simp [Failover.next,at_] at stepped
  | send =>
    cases at_ : w.phase with
    | ready current =>
      simp only [Failover.next,at_,Option.some.injEq] at stepped
      rw [at_] at phase
      exact stepped ▸ inv.send phase
    | selecting | waited | sent | failed | ended => simp [Failover.next,at_] at stepped
  | answer now outcome =>
    cases at_ : w.phase with
    | sent current =>
      simp only [Failover.next,at_,Option.some.injEq] at stepped
      rw [at_] at phase
      exact stepped ▸ inv.answered phase outcome
    | selecting | waited | ready | failed | ended => simp [Failover.next,at_] at stepped
  | decide now =>
    cases at_ : w.phase with
    | failed current retryable =>
      simp only [Failover.next,at_] at stepped
      rw [at_] at phase
      split at stepped
      · rename_i goes
        rw [Bool.and_eq_true,Bool.and_eq_true] at goes
        exact Option.some.inj stepped ▸ inv.failover phase goes.1.1 goes.2
      · exact Option.some.inj stepped ▸ { inv with phase := phase.1 }
    | selecting | waited | ready | sent | ended => simp [Failover.next,at_] at stepped

theorem Inv.initial (caller : Caller) (pool : APIKeyPool) : Inv caller pool.keys { pool := pool } where
  pool := rfl
  once := List.nodup_nil
  subset _ member := absurd member List.not_mem_nil
  left_used _ member := absurd member List.not_mem_nil
  accepts _ := rfl
  phase := by
    refine ⟨Nat.zero_le _,fun some_key => ?_,fun _ => rfl⟩
    obtain ⟨key,inside⟩ := List.exists_mem_of_ne_nil _ some_key
    exact ⟨key,inside,List.not_mem_nil⟩
  never_back _ member := absurd member List.not_mem_nil

/-- Whatever other threads do with the pool, and whatever the answers are. -/
theorem run_bounded (caller : Caller) (pool : APIKeyPool) (es : List Event) (w : World)
    (run : Run (Guarded Granted (fun w e w' => next caller w e = some w')) { pool := pool } es w) : Bounded caller pool.keys w :=
  (run.invariant (Inv caller pool.keys) (fun _ _ _ inv step => inv.next step.1 step.2) (Inv.initial caller pool)).bounded

def callerOfTwo : Caller := {apiKey := some "a",builderAcceptsApiKey := true,timeoutRetries := 0}

def poolOfTwo : APIKeyPool := .new ["a","b"] 30 2

/-- The first key meets a rate limit, the second one answers. -/
def failover : List Event := [.acquire 0,.send,.answer 1 (.error .rateLimit none 0),.decide 2,.acquire 3,.send,.answer 4 .success]

def after (es : List Event) : World := (es.foldlM (next callerOfTwo) { pool := poolOfTwo }).getD { pool := poolOfTwo }

theorem run_bounded_failover : (after failover).phase = .ended ∧ Bounded callerOfTwo poolOfTwo.keys (after failover) :=
  ⟨by decide +kernel,run_bounded callerOfTwo poolOfTwo failover (after failover) (.of_guarded (by decide +kernel))⟩

/-- Another thread puts the second key on cooldown after it was found to be an alternative, and again before the wait for it ends. -/
def raced : List Event :=
  [.acquire 0,.send,.answer 1 (.error .rateLimit none 0),.decide 2,.other ⟨3,.reportFailure (some "b") .rateLimit (some 10) 0⟩,.acquire 4,
    .other ⟨12,.reportFailure (some "b") .rateLimit (some 10) 0⟩,.acquire 13,.send,.answer 14 (.error .connectionError none 0),
    .decide 22,.acquire 23,.send]

theorem default_key_again : ¬∀ (caller : Caller) (pool : APIKeyPool) (es : List Event) (w : World),
    Run (fun w e w' => next caller w e = some w') { pool := pool } es w → Bounded caller pool.keys w := by
  intro bounded
  have passes : (raced.foldlM (next callerOfTwo) { pool := poolOfTwo }).isSome := by decide +kernel
  have ends := bounded callerOfTwo poolOfTwo raced (after raced) (.of_isSome passes)
  have sent : (after raced).requests.map Request.key = [some "a",some "a",some "b"] := by decide +kernel
  have size : (after raced).requests.length = 3 := by rw [← List.length_map Request.key,sent]; rfl
  have limit := ends.1
  rw [size] at limit
  exact absurd limit (by decide)

end Suixinji.Coordination.Failover
