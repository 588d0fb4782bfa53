import Mathlib.Logic.Function.Basic
import Suixinji.Relational.Permits
import Suixinji.Relational.Transition

/-! The executor under concurrent calls (runtime/executor.py): a submission and the task it hands over are one thread of steps, each of
them under one lock at most. -/
namespace Suixinji.Local.Capacity
open Suixinji.Permits Suixinji.Transition

/-- The two thread pools. -/
inductive Lane where
  | tasks
  | enrichment
  deriving DecidableEq

/-- A pool without workers cannot be made. -/
structure Settings where
  maxWorkers : Lane → Nat
  queueSize : Lane → Nat
  positive : ∀ lane, 0 < maxWorkers lane

def Settings.capacity (g : Settings) (lane : Lane) : Nat := g.maxWorkers lane + g.queueSize lane

inductive Kind where
  | ingest (spaceId messageId : String)
  | query
  | summary
  | enrichment (spaceId noteId : String)
  deriving DecidableEq

def Kind.lane : Kind → Lane
  | .enrichment _ _ => .enrichment
  | _ => .tasks

def Kind.key : Kind → Option (String × String)
  | .ingest spaceId messageId => if messageId = "" then none else some (spaceId,messageId)
  | .enrichment spaceId noteId => some (spaceId,noteId)
  | _ => none

inductive TaskStatus where
  | queued
  | running
  | success
  | failed
  | rejected
  deriving DecidableEq

/-- Where a thread is: before the shutdown check, the slot, the registry, the pool; before a rejected ingest gives its key back; in the
queue of the pool, in the runner, in the two releases behind it. -/
inductive Phase where
  | checking
  | admitted
  | holding
  | added
  | rejected
  | refused
  | raised
  | queued
  | lost
  | running
  | finishing
  | releasing
  | finished
  deriving DecidableEq

def Phase.hasSlot : Phase → Bool
  | .holding | .added | .queued | .running | .finishing | .releasing => true
  | _ => false

/-- The key of an enrichment is taken with its slot, that of an ingest before everything else. -/
def Phase.hasKey (lane : Lane) : Phase → Bool
  | .checking | .admitted | .holding | .rejected => lane = .tasks
  | .added | .queued | .running | .finishing => true
  | _ => false

/-- On a worker. -/
def Phase.busy : Phase → Bool
  | .running | .finishing | .releasing => true
  | _ => false

def Phase.begun : Phase → Bool
  | .running | .finishing | .releasing | .finished => true
  | _ => false

structure Call where
  kind : Kind
  phase : Phase
  /-- Its status in the registry. -/
  entry : Option TaskStatus := none
  /-- How often the runner has been called. -/
  runs : Nat := 0
  deriving DecidableEq

def Call.lane (c : Call) : Lane := c.kind.lane

/-- `_reject`; an enrichment has no entry. -/
def Call.reject (c : Call) : Call :=
  if c.lane = .tasks then { c with phase := .rejected,entry := some .rejected } else { c with phase := .refused }

/-- A pool with its semaphore and its keys in flight. -/
structure Pool where
  slots : Nat
  inflight : List (String × String) := []
  isShutdown : Bool := false
  deriving DecidableEq

def Pool.reserve (pool : Pool) : Option (String × String) → Pool
  | none => pool
  | some key => { pool with inflight := key::pool.inflight }

def Pool.discard (pool : Pool) : Option (String × String) → Pool
  | none => pool
  | some key => { pool with inflight := pool.inflight.filter (· ≠ key) }

def Pool.has (pool : Pool) : Option (String × String) → Bool
  | none => false
  | some key => pool.inflight.contains key

/-- `acquire(blocking=False)` where a slot is free. -/
def Pool.acquire (pool : Pool) : Pool := { pool with slots := pool.slots - 1 }

/-- A bounded semaphore does not go above its first value. -/
def Pool.release (pool : Pool) (capacity : Nat) : Pool := { pool with slots := min (pool.slots + 1) capacity }

structure State where
  isShutdown : Bool := false
  pool : Lane → Pool
  calls : List Call := []

def start (g : Settings) : State := { pool := fun lane => {slots := g.capacity lane} }

inductive Action where
  | submit (kind : Kind)
  /-- The next step of a thread; a runner returns, or it raises. -/
  | go (i : Nat) (raises : Bool)
  /-- The registry forgets a task that is not queued and not running. -/
  | prune (i : Nat)
  | shutdown
  /-- `shutdown` of a pool; that of the second follows the wait for the first. -/
  | close (lane : Lane)
  deriving DecidableEq

/-- The call and the pool before its first check: an ingest has reserved its key, or it is rejected. -/
def submit (pool : Pool) : Kind → Pool × Call
  | .ingest spaceId messageId =>
    let kind := Kind.ingest spaceId messageId
    if pool.has kind.key then (pool,{kind,phase := .refused,entry := some .rejected}) else (pool.reserve kind.key,{kind,phase := .checking})
  | .enrichment spaceId noteId => (pool,{kind := .enrichment spaceId noteId,phase := if spaceId = "" ∨ noteId = "" then .refused else .checking})
  | kind => (pool,{kind,phase := .checking})

/-- The step of a thread, with the workers of its pool that are busy. -/
def Call.go (g : Settings) (isShutdown : Bool) (busy : Nat) (raises : Bool) (pool : Pool) (c : Call) : Option (Pool × Call) :=
  match c.phase with
  | .checking => some (pool,if isShutdown then c.reject else { c with phase := .admitted })
  | .admitted =>
    match c.lane with
    | .tasks => if pool.slots = 0 then some (pool,c.reject) else some (pool.acquire,{ c with phase := .holding })
    | .enrichment =>
      if pool.has c.kind.key ∨ pool.slots = 0 then some (pool,c.reject)
      else some (pool.acquire.reserve c.kind.key,{ c with phase := .added })
  | .holding => some (pool,{ c with phase := .added,entry := some .queued })
  | .added => some (pool,{ c with phase := if pool.isShutdown then .raised else .queued })
  | .rejected => some (pool.discard c.kind.key,{ c with phase := .refused })
  | .queued =>
    if busy < g.maxWorkers c.lane then
      match c.lane,c.entry with
      -- `mark_running` raises on an unknown task, outside of the try
      | .tasks,none => some (pool,{ c with phase := .lost })
      | .tasks,some _ => some (pool,{ c with phase := .running,entry := some .running,runs := c.runs + 1 })
      | .enrichment,_ => some (pool,{ c with phase := .running,runs := c.runs + 1 })
    else none
  | .running => some (pool,{ c with phase := .finishing,entry := c.entry.map (fun _ => if raises then .failed else .success) })
  | .finishing => some (pool.discard c.kind.key,{ c with phase := .releasing })
  | .releasing => some (pool.release (g.capacity c.lane),{ c with phase := .finished })
  | .refused | .raised | .lost | .finished => none

def State.busy (s : State) (lane : Lane) : Nat := s.calls.countP (fun c => c.lane = lane ∧ c.phase.busy)

def next (g : Settings) (s : State) : Action → Option State
  | .submit kind =>
    let (pool,c) := submit (s.pool kind.lane) kind
    some { s with pool := Function.update s.pool kind.lane pool,calls := s.calls ++ [c] }
  | .go i raises => do
    let c ← s.calls[i]?
    let (pool,c') ← c.go g s.isShutdown (s.busy c.lane) raises (s.pool c.lane)
    some { s with pool := Function.update s.pool c.lane pool,calls := s.calls.set i c' }
  | .prune i => do
    let c ← s.calls[i]?
    match c.entry with
    | some .success | some .failed | some .rejected => some { s with calls := s.calls.set i { c with entry := none } }
    | _ => none
  | .shutdown => some { s with isShutdown := true }
  | .close .tasks =>
    if s.isShutdown then some { s with pool := Function.update s.pool .tasks { s.pool .tasks with isShutdown := true } } else none
  | .close .enrichment =>
    if (s.pool .tasks).isShutdown ∧ ∀ c ∈ s.calls, c.lane = .tasks → c.phase ≠ .queued ∧ ¬c.phase.busy then
      some { s with pool := Function.update s.pool .enrichment { s.pool .enrichment with isShutdown := true } }
    else none

/-- The pool is open to a submission that gets to it. -/
def InTime (s : State) : Action → Prop
  | .go i _ => ∀ c ∈ s.calls[i]?, c.phase = .added → (s.pool c.lane).isShutdown = false
  | _ => True

instance (s : State) (a : Action) : Decidable (InTime s a) := by
  cases a
  case go i raises => exact inferInstanceAs (Decidable (∀ c ∈ s.calls[i]?, c.phase = .added → (s.pool c.lane).isShutdown = false))
  all_goals exact .isTrue trivial

/-! ### What a call holds -/

inductive Resource where
  | slot (lane : Lane)
  | key (lane : Lane) (key : String × String)

def Call.hasKey (c : Call) (key : String × String) : Bool := decide (c.kind.key = some key) && c.phase.hasKey c.lane

def Call.holds (c : Call) : Resource → Bool
  | .slot lane => decide (c.lane = lane) && c.phase.hasSlot
  | .key lane key => decide (c.lane = lane) && c.hasKey key

def Pool.freeKey (pool : Pool) (key : String × String) : Nat := if key ∈ pool.inflight then 0 else 1

def free (pool : Lane → Pool) : Resource → Nat
  | .slot lane => (pool lane).slots
  | .key lane key => (pool lane).freeKey key

def Settings.permits (g : Settings) : Resource → Nat
  | .slot lane => g.capacity lane
  | .key _ _ => 1

/-- The runner has been called once or not at all, and the registry knows a task that waits. -/
structure Call.Sound (c : Call) : Prop where
  runs : c.runs = c.phase.begun.toNat
  entry : c.lane = .tasks → c.phase = .added ∨ c.phase = .queued → c.entry = some .queued
  lasting : c.phase ≠ .lost ∧ c.phase ≠ .raised
  own : c.phase = .holding ∨ c.phase = .rejected → c.lane = .tasks

structure Kept (g : Settings) (s : State) : Prop where
  balanced : Balanced Call.holds g.permits (free s.pool) s.calls
  sound : ∀ c ∈ s.calls, c.Sound

section Steps

variable {g : Settings} {s t : State} {pool pool' : Pool} {c c' : Call} {down raises : Bool} {busy i : Nat}
  {key : Option (String × String)} {k : String × String}

theorem reserve_slots : (pool.reserve key).slots = pool.slots := by cases key <;> rfl

theorem discard_slots : (pool.discard key).slots = pool.slots := by cases key <;> rfl

theorem reserve_freeKey (absent : pool.has key = false) :
    (pool.reserve key).freeKey k + (decide (key = some k)).toNat = pool.freeKey k := by
  cases key with
  | none => simp [Pool.reserve]
  | some key =>
    have outside : key ∉ pool.inflight := by simpa [Pool.has] using absent
    by_cases same : key = k
    · subst same
      simp [Pool.reserve,Pool.freeKey,outside]
    · simp [Pool.reserve,Pool.freeKey,same,Ne.symm same]

theorem discard_freeKey (room : pool.freeKey k + (decide (key = some k)).toNat ≤ 1) :
    (pool.discard key).freeKey k = pool.freeKey k + (decide (key = some k)).toNat := by
  cases key with
  | none => simp [Pool.discard]
  | some key =>
    by_cases same : key = k
    · subst same
      simp only [decide_true,Bool.toNat_true] at room ⊢
      have taken : pool.freeKey key = 0 := by omega
      rw [taken]
      simp [Pool.discard,Pool.freeKey]
    · simp [Pool.discard,Pool.freeKey,same,Ne.symm same]

@[simp] theorem reject_kind : c.reject.kind = c.kind := by
  unfold Call.reject
  split <;> rfl

@[simp] theorem reject_runs : c.reject.runs = c.runs := by
  unfold Call.reject
  split <;> rfl

theorem reject_phase : (c.lane = .tasks ∧ c.reject.phase = .rejected) ∨ (c.lane ≠ .tasks ∧ c.reject.phase = .refused) := by
  unfold Call.reject
  split
  · exact .inl ⟨‹_›,rfl⟩
  · exact .inr ⟨‹_›,rfl⟩

/-- All that a step of a thread can do. -/
inductive Goes (g : Settings) (pool : Pool) (c : Call) : Pool → Call → Prop
  | reject (before : c.phase = .checking ∨ c.phase = .admitted) : Goes g pool c pool c.reject
  | allow (before : c.phase = .checking) : Goes g pool c pool { c with phase := .admitted }
  | acquire (before : c.phase = .admitted) (lane : c.lane = .tasks) (room : pool.slots ≠ 0) :
      Goes g pool c pool.acquire { c with phase := .holding }
  | acquireKey (before : c.phase = .admitted) (lane : c.lane = .enrichment) (absent : pool.has c.kind.key = false) (room : pool.slots ≠ 0) :
      Goes g pool c (pool.acquire.reserve c.kind.key) { c with phase := .added }
  | add (before : c.phase = .holding) : Goes g pool c pool { c with phase := .added,entry := some .queued }
  | enqueue (before : c.phase = .added) (unclosed : pool.isShutdown = false) : Goes g pool c pool { c with phase := .queued }
  | raise (before : c.phase = .added) (closed : pool.isShutdown) : Goes g pool c pool { c with phase := .raised }
  | giveBack (before : c.phase = .rejected) : Goes g pool c (pool.discard c.kind.key) { c with phase := .refused }
  | lose (before : c.phase = .queued) (lane : c.lane = .tasks) (unknown : c.entry = none) : Goes g pool c pool { c with phase := .lost }
  | begin (entry : Option TaskStatus) (before : c.phase = .queued) :
      Goes g pool c pool { c with phase := .running,entry,runs := c.runs + 1 }
  | leave (entry : Option TaskStatus) (before : c.phase = .running) : Goes g pool c pool { c with phase := .finishing,entry }
  | discard (before : c.phase = .finishing) : Goes g pool c (pool.discard c.kind.key) { c with phase := .releasing }
  | release (before : c.phase = .releasing) : Goes g pool c (pool.release (g.capacity c.lane)) { c with phase := .finished }

theorem goes_of_go (moved : c.go g down busy raises pool = some (pool',c')) : Goes g pool c pool' c' := by
  unfold Call.go at moved
  split at moved
  all_goals rename_i phase
  case h_1 =>
    cases moved
    split
    · exact .reject (.inl phase)
    · exact .allow phase
  case h_2 =>
    split at moved
    all_goals
      rename_i lane
      split at moved
      all_goals cases moved
    · exact .reject (.inr phase)
    · exact .acquire phase lane ‹_›
    · exact .reject (.inr phase)
    · rename_i free
      exact .acquireKey phase lane (by simpa using (not_or.mp free).1) (not_or.mp free).2
  case h_4 =>
    cases moved
    split
    · exact .raise phase ‹_›
    · exact .enqueue phase (by simpa using ‹¬pool.isShutdown = true›)
  case h_6 =>
    split at moved
    · split at moved
      all_goals cases moved
      · exact .lose phase ‹_› ‹_›
      · exact .begin _ phase
      · exact .begin _ phase
    · cases moved
  all_goals cases moved
  · exact .add phase
  · exact .giveBack phase
  · exact .leave _ phase
  · exact .discard phase
  · exact .release phase

theorem Goes.kind (goes : Goes g pool c pool' c') : c'.kind = c.kind := by
  cases goes
  case reject => exact reject_kind
  all_goals rfl

/-- A submission that gets to an open pool and a task the registry knows go on. -/
theorem Goes.sound (goes : Goes g pool c pool' c') (sound : c.Sound) (intime : c.phase = .added → pool.isShutdown = false) : c'.Sound := by
  obtain ⟨runs,entry,_,_⟩ := sound
  cases goes with
  | reject before =>
    have begun : c.reject.phase.begun = c.phase.begun := by
      rcases reject_phase (c := c) with ⟨_,after⟩ | ⟨_,after⟩ <;> rcases before with before | before <;> rw [after,before] <;> rfl
    refine ⟨by rw [reject_runs,runs,begun],?_,?_,?_⟩
    all_goals rcases reject_phase (c := c) with ⟨lane,after⟩ | ⟨_,after⟩ <;> simp [after,Call.lane]
    exact lane
  | raise before closed => exact absurd closed (by simp [intime before])
  | lose before lane unknown => exact absurd (entry lane (.inr before)) (by simp [unknown])
  | enqueue before unclosed => exact ⟨by simpa [before,Phase.begun] using runs,fun lane _ => entry lane (.inl before),by simp,by simp⟩
  | acquire before lane room => exact ⟨by simpa [before,Phase.begun] using runs,by simp,by simp,fun _ => lane⟩
  | acquireKey before lane absent room =>
    exact ⟨by simpa [before,Phase.begun] using runs,fun tasks => absurd (lane.symm.trans tasks) (by decide),by simp,by simp⟩
  | add before => exact ⟨by simpa [before,Phase.begun] using runs,fun _ _ => rfl,by simp,by simp⟩
  | allow before | begin _ before | leave _ before | giveBack before | discard before | release before =>
    exact ⟨by simpa [before,Phase.begun] using runs,by simp,by simp,by simp⟩

/-- A slot is taken where one is free, and given back once. -/
theorem Goes.slots (goes : Goes g pool c pool' c') (sound : c'.Sound) (room : pool.slots + c.phase.hasSlot.toNat ≤ g.capacity c.lane) :
    pool'.slots + c'.phase.hasSlot.toNat = pool.slots + c.phase.hasSlot.toNat := by
  cases goes with
  | reject before =>
    rcases reject_phase (c := c) with ⟨_,after⟩ | ⟨_,after⟩ <;> rcases before with before | before <;> rw [after,before] <;> rfl
  | raise before closed => exact absurd rfl sound.lasting.2
  | lose before lane unknown => exact absurd rfl sound.lasting.1
  | acquire before lane free | acquireKey before lane absent free =>
    simp only [before,Phase.hasSlot,Pool.acquire,reserve_slots,Bool.toNat_true,Bool.toNat_false]
    omega
  | release before =>
    simp only [before,Phase.hasSlot,Pool.release,Bool.toNat_true,Bool.toNat_false] at room ⊢
    omega
  | giveBack before | discard before => simp only [before,Phase.hasSlot,discard_slots]
  | allow before | add before | enqueue before unclosed | begin _ before | leave _ before => simp only [before,Phase.hasSlot]

theorem acquire_freeKey : pool.acquire.freeKey k = pool.freeKey k := rfl

theorem release_freeKey {n : Nat} : (pool.release n).freeKey k = pool.freeKey k := rfl

theorem acquire_has : pool.acquire.has key = pool.has key := by cases key <;> rfl

theorem Goes.keys (goes : Goes g pool c pool' c') (before : c.Sound) (after : c'.Sound) (room : pool.freeKey k + (c.hasKey k).toNat ≤ 1) :
    pool'.freeKey k + (c'.hasKey k).toNat = pool.freeKey k + (c.hasKey k).toNat := by
  have discarded (held : c.phase.hasKey c.lane) : (pool.discard c.kind.key).freeKey k = pool.freeKey k + (c.hasKey k).toNat := by
    have same : c.hasKey k = decide (c.kind.key = some k) := by simp [Call.hasKey,held]
    rw [same] at room ⊢
    exact discard_freeKey room
  cases goes with
  | reject phase =>
    rcases reject_phase (c := c) with ⟨lane,last⟩ | ⟨lane,last⟩ <;> rcases phase with phase | phase <;>
      simp_all [Call.hasKey,Phase.hasKey,Call.lane]
  | raise phase closed => exact absurd rfl after.lasting.2
  | lose phase lane unknown => exact absurd rfl after.lasting.1
  | acquireKey phase lane absent free =>
    have reserved : (pool.acquire.reserve c.kind.key).freeKey k + (decide (c.kind.key = some k)).toNat = pool.acquire.freeKey k :=
      reserve_freeKey (by rwa [acquire_has])
    have unheld : c.phase.hasKey c.lane = false := by rw [phase,lane]; rfl
    rw [Call.hasKey,Call.hasKey,unheld,Bool.and_false,Bool.toNat_false]
    simpa [Phase.hasKey,acquire_freeKey] using reserved
  | giveBack phase =>
    rw [discarded (by simp [phase,Phase.hasKey,before.own (.inr phase)])]
    simp [Call.hasKey,Phase.hasKey]
  | discard phase =>
    rw [discarded (by simp [phase,Phase.hasKey])]
    simp [Call.hasKey,Phase.hasKey]
  | add phase =>
    have lane := before.own (.inl phase)
    simp_all [Call.hasKey,Phase.hasKey,Call.lane]
  | release phase => simp [Call.hasKey,Phase.hasKey,phase,release_freeKey]
  | allow phase | acquire phase lane free | enqueue phase unclosed | begin _ phase | leave _ phase =>
    simp only [Call.hasKey,phase]
    rfl

theorem Goes.late (goes : Goes g pool c pool' c') (added : c.phase = .added) (closed : pool.isShutdown) :
    pool' = pool ∧ c' = { c with phase := .raised } := by
  cases goes with
  | raise => exact ⟨rfl,rfl⟩
  | enqueue before unclosed => exact absurd closed (by simp [unclosed])
  | reject before => rcases before with before | before <;> rw [added] at before <;> cases before
  | allow before | acquire before lane room | acquireKey before lane absent room | add before | giveBack before | lose before lane unknown
  | begin _ before | leave _ before | discard before | release before =>
    rw [added] at before
    cases before

theorem Goes.moved {pools : Lane → Pool} (goes : Goes g (pools c.lane) c pool' c') (before : c.Sound) (after : c'.Sound)
    (room : ∀ r, free pools r + (c.holds r).toNat ≤ g.permits r) (r : Resource) :
    free (Function.update pools c.lane pool') r + (c'.holds r).toNat = free pools r + (c.holds r).toNat := by
  have lane : c'.lane = c.lane := congrArg Kind.lane goes.kind
  cases r with
  | slot other =>
    have here := room (.slot other)
    by_cases same : c.lane = other
    · subst same
      simp only [free,Call.holds,lane,decide_true,Bool.true_and,Function.update_self] at here ⊢
      exact goes.slots after here
    · simp [free,Call.holds,lane,same,Function.update_of_ne (Ne.symm same)]
  | key other k =>
    have here := room (.key other k)
    by_cases same : c.lane = other
    · subst same
      simp only [free,Call.holds,lane,decide_true,Bool.true_and,Function.update_self] at here ⊢
      exact goes.keys before after here
    · simp [free,Call.holds,lane,same,Function.update_of_ne (Ne.symm same)]

theorem submit_cases (pool : Pool) (kind : Kind) : ∃ entry,
    (submit pool kind = (pool,{kind,phase := .refused,entry})) ∨
    (submit pool kind = (pool.reserve kind.key,{kind,phase := .checking,entry}) ∧ kind.lane = .tasks ∧ pool.has kind.key = false) ∨
    (submit pool kind = (pool,{kind,phase := .checking,entry}) ∧ kind.lane = .enrichment) := by
  cases kind with
  | ingest spaceId messageId =>
    by_cases there : pool.has (Kind.ingest spaceId messageId).key
    · exact ⟨some .rejected,.inl (if_pos there)⟩
    · exact ⟨none,.inr (.inl ⟨if_neg there,rfl,by simpa using there⟩)⟩
  | query | summary => exact ⟨none,.inr (.inl ⟨rfl,rfl,rfl⟩)⟩
  | enrichment spaceId noteId =>
    by_cases empty : spaceId = "" ∨ noteId = ""
    · exact ⟨none,.inl (by rw [submit,if_pos empty])⟩
    · exact ⟨none,.inr (.inr ⟨by rw [submit,if_neg empty],rfl⟩)⟩

theorem submit_moved (pools : Lane → Pool) (kind : Kind) :
    (submit (pools kind.lane) kind).2.Sound ∧
      ∀ r, free (Function.update pools kind.lane (submit (pools kind.lane) kind).1) r + ((submit (pools kind.lane) kind).2.holds r).toNat =
        free pools r := by
  obtain ⟨entry,refused | ⟨reserved,lane,absent⟩ | ⟨passed,lane⟩⟩ := submit_cases (pools kind.lane) kind
  · rw [refused]
    refine ⟨⟨rfl,by simp,by simp,by simp⟩,fun r => ?_⟩
    cases r <;> simp [Call.holds,Call.hasKey,Phase.hasKey,Phase.hasSlot]
  · rw [reserved]
    refine ⟨⟨rfl,by simp,by simp,by simp⟩,fun r => ?_⟩
    cases r with
    | slot other =>
      by_cases same : kind.lane = other
      · subst same
        simp [free,Call.holds,Phase.hasSlot,reserve_slots]
      · simp [free,Call.holds,Phase.hasSlot,Function.update_of_ne (Ne.symm same)]
    | key other k =>
      by_cases same : kind.lane = other
      · subst same
        have taken := reserve_freeKey (k := k) absent
        simpa [free,Call.holds,Call.hasKey,Phase.hasKey,Call.lane,lane] using taken
      · simp [free,Call.holds,Call.lane,same,Function.update_of_ne (Ne.symm same)]
  · rw [passed]
    refine ⟨⟨rfl,by simp,by simp,by simp⟩,fun r => ?_⟩
    cases r <;> simp [Call.holds,Call.hasKey,Phase.hasKey,Phase.hasSlot,Call.lane,lane]

theorem go_some (step : next g s (.go i raises) = some t) : ∃ c pool c', s.calls[i]? = some c ∧ Goes g (s.pool c.lane) c pool c' ∧
    t = { s with pool := Function.update s.pool c.lane pool,calls := s.calls.set i c' } := by
  obtain ⟨c,there,step⟩ := Option.bind_eq_some_iff.mp step
  obtain ⟨⟨pool,c'⟩,moved,step⟩ := Option.bind_eq_some_iff.mp step
  exact ⟨c,pool,c',there,goes_of_go moved,(Option.some.inj step).symm⟩

theorem sound_set {calls : List Call} (sound : ∀ c ∈ calls, c.Sound) (after : c'.Sound) : ∀ c ∈ calls.set i c', c.Sound := by
  intro other member
  rcases List.mem_or_eq_of_mem_set member with member | rfl
  · exact sound other member
  · exact after

theorem Kept.pruned (kept : Kept g s) (step : next g s (.prune i) = some t) : Kept g t := by
  obtain ⟨c,there,step⟩ := Option.bind_eq_some_iff.mp step
  have member := List.mem_of_getElem? there
  have known := (kept.sound c member).entry
  have forgotten (last : c.entry ≠ some .queued) : Kept g { s with calls := s.calls.set i { c with entry := none } } := by
    refine ⟨kept.balanced.set there (fun r => by cases r <;> rfl),sound_set kept.sound ?_⟩
    obtain ⟨runs,_,lasting,own⟩ := kept.sound c member
    exact ⟨runs,fun lane waits => absurd (known lane waits) last,lasting,own⟩
  split at step
  case h_4 => cases step
  all_goals
    rename_i last
    cases step
    exact forgotten (by rw [last]; simp)

theorem Kept.step {a : Action} (kept : Kept g s) (intime : InTime s a) (step : next g s a = some t) : Kept g t := by
  cases a with
  | submit kind =>
    cases step
    obtain ⟨sound,taken⟩ := submit_moved s.pool kind
    refine ⟨kept.balanced.push taken,fun c member => ?_⟩
    rcases List.mem_append.mp member with member | member
    · exact kept.sound c member
    · cases List.mem_singleton.mp member
      exact sound
  | go i raises =>
    obtain ⟨c,pool,c',there,goes,rfl⟩ := go_some step
    have member := List.mem_of_getElem? there
    have before := kept.sound c member
    have after := goes.sound before (intime c there)
    exact ⟨kept.balanced.set there (goes.moved before after (fun r => kept.balanced.room member r)),sound_set kept.sound after⟩
  | prune i => exact kept.pruned step
  | shutdown =>
    cases step
    exact ⟨kept.balanced,kept.sound⟩
  | close lane =>
    have same : free t.pool = free s.pool ∧ t.calls = s.calls := by
      cases lane <;>
      · obtain ⟨_,step⟩ := Option.ite_none_right_eq_some.mp step
        cases step
        refine ⟨funext (fun r => ?_),rfl⟩
        cases r with
        | slot lane => cases lane <;> rfl
        | key lane k => cases lane <;> rfl
    exact ⟨by rw [same.1,same.2]; exact kept.balanced,by rw [same.2]; exact kept.sound⟩

theorem kept_start (g : Settings) : Kept g (start g) :=
  ⟨by
    have first : free (start g).pool = g.permits := by
      funext r
      cases r <;> rfl
    rw [first]
    exact Balanced.nil,by simp [start]⟩

theorem go_none (stuck : c.go g down busy raises pool = none) :
    (c.phase = .queued ∧ g.maxWorkers c.lane ≤ busy) ∨ c.phase = .refused ∨ c.phase = .raised ∨ c.phase = .lost ∨ c.phase = .finished := by
  unfold Call.go at stuck
  cases phase : c.phase
  case admitted => cases lane : c.lane <;> simp [phase,lane] at stuck <;> split at stuck <;> simp at stuck
  case queued =>
    by_cases room : busy < g.maxWorkers c.lane
    · simp only [phase,room,if_true] at stuck
      split at stuck <;> simp at stuck
    · exact .inl ⟨rfl,Nat.le_of_not_lt room⟩
  all_goals simp_all

end Steps

/-- What holds of an executor at every moment. -/
structure Conserved (g : Settings) (s : State) : Prop where
  slots : ∀ lane, (s.pool lane).slots + s.calls.countP (fun c => c.holds (.slot lane)) = g.capacity lane
  inflight : ∀ lane key, key ∈ (s.pool lane).inflight ↔ ∃ c ∈ s.calls, c.holds (.key lane key)
  single : ∀ lane key, s.calls.countP (fun c => c.holds (.key lane key)) ≤ 1
  /-- A runner is not called twice. -/
  runs : ∀ c ∈ s.calls, c.runs = c.phase.begun.toNat
  /-- When no thread can go on, every task has been run, or was rejected, or its submission raised. -/
  served : (∀ i raises, next g s (.go i raises) = none) → ∀ c ∈ s.calls,
    (c.phase = .finished ∧ c.runs = 1) ∨ ((c.phase = .refused ∨ c.phase = .raised) ∧ c.runs = 0)

theorem Kept.conserved {g : Settings} {s : State} (kept : Kept g s) : Conserved g s := by
  refine ⟨fun lane => kept.balanced (.slot lane),?_,?_,fun c member => (kept.sound c member).runs,?_⟩
  · intro lane key
    rw [← kept.balanced.taken_iff (r := .key lane key) rfl]
    simp [free,Pool.freeKey]
  · intro lane key
    have total : free s.pool (.key lane key) + s.calls.countP (fun c => c.holds (.key lane key)) = 1 := kept.balanced (.key lane key)
    omega
  · intro quiet c member
    have stuck (c : Call) (member : c ∈ s.calls) : c.go g s.isShutdown (s.busy c.lane) false (s.pool c.lane) = none := by
      obtain ⟨i,there⟩ := List.getElem?_of_mem member
      have stopped := quiet i false
      rw [next,there] at stopped
      cases moved : c.go g s.isShutdown (s.busy c.lane) false (s.pool c.lane) with
      | none => rfl
      | some after => simp [moved] at stopped
    have runs := (kept.sound c member).runs
    rcases go_none (stuck c member) with ⟨_,full⟩ | refused | raised | lost | finished
    · -- all workers are busy, and a busy one goes on
      have some_busy : 0 < s.busy c.lane := Nat.lt_of_lt_of_le (g.positive c.lane) full
      obtain ⟨worker,there,occupied⟩ := List.countP_pos_iff.mp some_busy
      have occupied : worker.phase.busy := (of_decide_eq_true occupied).2
      rcases go_none (stuck worker there) with ⟨phase,_⟩ | phase | phase | phase | phase <;>
        rw [phase] at occupied <;> cases occupied
    · exact .inr ⟨.inl refused,by rw [runs,refused]; rfl⟩
    · exact .inr ⟨.inr raised,by rw [runs,raised]; rfl⟩
    · exact absurd lost (kept.sound c member).lasting.1
    · exact .inl ⟨finished,by rw [runs,finished]; rfl⟩

/-- A submission that comes to a closed pool takes its slot with it. -/
theorem not_conserved_of_late {g : Settings} {s t : State} {a : Action} (kept : Kept g s) (late : ¬InTime s a)
    (step : next g s a = some t) : ¬Conserved g t := by
  intro conserved
  cases a with
  | go i raises =>
    simp only [InTime,Classical.not_forall] at late
    obtain ⟨c,there,added,closed⟩ := late
    obtain ⟨_,pool,c',there',goes,rfl⟩ := go_some step
    obtain rfl := Option.some.inj (there.symm.trans there')
    have before := kept.balanced (.slot c.lane)
    have counted := countP_split c' (fun c' => c'.holds (.slot c.lane)) there
    have after := conserved.slots c.lane
    obtain ⟨rfl,rfl⟩ := goes.late added (by simpa using closed)
    simp [Call.holds,Call.lane,added,Phase.hasSlot,free,Settings.permits] at before counted after
    omega
  | submit | prune | shutdown | close => exact late trivial

/-- From the start on, while every submission that passed the check comes to an open pool, no permit is lost and every task is run; and
the first one that does not loses its slot. -/
theorem conserved_run (g : Settings) (s : State) (as : List Action)
    (run : Run (Guarded InTime (fun s a t => next g s a = some t)) (start g) as s) :
    Conserved g s ∧ ∀ a t, next g s a = some t → (Conserved g t ↔ InTime s a) := by
  have kept := run.invariant (Kept g) (fun _ _ _ kept step => kept.step step.1 step.2) (kept_start g)
  refine ⟨kept.conserved,fun a t step => ⟨fun conserved => ?_,fun intime => (kept.step intime step).conserved⟩⟩
  by_contra late
  exact not_conserved_of_late kept late step conserved

def oneWorker : Settings := ⟨fun _ => 1,fun _ => 0,fun _ => Nat.one_pos⟩

/-- An ingest from its call to the release of its slot, and a second call with its message. -/
theorem conserved_ingest :
    let s := ((Action.submit (.ingest "p" "m")::Action.submit (.ingest "p" "m")::List.replicate 8 (.go 0 false)).foldlM
      (next oneWorker) (start oneWorker)).getD (start oneWorker)
    Conserved oneWorker s ∧ ∀ a t, next oneWorker s a = some t → (Conserved oneWorker t ↔ InTime s a) :=
  conserved_run oneWorker _ _ (Run.of_guarded (by decide +kernel))

/-- An ingest that is past the check when the executor shuts down: nothing is running, and the slot and the key are gone. -/
theorem shutdown_between :
    let as := [Action.submit (.ingest "p" "m"),.go 0 false,.go 0 false,.go 0 false,.shutdown,.close .tasks,.go 0 false]
    let s := (as.foldlM (next oneWorker) (start oneWorker)).getD (start oneWorker)
    Run (fun s a t => next oneWorker s a = some t) (start oneWorker) as s ∧
      (s.pool .tasks).slots = 0 ∧ ("p","m") ∈ (s.pool .tasks).inflight ∧ (∀ c ∈ s.calls, c.phase = .raised) ∧ ¬Conserved oneWorker s := by
  intro as s
  have ended : (s.pool .tasks).slots = 0 ∧ ("p","m") ∈ (s.pool .tasks).inflight ∧ (∀ c ∈ s.calls, c.phase = .raised) ∧
      s.calls.countP (fun c => c.holds (.slot .tasks)) = 0 := by decide +kernel
  refine ⟨Run.of_isSome (by decide +kernel),ended.1,ended.2.1,ended.2.2.1,fun conserved => ?_⟩
  have total := conserved.slots .tasks
  rw [ended.1,ended.2.2.2] at total
  cases total

end Suixinji.Local.Capacity
