import Mathlib.Algebra.Order.Ring.Rat
import Mathlib.Data.Rat.Cast.Order
import Mathlib.Logic.Function.Basic

/-! The two idempotency stores of infrastructure/redis_idempotency.py on one clock.
A key written with `EX` is gone once its seconds have passed. -/
namespace Suixinji.Coordination

/-- A reading of the clock, in seconds. -/
abbrev Clock := ℚ

inductive Mark where
  | processing
  | completed
  | failed
  deriving DecidableEq

/-- What is stored for each key, with the time it expires. -/
abbrev Items := String → Option (Mark × Clock)

def live (now : Clock) (item : Option (Mark × Clock)) : Option Mark :=
  (item.filter (fun entry => now < entry.2)).map Prod.fst

/-- `max(1, int(ttl_seconds))`. -/
def ttlSeconds (ttl : ℤ) : ℤ := max 1 ttl

def failTtl (ttl : ℤ) : ℤ := min (ttlSeconds ttl) 60

/-- `SET key value EX seconds`, and the assignment to `_items` of the local store. -/
def Items.put (items : Items) (now : Clock) (key : String) (mark : Mark) (seconds : ℤ) : Items :=
  Function.update items key (some (mark,now + seconds))

inductive Call where
  | begin (key : String)
  | complete (key : String)
  | fail (key : String)
  | get (key : String)
  deriving DecidableEq

inductive Reply where
  | begun (ok : Bool)
  | nothing
  | status (mark : Option Mark)
  deriving DecidableEq

namespace IdempotencyStore

/-- `_BEGIN_LUA`. -/
def begin (ttl : ℤ) (items : Items) (now : Clock) (key : String) : Items × Bool :=
  let current := live now (items key)
  if current = none ∨ current = some .failed then (items.put now key .processing (ttlSeconds ttl),true)
  else (items,false)

def call (ttl : ℤ) (items : Items) (now : Clock) : Call → Items × Reply
  | .begin key => ((begin ttl items now key).1,.begun (begin ttl items now key).2)
  | .complete key => (items.put now key .completed (ttlSeconds ttl),.nothing)
  | .fail key => (items.put now key .failed (failTtl ttl),.nothing)
  | .get key => (items,.status (live now (items key)))

end IdempotencyStore

namespace LocalIdempotencyStore

def begin (ttl : ℤ) (items : Items) (now : Clock) (key : String) : Items × Bool :=
  match items key with
  | some (_,expires) =>
    if expires > now then (items,false) else (items.put now key .processing (ttlSeconds ttl),true)
  | none => (items.put now key .processing (ttlSeconds ttl),true)

/-- An expired item is popped. -/
def get (items : Items) (now : Clock) (key : String) : Items × Option Mark :=
  match items key with
  | some (mark,expires) => if expires ≤ now then (Function.update items key none,none) else (items,some mark)
  | none => (Function.update items key none,none)

def call (ttl : ℤ) (items : Items) (now : Clock) : Call → Items × Reply
  | .begin key => ((begin ttl items now key).1,.begun (begin ttl items now key).2)
  | .complete key => (items.put now key .completed (ttlSeconds ttl),.nothing)
  | .fail key => (items.put now key .failed (failTtl ttl),.nothing)
  | .get key => ((get items now key).1,.status (get items now key).2)

end LocalIdempotencyStore

def replies (call : Items → Clock → Call → Items × Reply) : Items → List (Clock × Call) → List Reply
  | _,[] => []
  | items,(now,c)::rest => (call items now c).2 :: replies call (call items now c).1 rest

/-- When a key was last marked failed, if it has not been completed since. -/
def note (failedAt : String → Option Clock) (now : Clock) : Call → String → Option Clock
  | .fail key => Function.update failedAt key (some now)
  | .complete key => Function.update failedAt key none
  | .begin _ | .get _ => failedAt

/-- No key is begun again before the time of its failure has passed. -/
def Patient (ttl : ℤ) : (String → Option Clock) → List (Clock × Call) → Prop
  | _,[] => True
  | failedAt,(now,c)::rest =>
    (∀ key t, c = .begin key → failedAt key = some t → t + failTtl ttl ≤ now) ∧
      Patient ttl (note failedAt now c) rest

def Same (now : Clock) (redis items : Items) : Prop := ∀ key t, now ≤ t → live t (redis key) = live t (items key)

def Tracks (ttl : ℤ) (failedAt : String → Option Clock) (now : Clock) (items : Items) : Prop :=
  ∀ key t, now ≤ t → (live t (items key) = some .failed ↔ ∃ t₀, failedAt key = some t₀ ∧ t < t₀ + failTtl ttl)

theorem live_put (items : Items) (now t : Clock) (key other : String) (mark : Mark) (seconds : ℤ) :
    live t (items.put now key mark seconds other) =
      if other = key then (if t < now + seconds then some mark else none) else live t (items other) := by
  unfold Items.put
  rw [Function.update_apply]
  split
  · split <;> simp_all [live,Option.filter]
  · rfl

theorem Same.put {now : Clock} {redis items : Items} (same : Same now redis items) (key : String) (mark : Mark)
    (seconds : ℤ) : Same now (redis.put now key mark seconds) (items.put now key mark seconds) := by
  intro other t later
  rw [live_put,live_put,same other t later]

theorem live_eq_none {now : Clock} {item : Option (Mark × Clock)} :
    live now item = none ↔ ∀ entry, item = some entry → entry.2 ≤ now := by
  cases item with
  | none => simp [live]
  | some entry => simp [live,Option.filter]

theorem local_begin (ttl : ℤ) (items : Items) (now : Clock) (key : String) :
    LocalIdempotencyStore.begin ttl items now key =
      if live now (items key) = none then (items.put now key .processing (ttlSeconds ttl),true) else (items,false) := by
  unfold LocalIdempotencyStore.begin
  split
  · rename_i mark expires found
    by_cases past : expires ≤ now <;> simp [found,live_eq_none,past,not_lt.mpr,not_le.mp]
  · rename_i absent
    simp [absent,live_eq_none]

theorem local_get (items : Items) (now : Clock) (key : String) :
    (LocalIdempotencyStore.get items now key).2 = live now (items key) ∧
      ∀ other t, now ≤ t → live t ((LocalIdempotencyStore.get items now key).1 other) = live t (items other) := by
  -- an item that is popped was dead before, and stays so
  have popped : live now (items key) = none →
      ∀ other t, now ≤ t → live t (Function.update items key none other) = live t (items other) := by
    intro dead other t later
    rw [Function.update_apply]
    split
    · rename_i same
      rw [same,live_eq_none.mpr (fun entry found => (live_eq_none.mp dead entry found).trans later)]
      rfl
    · rfl
  unfold LocalIdempotencyStore.get
  split
  · rename_i mark expires found
    by_cases past : expires ≤ now
    · have dead : live now (items key) = none := by simp [live_eq_none,found,past]
      rw [if_pos past]
      exact ⟨dead.symm,popped dead⟩
    · rw [if_neg past]
      exact ⟨by simp [live,found,Option.filter,not_le.mp past],fun _ _ _ => rfl⟩
  · rename_i absent
    have dead : live now (items key) = none := by simp [live_eq_none,absent]
    exact ⟨dead.symm,popped dead⟩

theorem Tracks.put {ttl : ℤ} {failedAt : String → Option Clock} {now : Clock} {items : Items} {key : String}
    {mark : Mark} (tracks : Tracks ttl failedAt now items) (other : mark ≠ .failed)
    (past : ∀ t, failedAt key = some t → t + failTtl ttl ≤ now) (seconds : ℤ) :
    Tracks ttl failedAt now (items.put now key mark seconds) := by
  intro k t later
  rw [live_put]
  split
  · rename_i same
    rw [same]
    constructor
    · intro failed
      split at failed
      · exact absurd (Option.some.inj failed) other
      · cases failed
    · rintro ⟨t₀,noted,before⟩
      exact absurd (before.trans_le (past t₀ noted)) (not_lt.mpr later)
  · exact tracks k t later

theorem Tracks.fail {ttl : ℤ} {failedAt : String → Option Clock} {now : Clock} {items : Items}
    (tracks : Tracks ttl failedAt now items) (key : String) :
    Tracks ttl (note failedAt now (.fail key)) now (items.put now key .failed (failTtl ttl)) := by
  intro k t later
  rw [live_put,note,Function.update_apply]
  split
  · simp
  · exact tracks k t later

theorem Tracks.complete {ttl : ℤ} {failedAt : String → Option Clock} {now : Clock} {items : Items}
    (tracks : Tracks ttl failedAt now items) (key : String) (seconds : ℤ) :
    Tracks ttl (note failedAt now (.complete key)) now (items.put now key .completed seconds) := by
  have forgotten : Tracks ttl (note failedAt now (.complete key)) now (Function.update items key none) := by
    intro k t later
    rw [note,Function.update_apply,Function.update_apply]
    split
    · simp [live]
    · exact tracks k t later
  have same : items.put now key .completed seconds =
      Items.put (Function.update items key none) now key .completed seconds := by
    simp [Items.put]
  rw [same]
  exact forgotten.put (by decide) (by simp [note]) seconds

theorem Same.later {now t : Clock} {redis items : Items} (same : Same now redis items) (le : now ≤ t) :
    Same t redis items := fun key u later => same key u (le.trans later)

theorem Tracks.later {ttl : ℤ} {failedAt : String → Option Clock} {now t : Clock} {items : Items}
    (tracks : Tracks ttl failedAt now items) (le : now ≤ t) : Tracks ttl failedAt t items :=
  fun key u later => tracks key u (le.trans later)

/-- One call: the replies agree unless it begins a key that is live as failed, and when
they agree the stores go on side by side. -/
theorem call_agrees {ttl : ℤ} {failedAt : String → Option Clock} {now : Clock} {redis items : Items}
    (same : Same now redis items) (tracks : Tracks ttl failedAt now items) (c : Call) :
    ((IdempotencyStore.call ttl redis now c).2 = (LocalIdempotencyStore.call ttl items now c).2 ↔
      ∀ key t, c = .begin key → failedAt key = some t → t + failTtl ttl ≤ now) ∧
    ((IdempotencyStore.call ttl redis now c).2 = (LocalIdempotencyStore.call ttl items now c).2 →
      Same now (IdempotencyStore.call ttl redis now c).1 (LocalIdempotencyStore.call ttl items now c).1 ∧
      Tracks ttl (note failedAt now c) now (LocalIdempotencyStore.call ttl items now c).1) := by
  cases c with
  | begin key =>
    have failed := tracks key now le_rfl
    simp only [IdempotencyStore.call,LocalIdempotencyStore.call,IdempotencyStore.begin,local_begin,
      same key now le_rfl,Call.begin.injEq,note]
    cases current : live now (items key) with
    | none =>
      have past : ∀ t, failedAt key = some t → t + failTtl ttl ≤ now := fun t noted =>
        not_lt.mp (fun before => by simpa [current] using failed.mpr ⟨t,noted,before⟩)
      simp only [true_or,if_true,true_iff]
      exact ⟨fun _ t same noted => past t (same ▸ noted),fun _ => ⟨same.put key _ _,tracks.put (by decide) past _⟩⟩
    | some mark =>
      by_cases isFailed : mark = .failed
      · subst isFailed
        obtain ⟨t,noted,before⟩ := failed.mp current
        simp only [or_true,if_true,reduceCtorEq,if_false,Reply.begun.injEq,Bool.true_eq_false,false_iff,
          false_implies,and_true]
        exact fun patient => absurd before (not_lt.mpr (patient key t rfl noted))
      · have past : ∀ t, failedAt key = some t → t + failTtl ttl ≤ now := fun t noted =>
          not_lt.mp (fun before => isFailed (by simpa [current] using failed.mpr ⟨t,noted,before⟩))
        simp only [reduceCtorEq,Option.some.injEq,isFailed,or_self,if_false,true_iff]
        exact ⟨fun _ t same noted => past t (same ▸ noted),fun _ => ⟨same,tracks⟩⟩
  | complete key => exact ⟨by simp [IdempotencyStore.call,LocalIdempotencyStore.call],
      fun _ => ⟨same.put key _ _,tracks.complete key _⟩⟩
  | fail key => exact ⟨by simp [IdempotencyStore.call,LocalIdempotencyStore.call],
      fun _ => ⟨same.put key _ _,tracks.fail key⟩⟩
  | get key =>
    obtain ⟨answer,kept⟩ := local_get items now key
    simp only [IdempotencyStore.call,LocalIdempotencyStore.call,answer,same key now le_rfl,note]
    refine ⟨by simp,fun _ => ⟨?_,?_⟩⟩
    · exact fun other t later => (same other t later).trans (kept other t later).symm
    · exact fun other t later => by rw [kept other t later]; exact tracks other t later

theorem replies_agree {ttl : ℤ} {failedAt : String → Option Clock} (now : Clock) {redis items : Items}
    (same : Same now redis items) (tracks : Tracks ttl failedAt now items) (calls : List (Clock × Call))
    (timed : List.Pairwise (· ≤ ·) (now :: calls.map Prod.fst)) :
    replies (IdempotencyStore.call ttl) redis calls = replies (LocalIdempotencyStore.call ttl) items calls ↔
      Patient ttl failedAt calls := by
  induction calls generalizing failedAt now redis items with
  | nil => simp [replies,Patient]
  | cons first rest ih =>
    obtain ⟨t,c⟩ := first
    rw [List.map_cons,List.pairwise_cons] at timed
    obtain ⟨before,timed⟩ := timed
    have le : now ≤ t := before t List.mem_cons_self
    obtain ⟨agrees,goes⟩ := call_agrees (same.later le) (tracks.later le) c
    rw [replies,replies,Patient,List.cons.injEq,agrees]
    constructor
    · rintro ⟨patient,rest⟩
      obtain ⟨same,tracks⟩ := goes (agrees.mpr patient)
      exact ⟨patient,(ih t same tracks timed).mp rest⟩
    · rintro ⟨patient,rest⟩
      obtain ⟨same,tracks⟩ := goes (agrees.mpr patient)
      exact ⟨patient,(ih t same tracks timed).mpr rest⟩

/-- From empty stores the replies are the same exactly when no key is begun again
while the time of its failure still runs. -/
theorem stores_interchange (ttl : ℤ) (calls : List (Clock × Call)) (timed : (calls.map Prod.fst).Pairwise (· ≤ ·)) :
    replies (IdempotencyStore.call ttl) (fun _ => none) calls =
      replies (LocalIdempotencyStore.call ttl) (fun _ => none) calls ↔ Patient ttl (fun _ => none) calls := by
  cases calls with
  | nil => simp [replies,Patient]
  | cons first rest =>
    apply replies_agree first.1
    · exact fun _ _ _ => rfl
    · intro key t _
      simp [live]
    · exact List.pairwise_cons.mpr ⟨fun t member => by
        rcases List.mem_cons.mp member with rfl | later
        · exact le_rfl
        · exact (List.pairwise_cons.mp timed).1 t later,timed⟩

/-- A retry a second after the failure: the local store refuses it. -/
def failedRetry : List (Clock × Call) := [(0,.begin "key"),(1,.fail "key"),(2,.begin "key")]

theorem failedRetry_refused :
    replies (IdempotencyStore.call 3600) (fun _ => none) failedRetry = [.begun true,.nothing,.begun true] ∧
      replies (LocalIdempotencyStore.call 3600) (fun _ => none) failedRetry = [.begun true,.nothing,.begun false] ∧
      replies (IdempotencyStore.call 3600) (fun _ => none) failedRetry ≠
        replies (LocalIdempotencyStore.call 3600) (fun _ => none) failedRetry := by
  decide +kernel

theorem stores_interchange_waited :
    replies (IdempotencyStore.call 3600) (fun _ => none) [(0,.begin "key"),(1,.fail "key"),(61,.begin "key")] =
      replies (LocalIdempotencyStore.call 3600) (fun _ => none) [(0,.begin "key"),(1,.fail "key"),(61,.begin "key")] :=
  (stores_interchange 3600 [(0,.begin "key"),(1,.fail "key"),(61,.begin "key")] (by decide +kernel)).mpr (by
    simp only [Patient,note,failTtl,ttlSeconds]
    refine ⟨nofun,nofun,?_,trivial⟩
    rintro key t ⟨⟩ noted
    cases (Option.some.inj (by simpa using noted) : (1 : ℚ) = t)
    decide +kernel)

end Suixinji.Coordination
