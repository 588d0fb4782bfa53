import Suixinji.Coordination.RedisLimiter

/-! What the limiters guarantee: equal answers, no window above its limit, and no more slots than
the limit at any time. -/
namespace Suixinji.Coordination.RateLimit

variable {κ : Type} [DecidableEq κ]

def charge (key : κ) (ends : Int) : Timed κ × Answer → Int
  | (⟨now,.allow k cost⟩,.limited r) => if k = key ∧ r.allowed ∧ now + r.retryAfterMs = ends then max 1 cost else 0
  | _ => 0

def spent (key : κ) (ends : Int) (log : List (Timed κ × Answer)) : Int := (log.map (charge key ends)).sum

variable (use : Use κ)

def account (key : κ) (slots : Slots) : Timed κ × Answer → Slots
  | (⟨now,.acquireSlot k token⟩,.slot (some _)) => if k = key then slots.put token (now + use.period key) else slots
  | (⟨_,.releaseSlot k token⟩,_) => if k = key then slots.drop token else slots
  | _ => slots

def granted (key : κ) (log : List (Timed κ × Answer)) : Slots := log.foldl (account use key) []

structure Safe (calls : List (Timed κ)) (given : List Answer) : Prop where
  budget : ∀ key ends, spent key ends (calls.zip given) ≤ use.limit key
  slots : ∀ n key t, (∀ e ∈ calls.take n, e.now ≤ t) →
    (((granted use key ((calls.zip given).take n)).liveAt t).length : Int) ≤ use.limit key

variable {use}

/-- What a window that ends at a time can still allow. -/
def left (limit : Int) (h : Held) (now ends : Int) : Int :=
  if ends ≤ now then 0
  else
    match h.window with
    | some (running,count) => if running = ends then max 0 (limit - count) else limit
    | none => limit

theorem left_nonneg {limit : Int} (some_room : 1 ≤ limit) (h : Held) (now ends : Int) : 0 ≤ left limit h now ends := by
  unfold left
  split
  · exact Int.le_refl 0
  · split
    · split
      · exact le_max_left _ _
      · omega
    · omega

theorem left_advance {limit : Int} (some_room : 1 ≤ limit) (h : Held) {now later : Int} (le : now ≤ later) (ends : Int) :
    left limit (h.advance later) later ends ≤ left limit h now ends := by
  by_cases elapsed : ends ≤ later
  · have nothing : left limit (h.advance later) later ends = 0 := if_pos elapsed
    rw [nothing]
    exact left_nonneg some_room h now ends
  · have open_ : ¬ends ≤ now := by omega
    unfold left Held.advance
    rw [if_neg elapsed,if_neg open_]
    dsimp only
    cases h.window with
    | none => exact Int.le_refl _
    | some w =>
      by_cases runs : later < w.1
      · rw [Option.filter_some_pos (by simpa using runs)]
      · have other : w.1 ≠ ends := by omega
        rw [Option.filter_some_neg (by simpa using runs)]
        dsimp only
        rw [if_neg other]

theorem charge_step (h : Held) {limit period now : Int} (some_room : 1 ≤ limit) (positive : 1 ≤ period) (call : Call κ) (ends : Int)
    (here : h.advance now = h) :
    charge call.key ends (⟨now,call⟩,(h.step limit period now call).1) + left limit (h.step limit period now call).2 now ends ≤
      left limit h now ends := by
  cases call with
  | allow key cost =>
    have running : now < (h.running period now).1 := by
      rw [← here]
      exact Held.lt_running positive
    have cost_pos : 1 ≤ max 1 cost := le_max_left 1 cost
    have paid : charge key ends (⟨now,.allow key cost⟩,(h.step limit period now (.allow key cost)).1) =
        if (h.running period now).2 + max 1 cost ≤ limit ∧ (h.running period now).1 = ends then max 1 cost else 0 := by
      have end_eq : now + ((h.running period now).1 - now) = (h.running period now).1 := by omega
      simp only [charge,Held.step,true_and,decide_eq_true_eq,end_eq]
    have after : left limit (h.step limit period now (.allow key cost)).2 now ends =
        if ends ≤ now then 0 else if (h.running period now).1 = ends then max 0 (limit - ((h.running period now).2 + max 1 cost)) else limit := rfl
    have before : left limit h now ends = if ends ≤ now then 0
        else if (h.running period now).1 = ends then max 0 (limit - (h.running period now).2) else limit := by
      unfold left Held.running
      cases h.window with
      | none =>
        have whole : max 0 (limit - 0) = limit := by omega
        dsimp only [Option.getD_none]
        rw [whole,ite_self]
      | some w => rfl
    change charge key ends _ + _ ≤ _
    rw [paid,after,before]
    split <;> split <;> (try split) <;> omega
  | acquireSlot key token =>
    unfold Held.step
    dsimp only
    split
    · exact (Int.zero_add _).le
    · exact (Int.zero_add _).le
  | releaseSlot key token => exact (Int.zero_add _).le

theorem charge_of_ne {key : κ} {call : Call κ} (other : key ≠ call.key) (ends now : Int) (answer : Answer) :
    charge key ends (⟨now,call⟩,answer) = 0 := by
  unfold charge
  split
  · rename_i matched
    cases matched
    exact if_neg (fun h => other h.1.symm)
  · rfl

theorem account_step (use : Use κ) (h : Held) {limit now : Int} (call : Call κ) {slots : Slots} (room : (h.slots.length : Int) ≤ limit)
    (same : ∀ t, now ≤ t → slots.liveAt t = h.slots.liveAt t) :
    (((h.step limit (use.period call.key) now call).2.slots.length : Int) ≤ limit) ∧
      ∀ t, now ≤ t → (account use call.key slots (⟨now,call⟩,(h.step limit (use.period call.key) now call).1)).liveAt t =
        (h.step limit (use.period call.key) now call).2.slots.liveAt t := by
  cases call with
  | allow key cost => exact ⟨room,same⟩
  | acquireSlot key token =>
    unfold Held.step
    dsimp only
    by_cases full : limit ≤ h.slots.length
    · rw [if_pos full]
      exact ⟨room,same⟩
    · rw [if_neg full]
      have longer : (h.slots.put token (now + use.period key)).length ≤ h.slots.length + 1 := h.slots.length_put
      refine ⟨?_,fun t le => ?_⟩
      · change ((h.slots.put token (now + use.period key)).length : Int) ≤ limit
        omega
      · change (if key = key then slots.put token (now + use.period key) else slots).liveAt t = (h.slots.put token (now + use.period key)).liveAt t
        rw [if_pos rfl,Slots.liveAt_put,Slots.liveAt_put,same t le]
  | releaseSlot key token =>
    have shorter : (h.slots.drop token).length ≤ h.slots.length := h.slots.length_drop
    refine ⟨?_,fun t le => ?_⟩
    · change ((h.slots.drop token).length : Int) ≤ limit
      omega
    · change (if key = key then slots.drop token else slots).liveAt t = (h.slots.drop token).liveAt t
      rw [if_pos rfl,Slots.liveAt_drop,Slots.liveAt_drop,same t le]

theorem account_of_ne {key : κ} {call : Call κ} (other : key ≠ call.key) (slots : Slots) (now : Int) (answer : Answer) :
    account use key slots (⟨now,call⟩,answer) = slots := by
  unfold account
  split
  · rename_i matched
    cases matched
    exact if_neg (Ne.symm other)
  · rename_i matched
    cases matched
    exact if_neg (Ne.symm other)
  · rfl

omit [DecidableEq κ] in
theorem answers_take {σ : Type} (step : σ → Timed κ → Answer × σ) (s : σ) (calls : List (Timed κ)) (n : Nat) :
    (answers step s calls).take n = answers step s (calls.take n) := by
  induction n generalizing s calls with
  | zero => rfl
  | succ n ih =>
    cases calls with
    | nil => rfl
    | cons e es => exact congrArg (_ :: ·) (ih (step s e).2 es)

omit [DecidableEq κ] in
theorem exists_start (calls : List (Timed κ)) : ∃ start, ∀ e ∈ calls, start ≤ e.now := by
  induction calls with
  | nil => exact ⟨0,fun _ inside => absurd inside List.not_mem_nil⟩
  | cons e es ih =>
    obtain ⟨start,before⟩ := ih
    refine ⟨min start e.now,List.forall_mem_cons.mpr ⟨min_le_right _ _,fun e inside => ?_⟩⟩
    exact (min_le_left _ _).trans (before e inside)

section Runs

variable {Legal : Timed κ → Prop} {σ : Type} {step : σ → Timed κ → Answer × σ} {Ok : Int → σ → Prop} {view : σ → Int → κ → Held}
  (refines : Refines use Legal step Ok view) (limits : ∀ key, 1 ≤ use.limit key) (periods : ∀ key, 1 ≤ use.period key)
include refines limits periods

theorem spent_le {calls : List (Timed κ)} (timed : calls.Pairwise (fun a b => a.now ≤ b.now)) (legal : ∀ e ∈ calls, Legal e)
    {s : σ} {start : Int} (ok : Ok start s) (before : ∀ e ∈ calls, start ≤ e.now) (key : κ) (ends : Int) :
    spent key ends (calls.zip (answers step s calls)) ≤ left (use.limit key) (view s start key) start ends := by
  induction calls generalizing s start with
  | nil => exact left_nonneg (limits key) _ _ _
  | cons e es ih =>
    obtain ⟨first,timed⟩ := List.pairwise_cons.mp timed
    have here := legal e List.mem_cons_self
    have le := before e List.mem_cons_self
    have arrived := refines.later s start e.now ok le key
    have ok' := refines.waits s start e.now ok le
    have rest := ih timed (fun e inside => legal e (List.mem_cons_of_mem _ inside)) (refines.keeps s e ok' here) first
    have kept := left_advance (limits key) (view s start key) le ends
    rw [← arrived] at kept
    refine le_trans ?_ kept
    change charge key ends (e,(step s e).1) + spent key ends (es.zip (answers step (step s e).2 es)) ≤ _
    obtain ⟨now,call⟩ := e
    by_cases its : key = call.key
    · subst its
      have same : (view s now call.key).advance now = view s now call.key := (refines.later s now now ok' (Int.le_refl now) _).symm
      have paid := charge_step (view s now call.key) (limits call.key) (periods call.key) call ends same
      rw [refines.answer s _ ok' here]
      rw [refines.moves s _ ok' here] at rest
      exact (Int.add_le_add_left rest _).trans paid
    · rw [charge_of_ne its,Int.zero_add]
      rwa [refines.others s _ ok' here key its] at rest

omit limits periods in
theorem account_le {calls : List (Timed κ)} (timed : calls.Pairwise (fun a b => a.now ≤ b.now)) (legal : ∀ e ∈ calls, Legal e)
    {s : σ} {start : Int} (ok : Ok start s) (before : ∀ e ∈ calls, start ≤ e.now) (key : κ) {slots : Slots}
    (room : ((view s start key).slots.length : Int) ≤ use.limit key)
    (same : ∀ t, start ≤ t → slots.liveAt t = (view s start key).slots.liveAt t) {t : Int} (later : start ≤ t)
    (after : ∀ e ∈ calls, e.now ≤ t) :
    ((((calls.zip (answers step s calls)).foldl (account use key) slots).liveAt t).length : Int) ≤ use.limit key := by
  induction calls generalizing s start slots with
  | nil =>
    have shorter : ((view s start key).slots.liveAt t).length ≤ (view s start key).slots.length := Slots.length_liveAt
    change ((slots.liveAt t).length : Int) ≤ use.limit key
    rw [same t later]
    omega
  | cons e es ih =>
    obtain ⟨first,timed⟩ := List.pairwise_cons.mp timed
    have here := legal e List.mem_cons_self
    have le := before e List.mem_cons_self
    have ok' := refines.waits s start e.now ok le
    have arrived := refines.later s start e.now ok le key
    have room' : ((view s e.now key).slots.length : Int) ≤ use.limit key := by
      have shorter : ((view s start key).slots.liveAt e.now).length ≤ (view s start key).slots.length := Slots.length_liveAt
      rw [arrived]
      change (((view s start key).slots.liveAt e.now).length : Int) ≤ use.limit key
      omega
    have same' (t : Int) (from_ : e.now ≤ t) : slots.liveAt t = (view s e.now key).slots.liveAt t := by
      rw [arrived,same t (le.trans from_)]
      exact (Slots.liveAt_liveAt _ from_).symm
    refine ih timed (fun e inside => legal e (List.mem_cons_of_mem _ inside)) (refines.keeps s e ok' here) first ?_ ?_
      (after e List.mem_cons_self) (fun e inside => after e (List.mem_cons_of_mem _ inside))
    all_goals
      obtain ⟨now,call⟩ := e
      by_cases its : key = call.key
      · subst its
        have moved := account_step use (view s now call.key) call room' same'
        rw [refines.moves s _ ok' here]
        first | exact moved.1 | (rw [refines.answer s _ ok' here]; exact moved.2)
      · rw [refines.others s _ ok' here key its]
        first | exact room' | (rw [account_of_ne its]; exact same')

theorem safe_of_refines {calls : List (Timed κ)} (timed : calls.Pairwise (fun a b => a.now ≤ b.now)) (legal : ∀ e ∈ calls, Legal e)
    {s : σ} (ok : ∀ start, Ok start s) (empty : ∀ start key, view s start key = {}) : Safe use calls (answers step s calls) where
  budget key ends := by
    obtain ⟨start,before⟩ := exists_start calls
    have within := spent_le refines limits periods timed legal (ok start) before key ends
    rw [empty] at within
    refine within.trans ?_
    have some_room := limits key
    unfold left
    split
    · omega
    · exact Int.le_refl _
  slots n key t after := by
    obtain ⟨start,before⟩ := exists_start (⟨t,.releaseSlot key 0⟩::calls)
    have zipped : (calls.zip (answers step s calls)).take n = (calls.take n).zip (answers step s (calls.take n)) := by
      rw [List.zip,List.take_zipWith,answers_take]
    unfold granted
    rw [zipped]
    refine account_le refines (timed.sublist (List.take_sublist n calls)) (fun e inside => legal e (List.mem_of_mem_take inside))
      (ok start) (fun e inside => before e (List.mem_cons_of_mem _ (List.mem_of_mem_take inside))) key ?_ ?_ (before _ List.mem_cons_self) after
    · rw [empty]
      exact Int.le_trans (by decide) (limits key)
    · intro t _
      rw [empty]

end Runs

/-- Where every key has one kind of calls, and a window or ttl of a millisecond at least, the two
limiters give the same answers, and these are within the limit. -/
theorem limiters_agree (use : Use κ) (limits : ∀ key, 1 ≤ use.limit key) (periods : ∀ key, 1 ≤ use.period key)
    (calls : List (Timed κ)) (timed : calls.Pairwise (fun a b => a.now ≤ b.now)) (slotted : κ → Bool)
    (fits : ∀ e ∈ calls, e.call.onSlots = slotted e.call.key) :
    redisAnswers use calls = localAnswers use calls ∧ Safe use calls (localAnswers use calls) := by
  have redis := redis_refines limits periods slotted
  have memory := local_refines use periods
  obtain ⟨start,before⟩ := exists_start calls
  have empty (now : Int) : Sound use slotted now (fun _ => none) := fun _ _ there => absurd there.symm (Option.some_ne_none _)
  refine ⟨?_,safe_of_refines memory limits periods timed (fun _ _ => trivial) (fun _ => trivial) (fun _ _ => rfl)⟩
  have both : Refines use (fun e => e.call.onSlots = slotted e.call.key) (localStep use) (fun _ _ => True) LocalRateLimiter.view :=
    ⟨memory.waits,fun s e ok _ => memory.keeps s e ok trivial,fun s e ok _ => memory.answer s e ok trivial,
      fun s e ok _ => memory.moves s e ok trivial,fun s e ok _ => memory.others s e ok trivial,memory.later⟩
  exact answers_eq redis both timed fits (empty start) trivial before (fun _ => rfl)

theorem limiters_agree_of_two_keys :
    let calls : List (Timed Bool) :=
      [⟨0,.allow false 2⟩,⟨5,.acquireSlot true 1⟩,⟨7,.allow false 9⟩,⟨7,.acquireSlot true 2⟩,⟨8,.releaseSlot true 1⟩,⟨60000,.allow false 1⟩]
    redisAnswers ⟨fun _ => 2,fun _ => 60000⟩ calls = localAnswers ⟨fun _ => 2,fun _ => 60000⟩ calls ∧
      Safe ⟨fun _ => 2,fun _ => 60000⟩ calls (localAnswers ⟨fun _ => 2,fun _ => 60000⟩ calls) :=
  limiters_agree ⟨fun _ => 2,fun _ => 60000⟩ (by decide) (by decide) _ (by decide) id (by decide)

/-- A key that is used for a window and for slots: Redis refuses the second kind of value. And a
window of no milliseconds: Redis counts two calls in it, the process none. -/
theorem limiters_disagree :
    (¬∀ (use : Use Unit) (calls : List (Timed Unit)), (∀ key, 1 ≤ use.limit key) → (∀ key, 1 ≤ use.period key) →
      calls.Pairwise (fun a b => a.now ≤ b.now) →
        redisAnswers use calls = localAnswers use calls ∧ Safe use calls (localAnswers use calls)) ∧
    ¬∀ (use : Use Unit) (calls : List (Timed Unit)), (∀ key, 1 ≤ use.limit key) →
      calls.Pairwise (fun a b => a.now ≤ b.now) → (∀ e ∈ calls, e.call.onSlots = false) →
        redisAnswers use calls = localAnswers use calls ∧ Safe use calls (localAnswers use calls) := by
  constructor
  · intro claimed
    have same := (claimed ⟨fun _ => 1,fun _ => 60000⟩ [⟨0,.allow () 1⟩,⟨1,.acquireSlot () 7⟩]
      (fun _ => Int.le_refl 1) (fun _ => (by decide : (1 : Int) ≤ 60000)) (by decide)).1
    exact absurd same (by decide)
  · intro claimed
    have same := (claimed ⟨fun _ => 1,fun _ => 0⟩ [⟨0,.allow () 1⟩,⟨0,.allow () 1⟩]
      (fun _ => Int.le_refl 1) (by decide) (by decide)).1
    exact absurd same (by decide)

end Suixinji.Coordination.RateLimit
