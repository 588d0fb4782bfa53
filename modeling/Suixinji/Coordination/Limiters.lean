import Mathlib.Tactic.Linarith
import Suixinji.Coordination.RateLimit

/-! Both rate limiters refine one limiter that holds a running window and the slots that are not
over: so they give the same answers, within the limit. -/
namespace Suixinji.Coordination.RateLimit

namespace Slots

variable {slots : Slots} {token : Token} {now later expires : Int}

theorem liveAt_liveAt (slots : Slots) (le : now ≤ later) : (slots.liveAt now).liveAt later = slots.liveAt later := by
  unfold liveAt
  rw [List.filter_filter]
  apply List.filter_congr
  intro x _
  by_cases elapsed : later < x.2
  · have first : now < x.2 := by omega
    simp [elapsed,first]
  · simp [elapsed]

theorem liveAt_drop : (slots.drop token).liveAt later = (slots.liveAt later).drop token := by
  unfold liveAt drop
  rw [List.filter_filter,List.filter_filter]
  apply List.filter_congr
  intro x _
  exact Bool.and_comm _ _

theorem liveAt_put : (slots.put token expires).liveAt later =
    (slots.liveAt later).drop token ++ liveAt [(token,expires)] later := by
  have split : (slots.put token expires).liveAt later = (slots.drop token).liveAt later ++ liveAt [(token,expires)] later :=
    List.filter_append _ _
  rw [split,liveAt_drop]

theorem put_liveAt (fresh : now < expires) : (slots.put token expires).liveAt now = (slots.liveAt now).put token expires := by
  rw [liveAt_put]
  congr 1
  exact List.filter_cons_of_pos (by simpa using fresh)

theorem length_liveAt : (slots.liveAt now).length ≤ slots.length := List.length_filter_le _ _

theorem length_drop : (slots.drop token).length ≤ slots.length := List.length_filter_le _ _

theorem length_put : (slots.put token expires).length ≤ slots.length + 1 := by
  have shorter : (slots.drop token).length ≤ slots.length := length_drop
  have size : (slots.put token expires).length = (slots.drop token).length + 1 := by simp [put]
  omega

end Slots

/-- What a limiter holds of a key at a time: the end and the count of the running window, and the
slots that are granted and not over. -/
structure Held where
  window : Option (Int × Int) := none
  slots : Slots := []

def Held.advance (h : Held) (now : Int) : Held := ⟨h.window.filter (now < ·.1),h.slots.liveAt now⟩

variable {κ : Type} [DecidableEq κ]

/-- The window that a call counts in. -/
def Held.running (h : Held) (period now : Int) : Int × Int := h.window.getD (now + period,0)

/-- A call at a time to which the state is advanced. -/
def Held.step (h : Held) (limit period now : Int) : Call κ → Answer × Held
  | .allow _ cost =>
    let r := h.running period now
    (.limited ⟨decide (r.2 + max 1 cost ≤ limit),r.2 + max 1 cost,r.1 - now⟩,{h with window := some (r.1,r.2 + max 1 cost)})
  | .acquireSlot _ token =>
    if limit ≤ h.slots.length then (.slot none,h)
    else (.slot (some token),{h with slots := h.slots.put token (now + period)})
  | .releaseSlot _ token => (.released,{h with slots := h.slots.drop token})

/-- A limiter whose view of a key is a `Held` that the calls move as specified, in the states that
can be at a time. -/
structure Refines (use : Use κ) (Legal : Timed κ → Prop) {σ : Type} (step : σ → Timed κ → Answer × σ) (Ok : Int → σ → Prop)
    (view : σ → Int → κ → Held) : Prop where
  waits : ∀ s now later, Ok now s → now ≤ later → Ok later s
  keeps : ∀ s e, Ok e.now s → Legal e → Ok e.now (step s e).2
  answer : ∀ s e, Ok e.now s → Legal e →
    (step s e).1 = ((view s e.now e.call.key).step (use.limit e.call.key) (use.period e.call.key) e.now e.call).1
  moves : ∀ s e, Ok e.now s → Legal e →
    view (step s e).2 e.now e.call.key =
      ((view s e.now e.call.key).step (use.limit e.call.key) (use.period e.call.key) e.now e.call).2
  others : ∀ s e, Ok e.now s → Legal e → ∀ key, key ≠ e.call.key → view (step s e).2 e.now key = view s e.now key
  later : ∀ s now later, Ok now s → now ≤ later → ∀ key, view s later key = (view s now key).advance later

theorem answers_eq {use : Use κ} {Legal : Timed κ → Prop} {σ τ : Type} {step : σ → Timed κ → Answer × σ}
    {step' : τ → Timed κ → Answer × τ} {Ok : Int → σ → Prop} {Ok' : Int → τ → Prop} {view : σ → Int → κ → Held}
    {view' : τ → Int → κ → Held} (refines : Refines use Legal step Ok view) (refines' : Refines use Legal step' Ok' view')
    {calls : List (Timed κ)} (timed : calls.Pairwise (fun a b => a.now ≤ b.now)) (legal : ∀ e ∈ calls, Legal e) {s : σ} {t : τ}
    {start : Int} (ok : Ok start s) (ok' : Ok' start t) (before : ∀ e ∈ calls, start ≤ e.now)
    (same : ∀ key, view s start key = view' t start key) : answers step s calls = answers step' t calls := by
  induction calls generalizing s t start with
  | nil => rfl
  | cons e es ih =>
    obtain ⟨first,timed⟩ := List.pairwise_cons.mp timed
    have here := legal e List.mem_cons_self
    have le := before e List.mem_cons_self
    have arrived (key : κ) : view s e.now key = view' t e.now key := by
      rw [refines.later s start e.now ok le key,refines'.later t start e.now ok' le key,same]
    have ok := refines.waits s start e.now ok le
    have ok' := refines'.waits t start e.now ok' le
    have answer_same : (step s e).1 = (step' t e).1 := by
      rw [refines.answer s e ok here,refines'.answer t e ok' here,arrived]
    unfold answers
    rw [answer_same]
    congr 1
    refine ih timed (fun e inside => legal e (List.mem_cons_of_mem _ inside)) (refines.keeps s e ok here)
      (refines'.keeps t e ok' here) first (fun key => ?_)
    by_cases its : key = e.call.key
    · subst its
      rw [refines.moves s e ok here,refines'.moves t e ok' here,arrived]
    · rw [refines.others s e ok here key its,refines'.others t e ok' here key its,arrived]

def LocalRateLimiter.view (s : LocalRateLimiter κ) (now : Int) (key : κ) : Held :=
  ⟨(s.windows key).filter (now < ·.1),((s.slots key).getD []).liveAt now⟩

theorem filter_filter_window (w : Option (Int × Int)) {now later : Int} (le : now ≤ later) :
    (w.filter (now < ·.1)).filter (later < ·.1) = w.filter (later < ·.1) := by
  cases w with
  | none => rfl
  | some w =>
    by_cases elapsed : later < w.1
    · have first : now < w.1 := by omega
      simp [Option.filter,elapsed,first]
    · by_cases first : now < w.1 <;> simp [Option.filter,elapsed,first]

variable {use : Use κ}

theorem Held.lt_running {w : Option (Int × Int)} {slots : Slots} {period now : Int} (positive : 1 ≤ period) :
    now < (Held.running ⟨w.filter (now < ·.1),slots⟩ period now).1 := by
  unfold running
  cases found : w.filter (now < ·.1) with
  | none =>
    rw [Option.getD_none]
    omega
  | some w' =>
    rw [Option.getD_some]
    simpa using (Option.filter_eq_some_iff.mp found).2

theorem LocalRateLimiter.allow_eq (s : LocalRateLimiter κ) (now : Int) (key : κ) (limit cost : Int) {window : Int} (positive : 1 ≤ window) :
    s.allow now key limit window cost =
      let r := (s.view now key).running window now
      (.limited ⟨decide (r.2 + max 1 cost ≤ limit),r.2 + max 1 cost,r.1 - now⟩,
        {s with windows := Function.update s.windows key (some (r.1,r.2 + max 1 cost))}) := by
  have same : (if ((s.windows key).getD (now + window,0)).1 ≤ now then (now + window,0) else (s.windows key).getD (now + window,0)) =
      (s.view now key).running window now := by
    unfold LocalRateLimiter.view Held.running
    cases s.windows key with
    | none =>
      have open_ : ¬now + window ≤ now := by omega
      exact if_neg open_
    | some w =>
      by_cases elapsed : w.1 ≤ now
      · have closed : ¬now < w.1 := by omega
        rw [Option.getD_some,Option.filter_some_neg (by simpa using closed)]
        exact if_pos elapsed
      · rw [Option.getD_some,Option.filter_some_pos (by simpa using elapsed)]
        exact if_neg elapsed
  have open_ : now < ((s.view now key).running window now).1 := Held.lt_running positive
  have wait : max 0 (((s.view now key).running window now).1 - now) = ((s.view now key).running window now).1 - now :=
    max_eq_right (by omega)
  unfold LocalRateLimiter.allow
  dsimp only
  rw [same,wait]

theorem local_refines (use : Use κ) (periods : ∀ key, 1 ≤ use.period key) :
    Refines use (fun _ => True) (localStep use) (fun _ _ => True) LocalRateLimiter.view where
  waits _ _ _ _ _ := trivial
  keeps _ _ _ _ := trivial
  answer s e _ _ := by
    obtain ⟨now,call⟩ := e
    cases call with
    | allow key cost => exact congrArg Prod.fst (s.allow_eq now key _ cost (periods key))
    | acquireSlot key token =>
      change (s.acquireSlot now key _ _ token).1 = (Held.step _ _ _ _ _).1
      unfold LocalRateLimiter.acquireSlot Held.step
      dsimp only
      split
      · rename_i full
        rw [if_pos (by exact full)]
      · rename_i room
        rw [if_neg (by exact room)]
    | releaseSlot key token => rfl
  moves s e _ _ := by
    obtain ⟨now,call⟩ := e
    cases call with
    | allow key cost =>
      have open_ : now < ((s.view now key).running (use.period key) now).1 := Held.lt_running (periods key)
      change LocalRateLimiter.view (s.allow now key _ _ cost).2 now key = _
      rw [s.allow_eq now key _ cost (periods key)]
      unfold LocalRateLimiter.view at open_ ⊢
      dsimp only
      rw [Function.update_self,Option.filter_some_pos (by simpa using open_)]
      rfl
    | acquireSlot key token =>
      have fresh := periods key
      change LocalRateLimiter.view (s.acquireSlot now key _ _ token).2 now key = (Held.step _ _ _ _ _).2
      unfold LocalRateLimiter.acquireSlot Held.step
      dsimp only
      split
      · rename_i full
        rw [if_pos (by exact full)]
        unfold LocalRateLimiter.view
        dsimp only
        rw [Function.update_self,Option.getD_some,Slots.liveAt_liveAt _ (Int.le_refl now)]
        rfl
      · rename_i room
        rw [if_neg (by exact room)]
        unfold LocalRateLimiter.view
        dsimp only
        rw [Function.update_self,Option.getD_some,Slots.put_liveAt (by omega),Slots.liveAt_liveAt _ (Int.le_refl now)]
        rfl
    | releaseSlot key token =>
      change LocalRateLimiter.view (s.releaseSlot key token).2 now key = ⟨(s.view now key).window,(s.view now key).slots.drop token⟩
      unfold LocalRateLimiter.releaseSlot LocalRateLimiter.view
      dsimp only
      rw [Function.update_self,← Slots.liveAt_drop]
      cases s.slots key <;> rfl
  others s e _ _ key other := by
    obtain ⟨now,call⟩ := e
    cases call with
    | allow key' cost =>
      change LocalRateLimiter.view (s.allow now key' _ _ cost).2 now key = _
      rw [s.allow_eq now key' _ cost (periods key')]
      unfold LocalRateLimiter.view
      dsimp only
      rw [Function.update_of_ne (by exact other)]
    | acquireSlot key' token =>
      change LocalRateLimiter.view (s.acquireSlot now key' _ _ token).2 now key = _
      unfold LocalRateLimiter.acquireSlot LocalRateLimiter.view
      dsimp only
      split
      · dsimp only
        rw [Function.update_of_ne (by exact other)]
      · dsimp only
        rw [Function.update_of_ne (by exact other)]
    | releaseSlot key' token =>
      change LocalRateLimiter.view (s.releaseSlot key' token).2 now key = _
      unfold LocalRateLimiter.releaseSlot LocalRateLimiter.view
      dsimp only
      rw [Function.update_of_ne (by exact other)]
  later s now later _ le key := by
    unfold LocalRateLimiter.view Held.advance
    rw [filter_filter_window _ le,Slots.liveAt_liveAt _ le]

end Suixinji.Coordination.RateLimit
