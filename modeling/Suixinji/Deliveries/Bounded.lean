import Mathlib.Data.Finset.Card
import Suixinji.Deliveries.Settled

/-! How often a delivery is reserved and sent: the reservations are counted in the row
and numbered in the attempts, and each of them is sent once at most. -/
namespace Suixinji.Deliveries
open Suixinji.Relational Suixinji.Dispatch Suixinji.Transition

def Store.attemptCount (store : Store) (key : String) : Nat :=
  ((store.deliveries.find? key).map Delivery.attemptCount).getD 0

def Store.attemptNumbers (store : Store) (key : String) : List Nat :=
  (store.attempts.rows.filter (fun a => a.deliveryKey = key)).map DeliveryAttempt.attemptNo

/-- A call of `reserve_delivery` that returned a record of the key. -/
def Event.grants (key : String) : Event → Bool
  | .reserve _ r _ granted => granted && r.deliveryKey = key
  | _ => false

/-- A call of `send_text` for the key. -/
def Event.sends (key : String) : Event → Bool
  | .send _ sent _ => sent = key
  | _ => false

section Statements
variable {host : Host} {settings : Settings} {store store' : Store} {r : Reservation} {now : Time} {row : Option Delivery}

theorem attemptCount_eq {d : Delivery} (member : d ∈ store.deliveries) : store.attemptCount d.deliveryKey = d.attemptCount := by
  simp [Store.attemptCount,Table.find?_mem member]

theorem attemptCount_absent {key : String} (absent : ∀ d ∈ store.deliveries, d.deliveryKey ≠ key) : store.attemptCount key = 0 := by
  simp [Store.attemptCount,Table.find?_eq_none.mpr absent]

theorem attemptCount_kept (rows : Table.Evolves (fun d d' : Delivery => d'.attemptCount = d.attemptCount) (fun _ => False)
    store.deliveries store'.deliveries) (key : String) : store'.attemptCount key = store.attemptCount key := by
  cases found : store.deliveries.find? key with
  | some d =>
    obtain ⟨member,rfl⟩ := Table.find?_eq_some.mp found
    obtain ⟨d',there,same,count⟩ := rows.kept d member
    change d'.deliveryKey = d.deliveryKey at same
    rw [attemptCount_eq member,← same,attemptCount_eq there,count]
  | none =>
    have absent := Table.find?_eq_none.mp found
    rw [attemptCount_absent absent]
    apply attemptCount_absent
    intro d' there same
    obtain ⟨d,member,same',_⟩ | never := rows.origin d' there
    · exact absent d member (same'.symm.trans same)
    · exact never

theorem attemptNumbers_update {p : DeliveryAttempt → Bool} {status : DeliveryStatus} {error : Option String} (key : String)
    (attempts : store'.attempts.rows = store.attempts.rows.map (fun a => if p a then a.ended status error now else a)) :
    store'.attemptNumbers key = store.attemptNumbers key := by
  unfold Store.attemptNumbers
  rw [attempts,List.filter_map,List.map_map]
  have sameKey : (fun a : DeliveryAttempt => decide (a.deliveryKey = key)) ∘
      (fun a => if p a then a.ended status error now else a) = fun a => decide (a.deliveryKey = key) := by
    funext a
    simp only [Function.comp_apply]
    split <;> rfl
  rw [sameKey]
  apply List.map_congr_left
  intro a _
  simp only [Function.comp_apply]
  split <;> rfl

theorem updateStatus_counts {deliveryKey : String} {status : DeliveryStatus} {error : Option String} (key : String) :
    (updateStatus store deliveryKey status error now).attemptCount key = store.attemptCount key ∧
      (updateStatus store deliveryKey status error now).attemptNumbers key = store.attemptNumbers key := by
  unfold updateStatus
  split
  · exact ⟨rfl,rfl⟩
  · rename_i d found
    obtain ⟨member,_⟩ := Table.find?_eq_some.mp found
    refine ⟨attemptCount_kept ?_ key,attemptNumbers_update key rfl⟩
    exact .put_of_mem member rfl rfl (fun _ _ _ => rfl)

theorem recover_counts (key : String) :
    (recoverStaleReservedDeliveries store now).1.attemptCount key = store.attemptCount key ∧
      (recoverStaleReservedDeliveries store now).1.attemptNumbers key = store.attemptNumbers key := by
  refine ⟨attemptCount_kept ?_ key,attemptNumbers_update key rfl⟩
  exact .of_updateWhere rfl (fun _ _ _ => ⟨rfl,rfl⟩) (fun _ _ _ => rfl)

theorem reserve_refused (ok : reserveDelivery host settings store r now = some (store',none)) :
    store'.deliveries = store.deliveries ∧ store'.attempts = store.attempts := by
  unfold reserveDelivery at ok
  obtain ⟨⟨db,spaceId⟩,_,rest⟩ := Option.bind_eq_some_iff.mp ok
  dsimp only at rest
  split at rest
  · cases rest
    exact ⟨rfl,rfl⟩
  · simp only [Option.bind_eq_bind,Option.bind_eq_some_iff,Option.pure_def,Option.some.injEq,Prod.mk.injEq] at rest
    obtain ⟨_,_,_,never⟩ := rest
    cases never

theorem reserve_granted {d : Delivery} (ok : reserveDelivery host settings store r now = some (store',some d)) :
    d.deliveryKey = r.deliveryKey ∧ d.attemptCount = store.attemptCount r.deliveryKey + 1 ∧
      d.attemptCount ≤ max 1 settings.deliveryMaxAttempts ∧
      store'.attempts = store.attempts.insertNew
        [{deliveryKey := r.deliveryKey,attemptNo := d.attemptCount,status := .reserved,startedAt := now}] := by
  unfold reserveDelivery at ok
  obtain ⟨⟨db,spaceId⟩,_,rest⟩ := Option.bind_eq_some_iff.mp ok
  dsimp only at rest
  split at rest
  · cases rest
  rename_i free
  simp only [Option.bind_eq_bind,Option.bind_eq_some_iff,Option.pure_def,Option.some.injEq,Prod.mk.injEq] at rest
  obtain ⟨deliveries,written,rfl,rfl⟩ := rest
  refine ⟨rfl,rfl,?_,rfl⟩
  cases found : store.deliveries.find? r.deliveryKey with
  | none => exact le_max_left ..
  | some old =>
    have reservable : old.reservable settings now = true := by simpa [found] using free
    simp only [Delivery.reservable,Bool.and_eq_true,decide_eq_true_eq] at reservable
    exact le_trans reservable.2 (le_max_right ..)

theorem attemptCount_reserve {d : Delivery} (ok : reserveDelivery host settings store r now = some (store',some d)) (key : String) :
    store'.attemptCount key = store.attemptCount key + if r.deliveryKey = key then 1 else 0 := by
  obtain ⟨same,next,_,_⟩ := reserve_granted ok
  rcases reserveDelivery_spec ok with ⟨none_,_⟩ | ⟨_,equal,_,_,rows,_⟩
  · cases none_
  cases Option.some.inj equal
  split
  · rename_i here
    rw [← here,← next,← same]
    exact attemptCount_eq ((rows d).mpr (.inl rfl))
  · rename_i other
    have kept : store'.deliveries.find? key = store.deliveries.find? key := by
      apply Option.ext
      intro d'
      rw [Table.find?_eq_some,Table.find?_eq_some,rows]
      constructor
      · rintro ⟨rfl | ⟨member,_⟩,here⟩
        · exact absurd (same.symm.trans here) other
        · exact ⟨member,here⟩
      · rintro ⟨member,here⟩
        exact ⟨.inr ⟨member,fun equal => other (same.symm.trans (equal.symm.trans here))⟩,here⟩
    simp [Store.attemptCount,kept]

theorem rows_insertNew_fresh (t : Table DeliveryAttempt.key) (a : DeliveryAttempt) :
    (t.insertNew [a]).rows = if a.key ∈ t.rows.map DeliveryAttempt.key then t.rows else t.rows ++ [a] := by
  change ((t.insert a).getD t).rows = _
  by_cases taken : a.key ∈ t.rows.map DeliveryAttempt.key
  · rw [if_pos taken,Table.insert,dif_neg (not_not.mpr taken)]
    rfl
  · rw [if_neg taken,Table.insert,dif_pos taken]
    rfl

theorem attemptNumbers_reserve {d : Delivery} (ok : reserveDelivery host settings store r now = some (store',some d)) (key : String)
    (numbered : (store.attemptNumbers key).Perm (List.range' 1 (store.attemptCount key))) :
    (store'.attemptNumbers key).Perm (List.range' 1 (store'.attemptCount key)) := by
  obtain ⟨_,next,_,attempts⟩ := reserve_granted ok
  rw [attemptCount_reserve ok]
  unfold Store.attemptNumbers at *
  rw [attempts,rows_insertNew_fresh]
  by_cases here : r.deliveryKey = key
  · -- the next number is not in the table yet
    rw [if_neg]
    · rw [if_pos here,List.filter_append,List.map_append,List.range'_concat]
      simp only [List.filter_singleton,here,decide_true,cond_true,List.map_singleton]
      rw [next,here,Nat.one_mul,Nat.add_comm 1]
      exact numbered.append_right _
    · intro taken
      obtain ⟨a,member,same⟩ := List.mem_map.mp taken
      simp only [DeliveryAttempt.key,Prod.mk.injEq] at same
      have inside : a.attemptNo ∈ List.range' 1 (store.attemptCount key) := by
        apply numbered.mem_iff.mp
        exact List.mem_map.mpr ⟨a,List.mem_filter.mpr ⟨member,by simp [same.1,here]⟩,rfl⟩
      rw [List.mem_range'_1,same.2,next,here] at inside
      omega
  · rw [if_neg here,Nat.add_zero]
    split
    · exact numbered
    · simpa [List.filter_append,here] using numbered

end Statements

/-- The counts after so many calls of `send_text` and granted reservations: a worker that
has yet to send its reservation is pending. -/
structure Tally (settings : Settings) (key : String) (sends grants : Nat) (s : World) : Prop where
  count : s.store.attemptCount key = grants
  numbered : (s.store.attemptNumbers key).Perm (List.range' 1 (s.store.attemptCount key))
  bound : grants ≤ max 1 settings.deliveryMaxAttempts
  pending : ∃ pending : Finset Worker, (∀ w n, s.phase w = .reserved key n → w ∈ pending) ∧ sends + pending.card ≤ grants

variable {host : Host} {settings : Settings} {key : String} {s s' : World} {sends grants : Nat}

theorem Tally.kept (tally : Tally settings key sends grants s)
    (counts : s'.store.attemptCount key = s.store.attemptCount key ∧ s'.store.attemptNumbers key = s.store.attemptNumbers key)
    (phases : ∀ w n, s'.phase w = .reserved key n → s.phase w = .reserved key n) : Tally settings key sends grants s' where
  count := counts.1.trans tally.count
  numbered := by
    rw [counts.1,counts.2]
    exact tally.numbered
  bound := tally.bound
  pending := by
    obtain ⟨pending,held,enough⟩ := tally.pending
    exact ⟨pending,fun w n here => held w n (phases w n here),enough⟩

theorem World.unsent_move {w : Worker} {p : Phase} (v : Worker) (n : Nat)
    (here : (s.move w p).phase v = .reserved key n) (leaves : p ≠ .reserved key n := by simp) : s.phase v = .reserved key n ∧ v ≠ w := by
  rw [World.phase_move] at here
  split at here
  · exact absurd here leaves
  · rename_i other
    exact ⟨here,other⟩

theorem Sending.phase_ne (result : Sending) (held : String) (attempt : Nat) (key : String) (n : Nat) :
    result.phase held attempt ≠ .reserved key n := by
  cases result <;> simp [Sending.phase]

theorem Tally.granted {w : Worker} {r : Reservation} {now : Time} {store : Store} {d : Delivery} (tally : Tally settings key sends grants s)
    (ok : reserveDelivery host settings s.store r now = some (store,some d)) :
    Tally settings key sends (grants + if r.deliveryKey = key then 1 else 0)
      ({s with store}.move w (.reserved d.deliveryKey d.attemptCount)) := by
  obtain ⟨same,next,bound,_⟩ := reserve_granted ok
  have count : store.attemptCount key = grants + if r.deliveryKey = key then 1 else 0 := by
    rw [attemptCount_reserve ok,tally.count]
  refine ⟨count,attemptNumbers_reserve ok key tally.numbered,?_,?_⟩
  · split
    · rename_i here
      rw [next,here,tally.count] at bound
      exact bound
    · exact tally.bound
  · obtain ⟨pending,held,enough⟩ := tally.pending
    by_cases here : r.deliveryKey = key
    · refine ⟨insert w pending,?_,?_⟩
      · intro v n unsent
        rw [World.phase_move] at unsent
        split at unsent
        · rename_i equal
          exact equal ▸ Finset.mem_insert_self ..
        · exact Finset.mem_insert_of_mem (held v n unsent)
      · have more := Finset.card_insert_le w pending
        rw [if_pos here]
        omega
    · refine ⟨pending,?_,by omega⟩
      intro v n unsent
      rw [World.phase_move] at unsent
      split at unsent
      · cases unsent
        exact absurd same.symm here
      · exact held v n unsent

theorem tally_step {e : Event} (tally : Tally settings key sends grants s) (step : Step host settings s e s') :
    Tally settings key (sends + if e.sends key then 1 else 0) (grants + if e.grants key then 1 else 0) s' := by
  cases e with
  | reserve w r now granted =>
    simp only [Step,next] at step
    split at step
    swap
    · cases step
    obtain ⟨⟨store,row⟩,ok,rest⟩ := Option.bind_eq_some_iff.mp step
    dsimp only at rest
    split at rest
    · cases rest
      simpa [Event.sends,Event.grants] using tally.granted ok
    · cases rest
      obtain ⟨deliveries,attempts⟩ := reserve_refused ok
      apply tally.kept
      · exact ⟨by simp [World.move,Store.attemptCount,deliveries],by simp [World.move,Store.attemptNumbers,attempts]⟩
      · exact fun v n here => (World.unsent_move v n here).1
    · cases rest
  | look w =>
    simp only [Step,next] at step
    split at step <;> cases step
    exact tally.kept ⟨rfl,rfl⟩ (fun v n here => (World.unsent_move v n here).1)
  | send w sent result =>
    simp only [Step,next] at step
    split at step
    swap
    · cases step
    rename_i held attempt here
    split at step <;> cases step
    rename_i same
    have unsent (v : Worker) (n : Nat) (left : (s.move w (result.phase sent attempt)).phase v = .reserved key n) :=
      World.unsent_move v n left (result.phase_ne sent attempt key n)
    by_cases ours : sent = key
    · obtain ⟨pending,inside,enough⟩ := tally.pending
      refine ⟨tally.count,tally.numbered,tally.bound,pending.erase w,?_,?_⟩
      · intro v n left
        obtain ⟨before,other⟩ := unsent v n left
        exact Finset.mem_erase.mpr ⟨other,inside v n before⟩
      · have member : w ∈ pending := inside w attempt (by rw [here,same.1,ours])
        have fewer := Finset.card_erase_add_one member
        simp only [Event.sends,Event.grants,ours,decide_true,if_true]
        omega
    · have kept : Tally settings key sends grants (s.move w (result.phase sent attempt)) :=
        tally.kept ⟨rfl,rfl⟩ (fun v n left => (unsent v n left).1)
      simpa [Event.sends,Event.grants,ours] using kept
  | fake w =>
    simp only [Step,next] at step
    split at step
    · split at step <;> cases step
      exact tally.kept ⟨rfl,rfl⟩ (fun v n here => (World.unsent_move v n here).1)
    · cases step
  | mark w now =>
    simp only [Step,next] at step
    split at step <;> cases step <;>
      exact tally.kept (updateStatus_counts key) (fun v n here => (World.unsent_move v n here).1)
  | crash w =>
    cases step
    exact tally.kept ⟨rfl,rfl⟩ (fun v n here => (World.unsent_move v n here).1)
  | recover now =>
    cases step
    exact tally.kept (recover_counts key) (fun _ _ here => here)

theorem tally_run {events : List Event} (tally : Tally settings key sends grants s) (run : Run (Step host settings) s events s') :
    Tally settings key (sends + events.countP (Event.sends key)) (grants + events.countP (Event.grants key)) s' := by
  induction run generalizing sends grants with
  | nil => exact tally
  | cons head _ ih =>
    rw [List.countP_cons,List.countP_cons,Nat.add_comm (List.countP _ _),Nat.add_comm (List.countP _ _),← Nat.add_assoc,← Nat.add_assoc]
    exact ih (tally_step tally head)

structure Store.Untouched (store : Store) (key : String) : Prop where
  row : ∀ d ∈ store.deliveries, d.deliveryKey ≠ key
  attempts : ∀ a ∈ store.attempts, a.deliveryKey ≠ key

theorem tally_start (quiet : s.quiet) (untouched : s.store.Untouched key) : Tally settings key 0 0 s where
  count := attemptCount_absent untouched.row
  numbered := by
    have none_ : s.store.attempts.rows.filter (fun a => a.deliveryKey = key) = [] := by
      rw [List.filter_eq_nil_iff]
      exact fun a member => by simpa using untouched.attempts a member
    simp [Store.attemptNumbers,none_,attemptCount_absent untouched.row]
  bound := Nat.zero_le _
  pending := ⟨∅,fun w n here => by simp [quiet w] at here,le_refl _⟩

/-- In every run from the first reservation of a key on: `send_text` is started for it once
for each granted reservation at most, these are as many as the row counts and the attempts
number, and the bound on attempts holds, but for a bound of 0. -/
theorem sends_bounded (host : Host) (settings : Settings) (key : String) {start s s' : World} {before after : List Event}
    (quiet : start.quiet) (untouched : start.store.Untouched key)
    (reached : Run (Step host settings) start before s) (run : Run (Step host settings) s after s') :
    before.countP (Event.sends key) ≤ max 1 settings.deliveryMaxAttempts ∧
      s.store.attemptCount key = before.countP (Event.grants key) ∧
      (s.store.attemptNumbers key).Perm (List.range' 1 (s.store.attemptCount key)) ∧
      s.store.attemptCount key ≤ s'.store.attemptCount key := by
  have tally := tally_run (tally_start quiet untouched) reached
  have later := tally_run tally run
  simp only [Nat.zero_add] at tally later
  obtain ⟨pending,_,enough⟩ := tally.pending
  have bound := tally.bound
  refine ⟨by omega,tally.count,tally.numbered,?_⟩
  rw [tally.count,later.count]
  exact Nat.le_add_right ..

theorem sends_bounded_takeover : takenOver.countP (Event.sends "k") ≤ 3 ∧
    (idleWorld.after takenOver).store.attemptCount "k" = 2 := by
  have run : Run (Step asciiHost threeAttempts) idleWorld takenOver (idleWorld.after takenOver) := .of_foldlM rfl
  have bounds := sends_bounded asciiHost threeAttempts "k" (fun _ => rfl)
    ⟨fun d member => absurd member (Table.not_mem_empty d),fun a member => absurd member (Table.not_mem_empty a)⟩ run (.nil _)
  exact ⟨bounds.1,bounds.2.1⟩

/-- The first reservation is not held against the bound. -/
theorem first_send_unbounded :
    ¬ ∀ (host : Host) (settings : Settings) (key : String) (start s : World) (events : List Event), start.quiet →
      start.store.Untouched key → Run (Step host settings) start events s →
      events.countP (Event.sends key) ≤ settings.deliveryMaxAttempts := by
  intro bounded
  have computed : ([.reserve 0 {deliveryKey := "k",spaceId := "room"} 0 true,.send 0 "k" .returns] : List Event).foldlM
      (next asciiHost ⟨0,120,false⟩) idleWorld = some _ := rfl
  have bad := bounded asciiHost ⟨0,120,false⟩ "k" idleWorld _ _ (fun _ => rfl)
    ⟨fun d member => absurd member (Table.not_mem_empty d),fun a member => absurd member (Table.not_mem_empty a)⟩ (.of_foldlM computed)
  exact absurd bad (by decide)

end Suixinji.Deliveries
