import Suixinji.Relational.Evolution
import Suixinji.Deliveries.Store

/-! A settled delivery stays settled as long as only the worker of the current
reservation sends and marks. -/
namespace Suixinji.Deliveries
open Suixinji.Relational Suixinji.Dispatch Suixinji.Transition

/-- The worker's reservation is the last one the row has seen. -/
def World.current (s : World) (w : Worker) : Prop :=
  ∃ key n, (s.phase w).holds = some (key,n) ∧ ∃ d ∈ s.store.deliveries, d.deliveryKey = key ∧ d.attemptCount = n

def Current (s : World) : Event → Prop
  | .send w .. | .mark w _ => s.current w
  | _ => True

structure Sound (s : World) : Prop where
  held : ∀ w key n, (s.phase w).holds = some (key,n) →
    ∃ d ∈ s.store.deliveries, d.deliveryKey = key ∧ n ≤ d.attemptCount
  own : ∀ v w key n, (s.phase v).holds = some (key,n) → (s.phase w).holds = some (key,n) → v = w
  settled : ∀ d ∈ s.store.deliveries, d.status.settled →
    ∀ w, (s.phase w).holds ≠ some (d.deliveryKey,d.attemptCount)

theorem sound_quiet {s : World} (quiet : s.quiet) : Sound s where
  held w key n held := by simp [quiet w,Phase.holds] at held
  own v w key n held := by simp [quiet v,Phase.holds] at held
  settled d _ _ w := by simp [quiet w,Phase.holds]

theorem World.phase_move (s : World) (v w : Worker) (p : Phase) :
    (s.move w p).phase v = if v = w then p else s.phase v := by
  simp [World.move,Function.update_apply]

theorem Sound.move {s : World} {w : Worker} {p : Phase} (sound : Sound s)
    (kept : ∀ r, p.holds = some r → (s.phase w).holds = some r) : Sound (s.move w p) := by
  have before : ∀ v r, ((s.move w p).phase v).holds = some r → (s.phase v).holds = some r := by
    intro v r held
    rw [World.phase_move] at held
    split at held
    · rename_i same
      exact same ▸ kept r held
    · exact held
  exact {
    held := fun v key n held => sound.held v key n (before v _ held)
    own := fun u v key n first second => sound.own u v key n (before u _ first) (before v _ second)
    settled := fun d member settled v held => sound.settled d member settled v (before v _ held)}

theorem mem_write {store : Store} {row : Delivery} {deliveries : Table Delivery.deliveryKey}
    (written : store.write (store.deliveries.find? row.deliveryKey) row = some deliveries) (d : Delivery) :
    d ∈ deliveries ↔ d = row ∨ (d ∈ store.deliveries ∧ d.deliveryKey ≠ row.deliveryKey) := by
  cases found : store.deliveries.find? row.deliveryKey with
  | none =>
    rw [found] at written
    rw [Table.mem_insert written]
    constructor
    · rintro (member | rfl)
      · exact .inr ⟨member,Table.find?_eq_none.mp found d member⟩
      · exact .inl rfl
    · rintro (rfl | ⟨member,_⟩)
      · exact .inr rfl
      · exact .inl member
  | some old =>
    rw [found] at written
    cases Option.some.inj written
    obtain ⟨member,same⟩ := Table.find?_eq_some.mp found
    rw [Table.mem_put]
    constructor
    · rintro (⟨member,other⟩ | ⟨rfl,_⟩)
      · exact .inr ⟨member,other⟩
      · exact .inl rfl
    · rintro (rfl | ⟨member,other⟩)
      · exact .inr ⟨rfl,old,member,same⟩
      · exact .inl ⟨member,other⟩

theorem reserveDelivery_spec {host : Host} {settings : Settings} {store store' : Store} {r : Reservation}
    {now : Time} {row : Option Delivery}
    (ok : reserveDelivery host settings store r now = some (store',row)) :
    (row = none ∧ store'.deliveries = store.deliveries) ∨
      ∃ d', row = some d' ∧ d'.deliveryKey = r.deliveryKey ∧ d'.status = .reserved ∧
        (∀ d, d ∈ store'.deliveries ↔ d = d' ∨ (d ∈ store.deliveries ∧ d.deliveryKey ≠ d'.deliveryKey)) ∧
        ∀ d ∈ store.deliveries, d.deliveryKey = d'.deliveryKey →
          d.status.settled = false ∧ d'.attemptCount = d.attemptCount + 1 := by
  unfold reserveDelivery at ok
  obtain ⟨⟨db,spaceId⟩,_,rest⟩ := Option.bind_eq_some_iff.mp ok
  dsimp only at rest
  split at rest
  · cases rest
    exact .inl ⟨rfl,rfl⟩
  rename_i free
  simp only [Option.bind_eq_bind,Option.bind_eq_some_iff,Option.pure_def,Option.some.injEq,Prod.mk.injEq] at rest
  obtain ⟨deliveries,written,rfl,rfl⟩ := rest
  refine .inr ⟨_,rfl,rfl,rfl,mem_write written,?_⟩
  intro d member same
  have found : store.deliveries.find? r.deliveryKey = some d := Table.find?_eq_some.mpr ⟨member,same⟩
  have reservable : d.reservable settings now = true := by simpa [found] using free
  simp only [Delivery.reservable,Bool.and_eq_true,Bool.not_eq_true'] at reservable
  exact ⟨reservable.1.1,by simp [Reservation.row,found]⟩

theorem mem_updateStatus {store : Store} {key : String} {status : DeliveryStatus} {error : Option String}
    {now : Time} {d : Delivery} : d ∈ (updateStatus store key status error now).deliveries ↔
      (d ∈ store.deliveries ∧ d.deliveryKey ≠ key) ∨
        ∃ old ∈ store.deliveries, old.deliveryKey = key ∧ d = old.withStatus status error now := by
  unfold updateStatus
  split
  · rename_i absent
    have absent := Table.find?_eq_none.mp absent
    constructor
    · exact fun member => .inl ⟨member,absent d member⟩
    · rintro (⟨member,_⟩ | ⟨old,member,same,_⟩)
      · exact member
      · exact absurd same (absent old member)
  · rename_i old found
    obtain ⟨inside,same⟩ := Table.find?_eq_some.mp found
    change d ∈ store.deliveries.put (old.withStatus status error now) ↔ _
    rw [Table.mem_put]
    constructor
    · rintro (⟨member,other⟩ | ⟨rfl,_⟩)
      · exact .inl ⟨member,fun equal => other (equal.trans same.symm)⟩
      · exact .inr ⟨old,inside,same,rfl⟩
    · rintro (⟨member,other⟩ | ⟨row,member,same',rfl⟩)
      · exact .inl ⟨member,fun equal => other (equal.trans same)⟩
      · rw [store.deliveries.unique member inside (same'.trans same.symm)]
        exact .inr ⟨rfl,old,inside,rfl⟩

theorem sound_reserve {host : Host} {settings : Settings} {s : World} {w : Worker} {r : Reservation}
    {now : Time} {store : Store} {d' : Delivery} (sound : Sound s) (idle : s.phase w = .idle)
    (ok : reserveDelivery host settings s.store r now = some (store,some d')) :
    Sound ({s with store}.move w (.reserved d'.deliveryKey d'.attemptCount)) := by
  rcases reserveDelivery_spec ok with ⟨none_,_⟩ | ⟨_,same,_,status,rows,old⟩
  · cases none_
  cases Option.some.inj same
  -- every other worker holds an attempt below the new one
  have held_cases : ∀ v key n,
      (({s with store}.move w (.reserved d'.deliveryKey d'.attemptCount)).phase v).holds = some (key,n) →
      (v = w ∧ key = d'.deliveryKey ∧ n = d'.attemptCount) ∨
        ((s.phase v).holds = some (key,n) ∧ v ≠ w ∧ (key = d'.deliveryKey → n < d'.attemptCount)) := by
    intro v key n held
    rw [World.phase_move] at held
    split at held
    · rename_i equal
      simp only [Phase.holds,Option.some.injEq,Prod.mk.injEq] at held
      exact .inl ⟨equal,held.1.symm,held.2.symm⟩
    · rename_i other
      refine .inr ⟨held,other,?_⟩
      rintro rfl
      obtain ⟨d,member,key,bound⟩ := sound.held v _ n held
      have := (old d member key).2
      omega
  constructor
  · intro v key n held
    rcases held_cases v key n held with ⟨_,rfl,rfl⟩ | ⟨before,_,below⟩
    · exact ⟨d',(rows d').mpr (.inl rfl),rfl,le_refl _⟩
    · by_cases here : key = d'.deliveryKey
      · exact ⟨d',(rows d').mpr (.inl rfl),here.symm,le_of_lt (below here)⟩
      · obtain ⟨d,member,same,bound⟩ := sound.held v key n before
        exact ⟨d,(rows d).mpr (.inr ⟨member,fun equal => here (same.symm.trans equal)⟩),same,bound⟩
  · intro u v key n first second
    rcases held_cases u key n first with ⟨rfl,rfl,rfl⟩ | ⟨before,_,below⟩
    · rcases held_cases v _ _ second with ⟨rfl,_⟩ | ⟨_,_,below⟩
      · rfl
      · exact absurd (below rfl) (lt_irrefl _)
    · rcases held_cases v key n second with ⟨rfl,rfl,rfl⟩ | ⟨before',_,_⟩
      · exact absurd (below rfl) (lt_irrefl _)
      · exact sound.own u v key n before before'
  · intro d member settled v held
    rcases (rows d).mp member with rfl | ⟨member,other⟩
    · rw [status] at settled
      cases settled
    · rcases held_cases v _ _ held with ⟨_,equal,_⟩ | ⟨before,_,_⟩
      · exact other equal
      · exact sound.settled d member settled v before

theorem sound_mark {s : World} {w : Worker} {key : String} {n : Nat} {status : DeliveryStatus}
    {error : Option String} {now : Time} (sound : Sound s) (holds : (s.phase w).holds = some (key,n))
    (current : s.current w) :
    Sound ({s with store := updateStatus s.store key status error now}.move w .idle) := by
  have before : ∀ v r, (({s with store := updateStatus s.store key status error now}.move w .idle).phase v).holds =
      some r → (s.phase v).holds = some r ∧ v ≠ w := by
    intro v r held
    rw [World.phase_move] at held
    split at held
    · cases held
    · rename_i other
      exact ⟨held,other⟩
  constructor
  · intro v key' m held
    obtain ⟨d,member,same,bound⟩ := sound.held v key' m (before v _ held).1
    by_cases here : d.deliveryKey = key
    · exact ⟨_,mem_updateStatus.mpr (.inr ⟨d,member,here,rfl⟩),same,bound⟩
    · exact ⟨d,mem_updateStatus.mpr (.inl ⟨member,here⟩),same,bound⟩
  · exact fun u v key' m first second => sound.own u v key' m (before u _ first).1 (before v _ second).1
  · intro d there settled v held
    obtain ⟨held,other⟩ := before v _ held
    rcases mem_updateStatus.mp there with ⟨member,_⟩ | ⟨old,member,here,rfl⟩
    · exact sound.settled d member settled v held
    · obtain ⟨key',m,held',d,inside,same,count⟩ := current
      have equal : key = key' ∧ n = m := by simpa using holds.symm.trans held'
      have row : d = old := s.store.deliveries.unique inside member (same.trans (equal.1.symm.trans here.symm))
      change (s.phase v).holds = some (old.deliveryKey,old.attemptCount) at held
      rw [← row,count,same] at held
      exact other (sound.own v w key' m held held')

theorem sound_recover {s : World} (sound : Sound s) (now : Time) :
    Sound {s with store := (recoverStaleReservedDeliveries s.store now).1} := by
  have rows : Table.Evolves (fun d d' => d'.attemptCount = d.attemptCount ∧ (d'.status.settled → d' = d))
      (fun _ => False) s.store.deliveries (recoverStaleReservedDeliveries s.store now).1.deliveries :=
    .of_updateWhere rfl (fun d _ _ => ⟨rfl,rfl,nofun⟩) (fun d _ _ => ⟨rfl,fun _ => rfl⟩)
  constructor
  · intro w key n held
    obtain ⟨d,member,same,bound⟩ := sound.held w key n held
    obtain ⟨d',there,same',count,_⟩ := rows.kept d member
    exact ⟨d',there,same'.trans same,by omega⟩
  · exact sound.own
  · intro d' there settled w held
    obtain ⟨d,member,_,_,equal⟩ | never := rows.origin d' there
    · have row := equal settled
      subst row
      exact sound.settled d' member settled w held
    · exact never

theorem step_sound {host : Host} {settings : Settings} {s s' : World} {e : Event} (sound : Sound s)
    (current : Current s e) (step : Step host settings s e s') : Sound s' := by
  cases e with
  | reserve w r now granted =>
    simp only [Step,next] at step
    split at step
    swap
    · cases step
    rename_i idle
    obtain ⟨⟨store,row⟩,ok,rest⟩ := Option.bind_eq_some_iff.mp step
    dsimp only at rest
    split at rest
    · cases rest
      exact sound_reserve sound idle ok
    · cases rest
      rcases reserveDelivery_spec ok with ⟨_,same⟩ | ⟨_,none_,_⟩
      · have kept : Sound {s with store} := by
          constructor
          · exact same ▸ sound.held
          · exact sound.own
          · exact same ▸ sound.settled
        exact kept.move (fun _ held => nomatch held)
      · cases none_
    · cases rest
  | look w =>
    simp only [Step,next] at step
    split at step <;> cases step
    exact sound.move (fun _ held => nomatch held)
  | send w key result =>
    simp only [Step,next] at step
    split at step
    · rename_i held attempt here
      split at step <;> cases step
      rename_i same
      apply sound.move
      rw [here,same.1]
      intro r held
      cases result <;> exact held
    · cases step
  | fake w =>
    simp only [Step,next] at step
    split at step
    · rename_i key attempt here
      split at step <;> cases step
      exact sound.move (fun r held => by rw [here]; exact held)
    · cases step
  | mark w now =>
    simp only [Step,next] at step
    split at step <;> cases step <;> rename_i here <;>
      exact sound_mark sound (by rw [here]; rfl) current
  | crash w =>
    cases step
    exact sound.move (fun _ held => nomatch held)
  | recover now =>
    cases step
    exact sound_recover sound now

/-- A granted reservation of the key, or a call of `send_text` for it. -/
def Event.delivers (key : String) : Event → Bool
  | .reserve _ r _ granted => granted && r.deliveryKey = key
  | .send _ sent _ => sent = key
  | _ => false

theorem step_settled {host : Host} {settings : Settings} {s s' : World} {e : Event} {d : Delivery}
    (sound : Sound s) (current : Current s e) (step : Step host settings s e s')
    (member : d ∈ s.store.deliveries) (settled : d.status.settled) :
    d ∈ s'.store.deliveries ∧ ¬ e.delivers d.deliveryKey := by
  -- whoever is current for the key would hold the attempt that is settled
  have others : ∀ w key n, (s.phase w).holds = some (key,n) → s.current w → key ≠ d.deliveryKey := by
    intro w key n holds ⟨key',m,holds',d',inside,same,count⟩ here
    have equal : key = key' ∧ n = m := by simpa using holds.symm.trans holds'
    have row : d' = d := s.store.deliveries.unique inside member (same.trans (equal.1.symm.trans here))
    exact sound.settled d member settled w (by rw [holds,here,equal.2,← count,row])
  cases e with
  | reserve w r now granted =>
    simp only [Step,next] at step
    split at step
    swap
    · cases step
    obtain ⟨⟨store,row⟩,ok,rest⟩ := Option.bind_eq_some_iff.mp step
    dsimp only at rest
    split at rest
    · cases rest
      rcases reserveDelivery_spec ok with ⟨none_,_⟩ | ⟨d',same,key,_,rows,old⟩
      · cases none_
      have other : d.deliveryKey ≠ r.deliveryKey := by
        intro equal
        rw [(old d member (equal.trans key.symm)).1] at settled
        cases settled
      refine ⟨(rows d).mpr (.inr ⟨member,fun equal => other (equal.trans key)⟩),?_⟩
      simpa [Event.delivers] using other.symm
    · cases rest
      rcases reserveDelivery_spec ok with ⟨_,same⟩ | ⟨_,none_,_⟩
      · exact ⟨by change d ∈ store.deliveries; rwa [same],by simp [Event.delivers]⟩
      · cases none_
    · cases rest
  | look w =>
    simp only [Step,next] at step
    split at step <;> cases step
    exact ⟨member,by simp [Event.delivers]⟩
  | send w key result =>
    simp only [Step,next] at step
    split at step
    · rename_i held attempt here
      split at step <;> cases step
      rename_i same
      refine ⟨member,?_⟩
      have other := others w held attempt (by rw [here]; rfl) current
      simpa [Event.delivers,← same.1] using other
    · cases step
  | fake w =>
    simp only [Step,next] at step
    split at step
    · split at step <;> cases step
      exact ⟨member,by simp [Event.delivers]⟩
    · cases step
  | mark w now =>
    simp only [Step,next] at step
    split at step <;> cases step <;> rename_i here <;>
      exact ⟨mem_updateStatus.mpr (.inl ⟨member,(others w _ _ (by rw [here]; rfl) current).symm⟩),
        by simp [Event.delivers]⟩
  | crash w =>
    cases step
    exact ⟨member,by simp [Event.delivers]⟩
  | recover now =>
    cases step
    refine ⟨List.mem_map.mpr ⟨d,member,if_neg ?_⟩,by simp [Event.delivers]⟩
    intro stale
    simp only [isReservationExpired,Bool.and_eq_true,decide_eq_true_eq] at stale
    rw [stale.1] at settled
    cases settled

/-- From the quiet start, while the workers that send and mark are the current ones,
a sent or unknown delivery keeps its row, is not reserved again and not sent again. -/
theorem settled_delivery_stays (host : Host) (settings : Settings) {start s s' : World} {before after : List Event}
    (quiet : start.quiet) (reached : Run (Guarded Current (Step host settings)) start before s)
    (run : Run (Guarded Current (Step host settings)) s after s') {d : Delivery}
    (member : d ∈ s.store.deliveries) (settled : d.status.settled) :
    d ∈ s'.store.deliveries ∧ ∀ e ∈ after, ¬ e.delivers d.deliveryKey := by
  have sound : Sound s :=
    reached.invariant Sound (fun _ _ _ sound step => step_sound sound step.1 step.2) (sound_quiet quiet)
  clear reached
  induction run with
  | nil => exact ⟨member,nofun⟩
  | cons head tail ih =>
    obtain ⟨kept,other⟩ := step_settled sound head.1 head.2 member settled
    obtain ⟨last,rest⟩ := ih kept (step_sound sound head.1 head.2)
    exact ⟨last,List.forall_mem_cons.mpr ⟨other,rest⟩⟩

def idleWorld : World := ⟨{},fun _ => .idle⟩

def threeAttempts : Settings := ⟨3,120,false⟩

def takenOver : List Event :=
  [.reserve 0 {deliveryKey := "k",spaceId := "room"} 0 true,
    .reserve 1 {deliveryKey := "k",spaceId := "room"} 120000 true,.send 1 "k" .returns,.mark 1 120001]

def World.after (s : World) (events : List Event) : World :=
  (events.foldlM (next asciiHost threeAttempts) s).getD s

/-- The first worker's own send fails late and it marks the delivery failed, so
that a third worker reserves and sends. -/
def sentAgain : List Event :=
  [.send 0 "k" (.raises "ConnectionError: reset"),.mark 0 120002,
    .reserve 2 {deliveryKey := "k",spaceId := "room"} 120003 true,.send 2 "k" .returns]

theorem settled_delivery_overwritten :
    ¬ ∀ (host : Host) (settings : Settings) (start s s' : World) (before after : List Event), start.quiet →
      Run (Step host settings) start before s → Run (Step host settings) s after s' →
      ∀ d ∈ s.store.deliveries, d.status.settled →
        (∃ d' ∈ s'.store.deliveries, d'.deliveryKey = d.deliveryKey ∧ d'.status = d.status) ∧
        ∀ e ∈ after, ¬ e.delivers d.deliveryKey := by
  intro stays
  have first : takenOver.foldlM (next asciiHost threeAttempts) idleWorld = some (idleWorld.after takenOver) := rfl
  have second : sentAgain.foldlM (next asciiHost threeAttempts) (idleWorld.after takenOver) =
    some ((idleWorld.after takenOver).after sentAgain) := rfl
  have bad := (stays asciiHost threeAttempts idleWorld _ _ takenOver sentAgain (fun _ => rfl)
    (.of_foldlM first) (.of_foldlM second) _ (List.Mem.head _) rfl).2
  exact bad (.send 2 "k" .returns) (by decide) (by decide)

/-- The takeover alone, whose sender is current, and what can follow it. -/
theorem settled_delivery_stays_takeover : ∃ (s s' : World) (d : Delivery), d ∈ s.store.deliveries ∧
    d.status = .sent ∧ d ∈ s'.store.deliveries ∧ ∀ e ∈ [Event.recover 300000,
      .reserve 2 {deliveryKey := "k",spaceId := "room"} 300001 false], ¬ e.delivers d.deliveryKey := by
  have reached : Run (Guarded Current (Step asciiHost threeAttempts)) idleWorld takenOver
      (idleWorld.after takenOver) :=
    .cons ⟨trivial,rfl⟩ <| .cons ⟨trivial,rfl⟩ <| .cons ⟨⟨"k",2,rfl,_,List.Mem.head _,rfl,rfl⟩,rfl⟩ <|
    .cons ⟨⟨"k",2,rfl,_,List.Mem.head _,rfl,rfl⟩,rfl⟩ <| .nil _
  have run : Run (Guarded Current (Step asciiHost threeAttempts)) (idleWorld.after takenOver)
      [.recover 300000,.reserve 2 {deliveryKey := "k",spaceId := "room"} 300001 false] _ :=
    .cons ⟨trivial,rfl⟩ <| .cons ⟨trivial,rfl⟩ <| .nil _
  have member : _ ∈ (idleWorld.after takenOver).store.deliveries := List.Mem.head _
  obtain ⟨kept,others⟩ := settled_delivery_stays asciiHost threeAttempts (fun _ => rfl) reached run member rfl
  exact ⟨_,_,_,member,rfl,kept,others⟩

end Suixinji.Deliveries
