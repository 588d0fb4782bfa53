import Suixinji.Coordination.Lock

/-! Who is inside `coordinated_lock`. Each of its two mutexes excludes; the two
together exclude as long as neither is granted while the other is held. -/
namespace Suixinji.Coordination
open Suixinji.Transition

/-- A PostgreSQL lock is granted only while the Redis key is unset, and the key
is set only while the PostgreSQL lock is not held. -/
def Apart (w : World) : Event → Prop
  | .trySet _ .failed => True
  | .trySet .. => w.redis = none → w.postgres = none
  | .lock _ => w.redis = none
  | _ => True

structure Sound (w : World) : Prop where
  drawn : ∀ p t, (w.phase p).token = some t → t ∈ w.drawn
  stored : ∀ t, w.redis = some t → t ∈ w.drawn
  own : ∀ p q t, (w.phase p).token = some t → (w.phase q).token = some t → p = q
  redis : ∀ p t, w.phase p = .inRedis t → w.redis = some t
  postgres : ∀ p, w.phase p = .inPostgres ∨ w.phase p = .unlocking → w.postgres = some p
  apart : w.redis = none ∨ w.postgres = none

theorem sound_initial : Sound initial where
  drawn p t held := by simp [initial,Phase.token] at held
  stored t held := by simp [initial] at held
  own p q t held := by simp [initial,Phase.token] at held
  redis p t held := by simp [initial] at held
  postgres p held := by simp [initial] at held
  apart := .inl rfl

theorem World.phase_move (w : World) (p q : Process) (dest : Phase) :
    (w.move p dest).phase q = if q = p then dest else w.phase q := by
  simp [World.move,Function.update_apply]

theorem Sound.move {w : World} {p : Process} {dest : Phase} (sound : Sound w)
    (token : ∀ t, dest.token = some t → (w.phase p).token = some t)
    (redis : ∀ t, dest = .inRedis t → w.redis = some t)
    (postgres : dest = .inPostgres ∨ dest = .unlocking → w.postgres = some p) : Sound (w.move p dest) := by
  have kept : ∀ q t, ((w.move p dest).phase q).token = some t → (w.phase q).token = some t := by
    intro q t held
    rw [World.phase_move] at held
    split at held
    · rename_i same
      exact same ▸ token t held
    · exact held
  constructor
  · exact fun q t held => sound.drawn q t (kept q t held)
  · exact sound.stored
  · exact fun q r t first second => sound.own q r t (kept q t first) (kept r t second)
  · intro q t here
    rw [World.phase_move] at here
    split at here
    · exact redis t here
    · exact sound.redis q t here
  · intro q here
    rw [World.phase_move] at here
    split at here
    · rename_i same
      exact same ▸ postgres here
    · exact sound.postgres q here
  · exact sound.apart

theorem Sound.call {w : World} {p : Process} {t : Token} (sound : Sound w) (fresh : t ∉ w.drawn) :
    Sound ({w with drawn := t::w.drawn}.move p (.acquiring t)) := by
  have held_cases : ∀ q s, (({w with drawn := t::w.drawn}.move p (.acquiring t)).phase q).token = some s →
      (q = p ∧ s = t) ∨ (w.phase q).token = some s := by
    intro q s held
    rw [World.phase_move] at held
    split at held
    · rename_i same
      exact .inl ⟨same,by simpa [Phase.token] using held.symm⟩
    · exact .inr held
  have used : ∀ q s, (w.phase q).token = some s → s ≠ t := by
    rintro q s held rfl
    exact fresh (sound.drawn q s held)
  constructor
  · intro q s held
    rcases held_cases q s held with ⟨_,rfl⟩ | old
    · exact List.mem_cons_self
    · exact List.mem_cons_of_mem _ (sound.drawn q s old)
  · exact fun s held => List.mem_cons_of_mem _ (sound.stored s held)
  · intro q r s first second
    rcases held_cases q s first with ⟨rfl,rfl⟩ | old
    · rcases held_cases r s second with ⟨rfl,_⟩ | old
      · rfl
      · exact absurd rfl (used r s old)
    · rcases held_cases r s second with ⟨rfl,rfl⟩ | old'
      · exact absurd rfl (used q s old)
      · exact sound.own q r s old old'
  · intro q s here
    rw [World.phase_move] at here
    split at here
    · cases here
    · exact sound.redis q s here
  · intro q here
    rw [World.phase_move] at here
    split at here
    · simp at here
    · exact sound.postgres q here
  · exact sound.apart

theorem Sound.set {w : World} {t : Token} (sound : Sound w) (drawn : t ∈ w.drawn)
    (apart : w.redis = none → w.postgres = none) : Sound (w.set t) := by
  unfold World.set
  split
  · rename_i free
    refine {sound with stored := ?_,redis := ?_,apart := .inr (apart free)}
    · intro s held
      cases Option.some.inj held
      exact drawn
    · intro q s here
      have held := sound.redis q s here
      rw [free] at held
      cases held
  · exact sound

/-- The key is gone; no process was inside by its token. -/
theorem Sound.unset {w : World} (sound : Sound w)
    (unused : ∀ q s, w.phase q = .inRedis s → w.redis ≠ some s) : Sound {w with redis := none} :=
  {sound with
    stored := fun _ held => nomatch held
    redis := fun q s here => absurd (sound.redis q s here) (unused q s here)
    apart := .inl rfl}

theorem Sound.delete {w : World} {p : Process} {t : Token} (sound : Sound w)
    (here : w.phase p = .releasing t) : Sound (w.delete t) := by
  unfold World.delete
  split
  · rename_i held
    apply sound.unset
    intro q s inside same
    have tokens : t = s := Option.some.inj (held.symm.trans same)
    have processes : p = q := sound.own p q t (by rw [here]; rfl) (by rw [inside,tokens]; rfl)
    rw [← processes,here] at inside
    cases inside
  · exact sound

theorem Sound.lock {w : World} {p : Process} (sound : Sound w) (free : w.postgres = none)
    (apart : w.redis = none) : Sound {w with postgres := some p} :=
  {sound with
    postgres := fun q here => by
      have held := sound.postgres q here
      rw [free] at held
      cases held
    apart := .inl apart}

theorem Sound.unlock {w : World} {p : Process} (sound : Sound w) (here : w.phase p = .unlocking) :
    Sound ({w with postgres := none}.move p .outside) := by
  have held := sound.postgres p (.inr here)
  have moved : Sound (w.move p .outside) :=
    sound.move (fun _ held => nomatch held) (fun _ out => nomatch out) (fun out => by simp at out)
  refine {moved with postgres := ?_,apart := .inr rfl}
  intro q there
  change (w.move p .outside).phase q = .inPostgres ∨ (w.move p .outside).phase q = .unlocking at there
  have owner : w.postgres = some q := moved.postgres q there
  have same : p = q := Option.some.inj (held.symm.trans owner)
  rw [World.phase_move,if_pos same.symm] at there
  simp at there

theorem step_sound {w w' : World} {e : Event} (sound : Sound w) (apart : Apart w e) (step : Step w e w') :
    Sound w' := by
  obtain ⟨taken,renewed⟩ := step
  have moveOut : ∀ {w : World} p, Sound w → Sound (w.move p .outside) := fun p sound =>
    sound.move (fun _ held => nomatch held) (fun _ out => nomatch out) (fun out => by simp at out)
  have moveFallback : ∀ {w : World} p, Sound w → Sound (w.move p .fallback) := fun p sound =>
    sound.move (fun _ held => nomatch held) (fun _ out => nomatch out) (fun out => by simp at out)
  cases e with
  | call p t =>
    simp only [next] at taken
    split at taken <;> cases taken
    rename_i ok
    exact sound.call ok.2
  | noClient p =>
    simp only [next] at taken
    split at taken <;> cases taken
    exact moveFallback p sound
  | trySet p answer =>
    simp only [next] at taken
    split at taken <;> cases taken
    · rename_i t here
      have drawn : t ∈ w.drawn := sound.drawn p t (by rw [here]; rfl)
      have same : (w.set t).phase p = w.phase p := by unfold World.set; split <;> rfl
      apply (sound.set drawn apart).move
      · intro s held
        rw [same,here]
        split at held <;> exact held
      · intro s entered
        split at entered <;> cases entered
        rename_i free
        simp [World.set,free]
      · intro entered
        split at entered <;> simp at entered
    · exact moveFallback p sound
    · rename_i t here
      have drawn : t ∈ w.drawn := sound.drawn p t (by rw [here]; rfl)
      exact moveFallback p (sound.set drawn apart)
  | retry p =>
    simp only [next] at taken
    split at taken <;> cases taken
    rename_i t here
    exact sound.move (fun s held => by rw [here]; exact held) (fun _ out => nomatch out)
      (fun out => by simp at out)
  | giveUp p =>
    simp only [next] at taken
    split at taken <;> cases taken
    exact moveFallback p sound
  | leave p =>
    simp only [next] at taken
    split at taken <;> cases taken
    · rename_i t here
      exact sound.move (fun s held => by rw [here]; exact held) (fun _ out => nomatch out)
        (fun out => by simp at out)
    · rename_i here
      exact sound.move (fun _ held => nomatch held) (fun _ out => nomatch out)
        (fun _ => sound.postgres p (.inl here))
  | release p answer =>
    simp only [next] at taken
    split at taken <;> cases taken
    rename_i t here
    apply moveOut
    split
    · exact sound
    · exact sound.delete here
  | expire =>
    cases taken
    exact sound.unset (renewed rfl)
  | lock p =>
    simp only [next] at taken
    split at taken <;> cases taken
    rename_i ok
    exact (sound.lock ok.2 apart).move (fun _ held => nomatch held) (fun _ out => nomatch out) (fun _ => rfl)
  | lockFails p =>
    simp only [next] at taken
    split at taken <;> cases taken
    exact moveOut p sound
  | unlock p answer =>
    simp only [next] at taken
    split at taken <;> cases taken
    rename_i here
    split
    · exact moveOut p sound
    · exact sound.unlock here

/-- Both branches exclude, and the two locks are never held together. -/
theorem Sound.exclusive {w : World} (sound : Sound w) : Exclusive w := by
  intro p q first second
  have entry : ∀ r, (w.phase r).inside → (∃ t, w.phase r = .inRedis t) ∨ w.phase r = .inPostgres := by
    intro r inside
    cases here : w.phase r <;> simp_all [Phase.inside]
  rcases entry p first with ⟨t,p_redis⟩ | p_postgres <;> rcases entry q second with ⟨s,q_redis⟩ | q_postgres
  · have same : t = s := Option.some.inj ((sound.redis p t p_redis).symm.trans (sound.redis q s q_redis))
    exact sound.own p q t (by rw [p_redis]; rfl) (by rw [q_redis,same]; rfl)
  · have locked := sound.postgres q (.inl q_postgres)
    have keyed := sound.redis p t p_redis
    rcases sound.apart with free | free <;> simp_all
  · have locked := sound.postgres p (.inl p_postgres)
    have keyed := sound.redis q s q_redis
    rcases sound.apart with free | free <;> simp_all
  · exact Option.some.inj ((sound.postgres p (.inl p_postgres)).symm.trans (sound.postgres q (.inl q_postgres)))

/-- A second process times out on the key of the first and enters by PostgreSQL. -/
theorem coordinatedLock_not_exclusive :
    ¬ ∀ events w, Run Step initial events w → Exclusive w := by
  intro exclusive
  have run : Run Step initial
      [.call 0 10,.trySet 0 .replied,.call 1 11,.trySet 1 .replied,.giveUp 1,.lock 1] _ :=
    .cons ⟨rfl,by simp [Renewed]⟩ <| .cons ⟨rfl,by simp [Renewed]⟩ <| .cons ⟨rfl,by simp [Renewed]⟩ <|
    .cons ⟨rfl,by simp [Renewed]⟩ <| .cons ⟨rfl,by simp [Renewed]⟩ <| .cons ⟨rfl,by simp [Renewed]⟩ <| .nil _
  have same := exclusive _ _ run 0 1 rfl rfl
  cases same

/-- While the two locks are never granted together, one process at a time is inside. -/
theorem coordinatedLock_exclusive {events : List Event} {w : World}
    (run : Run (Guarded Apart Step) initial events w) : Exclusive w := by
  have sound : Sound w :=
    run.invariant Sound (fun _ _ _ sound step => step_sound sound step.1 step.2) sound_initial
  exact sound.exclusive

/-- The second process waits for the first to release the key; Redis goes down while it is
inside by PostgreSQL's lock that a third then waits for. -/
theorem coordinatedLock_exclusive_handover :
    ∃ events w, Run (Guarded Apart Step) initial events w ∧ (w.phase 1).inside ∧ Exclusive w := by
  have step {w w' : World} {e : Event} (apart : Apart w e) (taken : next w e = some w')
      (kept : e ≠ .expire) : Guarded Apart Step w e w' := ⟨apart,taken,fun same => absurd same kept⟩
  have run : Run (Guarded Apart Step) initial
      [.call 0 10,.trySet 0 .replied,.call 1 11,.trySet 1 .replied,.leave 0,.release 0 .replied,
        .retry 1,.trySet 1 .failed,.lock 1,.call 2 12,.trySet 2 .failed] _ :=
    .cons (step trivial rfl nofun) <| .cons (step (fun _ => rfl) rfl nofun) <|
    .cons (step trivial rfl nofun) <| .cons (step (fun _ => rfl) rfl nofun) <|
    .cons (step trivial rfl nofun) <| .cons (step trivial rfl nofun) <|
    .cons (step trivial rfl nofun) <| .cons (step trivial rfl nofun) <| .cons (step rfl rfl nofun) <|
    .cons (step trivial rfl nofun) <| .cons (step trivial rfl nofun) <| .nil _
  exact ⟨_,_,run,rfl,coordinatedLock_exclusive run⟩

end Suixinji.Coordination
