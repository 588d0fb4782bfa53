import Suixinji.Consolidation.Runs

/-! One consolidation per period: of the runs that were returned, one at most is still
open and under its lease; a completed period stays closed unless its own run is marked
failed; the id of a run that was taken over names no row again. -/
namespace Suixinji.Consolidation
open Suixinji.Relational Suixinji.Dispatch Suixinji.Transition

/-! ### What is asked of a repository -/

/-- A repository as a step function, with what it shows of its runs. -/
structure Repository (σ ε : Type) where
  next : σ → ε → Option σ
  runs : σ → Runs
  /-- the period of a reservation that returns a run -/
  grants : ε → Option Period
  /-- the id and the new status of a mark -/
  marks : ε → Option (String × RunStatus)

variable {σ ε : Type}

def Repository.Step (c : Repository σ ε) (s : σ) (e : ε) (s' : σ) : Prop := c.next s e = some s'

def Runs.Live (s : Runs) (leaseSeconds : Int) (now : Time) (r : ConsolidationRun) : Prop :=
  r ∈ s.returned ∧ r.id ∉ s.ended ∧ isStale leaseSeconds r.startedAt now = false

/-- The three properties, the second of them as long as the later events are `allowed`. -/
structure Repository.OnePerPeriod (c : Repository σ ε) (leaseSeconds : Int) (start : σ) (allowed : String → ε → Prop) : Prop where
  live : ∀ {events s}, Run c.Step start events s → ∀ now, (c.runs s).clock ≤ now → ∀ r r',
    (c.runs s).Live leaseSeconds now r → (c.runs s).Live leaseSeconds now r' → r.period = r'.period → r = r'
  once : ∀ {events s}, Run c.Step start events s → ((c.runs s).returned.map ConsolidationRun.id).Nodup
  closed : ∀ {events s after s'}, Run c.Step start events s → Run c.Step s after s' → ∀ r ∈ (c.runs s).rows,
    r.status = .completed → (∀ e ∈ after, allowed r.id e) → ∀ e ∈ after, c.grants e ≠ some r.period
  superseded : ∀ {events s e s₁ after s' e' s''}, Run c.Step start events s → c.Step s e s₁ → Run c.Step s₁ after s' →
    c.Step s' e' s'' → ∀ r ∈ (c.runs s).rows, (∀ r' ∈ (c.runs s₁).rows, r'.id ≠ r.id) →
      (c.marks e').map Prod.fst = some r.id → (c.runs s'').rows = (c.runs s').rows

/-! ### The runs of either repository -/

structure Sound (leaseSeconds : Int) (s : Runs) : Prop where
  drawn : ∀ r ∈ s.rows, r.id ∈ s.drawn
  ids : ∀ r ∈ s.rows, ∀ r' ∈ s.rows, r.id = r'.id → r = r'
  marked : ∀ r ∈ s.rows, r.status ≠ .running → r.id ∈ s.ended
  current : ∀ q ∈ s.returned, q.id ∈ s.ended ∨ isStale leaseSeconds q.startedAt s.clock ∨
    ∃ r ∈ s.rows, r.id = q.id ∧ r.period = q.period ∧ r.startedAt = q.startedAt
  known : ∀ q ∈ s.returned, q.id ∈ s.drawn
  once : (s.returned.map ConsolidationRun.id).Nodup

variable {leaseSeconds : Int} {s s' : Runs}

theorem isStale_mono {startedAt now later : Time} (stale : isStale leaseSeconds startedAt now) (le : now ≤ later) :
    isStale leaseSeconds startedAt later := by
  simp only [isStale,decide_eq_true_eq] at stale ⊢
  exact lt_of_lt_of_le stale (Int.sub_le_sub_right le _)

theorem Sound.tick (sound : Sound leaseSeconds s) {later : Time} (le : s.clock ≤ later) :
    Sound leaseSeconds {s with clock := later} :=
  {sound with
    current := fun q returned => by
      rcases sound.current q returned with ended | stale | here
      · exact .inl ended
      · exact .inr (.inl (isStale_mono stale le))
      · exact .inr (.inr here)}

theorem Sound.take (sound : Sound leaseSeconds s) {p : Period} {id : String} {now later at_ : Time} (fresh : id ∉ s.drawn)
    (free : ∀ r ∈ s.rows, r.period = p → r.closed leaseSeconds at_ = false) (le : s.clock ≤ later) (le' : at_ ≤ later) :
    Sound leaseSeconds (s.take p id now later) where
  drawn r member := by
    rcases Table.mem_upsert.mp member with rfl | ⟨before,_⟩
    · exact List.mem_cons_self ..
    · exact List.mem_cons_of_mem _ (sound.drawn r before)
  ids r member r' member' same := by
    rcases Table.mem_upsert.mp member with rfl | ⟨before,_⟩ <;> rcases Table.mem_upsert.mp member' with rfl | ⟨before',_⟩
    · rfl
    · have same : id = r'.id := same
      exact absurd (same ▸ sound.drawn r' before') fresh
    · have same : r.id = id := same
      exact absurd (same ▸ sound.drawn r before) fresh
    · exact sound.ids r before r' before' same
  marked r member ended := by
    rcases Table.mem_upsert.mp member with rfl | ⟨before,_⟩
    · exact absurd rfl ended
    · exact sound.marked r before ended
  current q returned := by
    rcases sound.current q returned with ended | stale | ⟨r,member,same,period,started⟩
    · exact .inl ended
    · exact .inr (.inl (isStale_mono stale le))
    by_cases here : r.period = p
    · -- the row is gone: it was marked, or stale
      have open_ := free r member here
      cases status : r.status with
      | completed => simp [ConsolidationRun.closed,status] at open_
      | failed => exact .inl (same ▸ sound.marked r member (by simp [status]))
      | running =>
        have stale : isStale leaseSeconds r.startedAt at_ := by simpa [ConsolidationRun.closed,status] using open_
        exact .inr (.inl (started ▸ isStale_mono stale le'))
    · exact .inr (.inr ⟨r,Table.mem_upsert.mpr (.inr ⟨member,here⟩),same,period,started⟩)
  known q returned := List.mem_cons_of_mem _ (sound.known q returned)
  once := sound.once

theorem Sound.give (sound : Sound leaseSeconds s) {r : ConsolidationRun} (member : r ∈ s.rows)
    (new : ∀ q ∈ s.returned, q.id ≠ r.id) : Sound leaseSeconds {s with returned := r::s.returned} :=
  {sound with
    current := fun q returned => by
      rcases List.mem_cons.mp returned with rfl | before
      · exact .inr (.inr ⟨q,member,rfl,rfl,rfl⟩)
      · exact sound.current q before
    known := fun q returned => by
      rcases List.mem_cons.mp returned with rfl | before
      · exact sound.drawn q member
      · exact sound.known q before
    once := by
      rw [List.map_cons,List.nodup_cons]
      refine ⟨fun taken => ?_,sound.once⟩
      obtain ⟨q,before,same⟩ := List.mem_map.mp taken
      exact new q before same}

theorem Mark.write_kept (m : Mark) (now : Time) (r : ConsolidationRun) :
    (m.write now r).id = r.id ∧ (m.write now r).period = r.period ∧ (m.write now r).startedAt = r.startedAt ∧
      (m.write now r).status = m.status := by
  cases m <;> exact ⟨rfl,rfl,rfl,rfl⟩

theorem mem_mark {runId : String} {m : Mark} {now : Time} {r : ConsolidationRun} :
    r ∈ (s.mark runId m now).rows ↔ ∃ old ∈ s.rows, (if old.id = runId then m.write now old else old) = r := by
  simp [Runs.mark,Table.mem_updateWhere]

theorem mark_row (runId : String) (m : Mark) (now : Time) (old : ConsolidationRun) :
    (if old.id = runId then m.write now old else old).id = old.id ∧
      (if old.id = runId then m.write now old else old).period = old.period ∧
      (if old.id = runId then m.write now old else old).startedAt = old.startedAt := by
  obtain ⟨id,period,started,_⟩ := m.write_kept now old
  split
  · exact ⟨id,period,started⟩
  · exact ⟨rfl,rfl,rfl⟩

theorem Sound.mark (sound : Sound leaseSeconds s) {runId : String} {m : Mark} {now : Time} (le : s.clock ≤ now) :
    Sound leaseSeconds (s.mark runId m now) where
  drawn r member := by
    obtain ⟨old,before,rfl⟩ := mem_mark.mp member
    rw [(mark_row runId m now old).1]
    exact sound.drawn old before
  ids r member r' member' same := by
    obtain ⟨old,before,rfl⟩ := mem_mark.mp member
    obtain ⟨old',before',rfl⟩ := mem_mark.mp member'
    rw [(mark_row runId m now old).1,(mark_row runId m now old').1] at same
    rw [sound.ids old before old' before' same]
  marked r member ended := by
    obtain ⟨old,before,rfl⟩ := mem_mark.mp member
    rw [(mark_row runId m now old).1]
    by_cases here : old.id = runId
    · exact here ▸ List.mem_cons_self ..
    · rw [if_neg here] at ended
      exact List.mem_cons_of_mem _ (sound.marked old before ended)
  current q returned := by
    rcases sound.current q returned with ended | stale | ⟨r,member,same,period,started⟩
    · exact .inl (List.mem_cons_of_mem _ ended)
    · exact .inr (.inl (isStale_mono stale le))
    · obtain ⟨id',period',started'⟩ := mark_row runId m now r
      exact .inr (.inr ⟨_,mem_mark.mpr ⟨r,member,rfl⟩,id'.trans same,period'.trans period,started'.trans started⟩)
  known := sound.known
  once := sound.once

theorem Sound.live (sound : Sound leaseSeconds s) {now : Time} (le : s.clock ≤ now) {q q' : ConsolidationRun}
    (live : s.Live leaseSeconds now q) (live' : s.Live leaseSeconds now q') (same : q.period = q'.period) : q = q' := by
  have row {q : ConsolidationRun} (live : s.Live leaseSeconds now q) : ∃ r ∈ s.rows, r.id = q.id ∧ r.period = q.period := by
    obtain ⟨returned,open_,leased⟩ := live
    rcases sound.current q returned with ended | stale | ⟨r,member,id,period,_⟩
    · exact absurd ended open_
    · rw [isStale_mono stale le] at leased
      cases leased
    · exact ⟨r,member,id,period⟩
  obtain ⟨r,member,id,period⟩ := row live
  obtain ⟨r',member',id',period'⟩ := row live'
  have equal : r = r' := s.rows.unique member member' (period.trans (same.trans period'.symm))
  exact List.inj_on_of_nodup_map sound.once live.1 live'.1 (id.symm.trans (equal ▸ id'))

/-! ### From steps to runs -/

/-- A completed run keeps its row, and its period is not granted. -/
def Repository.Keeps (c : Repository σ ε) (s : σ) (e : ε) (s' : σ) : Prop :=
  ∀ r ∈ (c.runs s).rows, r.status = .completed → c.marks e ≠ some (r.id,.failed) →
    c.grants e ≠ some r.period ∧ ∃ r' ∈ (c.runs s').rows, r'.id = r.id ∧ r'.period = r.period ∧ r'.status = .completed

/-- An id that was drawn and names no row names none later. -/
def Repository.Retires (c : Repository σ ε) (s : σ) (e : ε) (s' : σ) : Prop :=
  ∀ id ∈ (c.runs s).drawn, (∀ r ∈ (c.runs s).rows, r.id ≠ id) →
    id ∈ (c.runs s').drawn ∧ (∀ r ∈ (c.runs s').rows, r.id ≠ id) ∧
      ((c.marks e).map Prod.fst = some id → (c.runs s').rows = (c.runs s).rows)

/-- The step laws under an invariant. -/
structure Repository.Lawful (c : Repository σ ε) (leaseSeconds : Int) (I : σ → Prop) : Prop where
  sound : ∀ s, I s → Sound leaseSeconds (c.runs s)
  step : ∀ s e s', I s → c.Step s e s' → I s'
  keeps : ∀ s e s', I s → c.Step s e s' → c.Keeps s e s'
  retires : ∀ s e s', I s → c.Step s e s' → c.Retires s e s'
  drawn : ∀ s e s', I s → c.Step s e s' → (c.runs s).drawn ⊆ (c.runs s').drawn

variable {c : Repository σ ε} {I : σ → Prop}

theorem Repository.Lawful.invariant (lawful : c.Lawful leaseSeconds I) {t t' : σ} {events : List ε} (holds : I t)
    (run : Run c.Step t events t') : I t' :=
  run.invariant I (fun s e s' here step => lawful.step s e s' here step) holds

theorem Repository.Lawful.closed (lawful : c.Lawful leaseSeconds I) {t t' : σ} {after : List ε} (holds : I t)
    (run : Run c.Step t after t') {r : ConsolidationRun} (member : r ∈ (c.runs t).rows) (completed : r.status = .completed)
    (allowed : ∀ e ∈ after, c.marks e ≠ some (r.id,.failed)) : ∀ e ∈ after, c.grants e ≠ some r.period := by
  induction run generalizing r with
  | nil => exact fun e member => absurd member List.not_mem_nil
  | cons head _ ih =>
    obtain ⟨first,rest⟩ := List.forall_mem_cons.mp allowed
    obtain ⟨refused,r',inside,id,period,still⟩ := lawful.keeps _ _ _ holds head r member completed first
    have later := ih (lawful.step _ _ _ holds head) inside still (fun e there => id ▸ rest e there)
    exact List.forall_mem_cons.mpr ⟨refused,fun e there => period ▸ later e there⟩

theorem Repository.Lawful.retired (lawful : c.Lawful leaseSeconds I) {t t' : σ} {after : List ε} (holds : I t)
    (run : Run c.Step t after t') {id : String} (drawn : id ∈ (c.runs t).drawn) (gone : ∀ r ∈ (c.runs t).rows, r.id ≠ id) :
    id ∈ (c.runs t').drawn ∧ ∀ r ∈ (c.runs t').rows, r.id ≠ id := by
  induction run with
  | nil => exact ⟨drawn,gone⟩
  | cons head _ ih =>
    obtain ⟨drawn',gone',_⟩ := lawful.retires _ _ _ holds head id drawn gone
    exact ih (lawful.step _ _ _ holds head) drawn' gone'

theorem Repository.Lawful.onePerPeriod (lawful : c.Lawful leaseSeconds I) {start : σ} (holds : I start) :
    c.OnePerPeriod leaseSeconds start (fun id e => c.marks e ≠ some (id,.failed)) where
  live run now le r r' := (lawful.sound _ (lawful.invariant holds run)).live le
  once run := (lawful.sound _ (lawful.invariant holds run)).once
  closed run after r member completed allowed := lawful.closed (lawful.invariant holds run) after member completed allowed
  superseded run step after last r member gone marks := by
    have here := lawful.invariant holds run
    have there := lawful.step _ _ _ here step
    have drawn := lawful.drawn _ _ _ here step ((lawful.sound _ here).drawn r member)
    obtain ⟨drawn',gone'⟩ := lawful.retired there after drawn gone
    exact (lawful.retires _ _ _ (lawful.invariant there after) last r.id drawn' gone').2.2 marks

/-! ### The core steps -/

theorem keeps_same {s' : Runs} (rows : s'.rows = s.rows) {r : ConsolidationRun} (member : r ∈ s.rows)
    (completed : r.status = .completed) : ∃ r' ∈ s'.rows, r'.id = r.id ∧ r'.period = r.period ∧ r'.status = .completed :=
  ⟨r,rows ▸ member,rfl,rfl,completed⟩

theorem keeps_take {p : Period} {at_ : Time} (id : String) (now later : Time)
    (free : ∀ r ∈ s.rows, r.period = p → r.closed leaseSeconds at_ = false) {r : ConsolidationRun} (member : r ∈ s.rows)
    (completed : r.status = .completed) : p ≠ r.period ∧
      ∃ r' ∈ (s.take p id now later).rows, r'.id = r.id ∧ r'.period = r.period ∧ r'.status = .completed := by
  have other : r.period ≠ p := fun here => by simpa [ConsolidationRun.closed,completed] using free r member here
  exact ⟨other.symm,r,Table.mem_upsert.mpr (.inr ⟨member,other⟩),rfl,rfl,completed⟩

theorem keeps_mark {runId : String} {m : Mark} {now : Time} {r : ConsolidationRun} (member : r ∈ s.rows)
    (completed : r.status = .completed) (allowed : (runId,m.status) ≠ (r.id,.failed)) :
    ∃ r' ∈ (s.mark runId m now).rows, r'.id = r.id ∧ r'.period = r.period ∧ r'.status = .completed := by
  obtain ⟨id,period,_⟩ := mark_row runId m now r
  refine ⟨_,mem_mark.mpr ⟨r,member,rfl⟩,id,period,?_⟩
  split
  · rename_i here
    cases m with
    | completed result => rfl
    | failed error => exact absurd (by rw [here]; rfl) allowed
  · exact completed

theorem retires_take {id other : String} (p : Period) (now later : Time) (fresh : id ∉ s.drawn) (drawn : other ∈ s.drawn)
    (gone : ∀ r ∈ s.rows, r.id ≠ other) :
    other ∈ (s.take p id now later).drawn ∧ ∀ r ∈ (s.take p id now later).rows, r.id ≠ other := by
  refine ⟨List.mem_cons_of_mem _ drawn,fun r member => ?_⟩
  rcases Table.mem_upsert.mp member with rfl | ⟨before,_⟩
  · intro same
    have same : id = other := same
    exact fresh (same ▸ drawn)
  · exact gone r before

theorem mark_gone {runId : String} {m : Mark} {now : Time} (gone : ∀ r ∈ s.rows, r.id ≠ runId) : (s.mark runId m now).rows = s.rows := by
  apply Table.updateWhere_of_none
  · intro r
    exact (m.write_kept now r).2.1
  · intro r member
    simpa using gone r member

theorem retires_mark {runId other : String} {m : Mark} {now : Time} (gone : ∀ r ∈ s.rows, r.id ≠ other) :
    (∀ r ∈ (s.mark runId m now).rows, r.id ≠ other) ∧ (some runId = some other → (s.mark runId m now).rows = s.rows) := by
  constructor
  · intro r member
    obtain ⟨old,before,rfl⟩ := mem_mark.mp member
    rw [(mark_row runId m now old).1]
    exact gone old before
  · intro same
    exact mark_gone (Option.some.inj same ▸ gone)

/-! ### SQLite -/

def LocalEvent.grants (host : Host) : LocalEvent → Option Period
  | .reserve _ spaceId cadence periodKey _ _ _ granted => if granted then some (spaceId,normalCadence host cadence,periodKey) else none
  | _ => none

def LocalEvent.marks : LocalEvent → Option (String × RunStatus)
  | .mark runId m _ => some (runId,m.status)
  | _ => none

def localRepository (host : Host) (leaseSeconds : Int) : Repository LocalWorld LocalEvent where
  next := localNext host leaseSeconds
  runs := LocalWorld.runs
  grants := LocalEvent.grants host
  marks := LocalEvent.marks

/-- A reservation that is still to be read back is its worker's own. -/
structure LocalSound (leaseSeconds : Int) (s : LocalWorld) : Prop where
  runs : Sound leaseSeconds s.runs
  pending : ∀ w id, s.phase w = some id → id ∈ s.runs.drawn ∧ ∀ q ∈ s.runs.returned, q.id ≠ id
  own : ∀ v w id, s.phase v = some id → s.phase w = some id → v = w

variable {host : Host}

theorem localNext_spec {s s' : LocalWorld} {e : LocalEvent} (step : localNext host leaseSeconds s e = some s') :
    (∃ w spaceId cadence periodKey id now later, e = .reserve w spaceId cadence periodKey id now later false ∧
      s.runs.clock ≤ later ∧ s' = {s with runs := {s.runs with clock := later}}) ∨
    (∃ w spaceId cadence periodKey id now later, e = .reserve w spaceId cadence periodKey id now later true ∧
      s.runs.clock ≤ later ∧ id ∉ s.runs.drawn ∧
      (∀ r ∈ s.runs.rows, r.period = (spaceId,normalCadence host cadence,periodKey) → r.closed leaseSeconds later = false) ∧
      s' = ⟨s.runs.take (spaceId,normalCadence host cadence,periodKey) id now later,Function.update s.phase w (some id)⟩) ∨
    (∃ w id, e = .fetch w ∧ s.phase w = some id ∧ s' =
      ⟨{s.runs with returned := (s.runs.rows.rows.find? (·.id = id)).toList ++ s.runs.returned},Function.update s.phase w none⟩) ∨
    ∃ runId m now, e = .mark runId m now ∧ s.runs.clock ≤ now ∧ s' = {s with runs := s.runs.mark runId m now} := by
  cases e with
  | reserve w spaceId cadence periodKey id now later granted =>
    simp only [localNext] at step
    split at step
    swap
    · cases step
    rename_i free
    obtain ⟨_,clock,order⟩ := free
    split at step
    · split at step <;> cases step
      rename_i refused
      rw [Bool.not_eq_true] at refused
      subst refused
      exact .inl ⟨w,spaceId,cadence,periodKey,id,now,later,rfl,le_trans clock order,rfl⟩
    · rename_i open_
      split at step <;> cases step
      rename_i given
      obtain ⟨rfl,fresh⟩ := given
      refine .inr (.inl ⟨w,spaceId,cadence,periodKey,id,now,later,rfl,le_trans clock order,fresh,?_,rfl⟩)
      intro r member here
      have found : s.runs.rows.find? (spaceId,normalCadence host cadence,periodKey) = some r := Table.find?_eq_some.mpr ⟨member,here⟩
      simpa [found] using open_
  | fetch w =>
    simp only [localNext] at step
    split at step <;> cases step
    rename_i id here
    exact .inr (.inr (.inl ⟨w,id,rfl,here,rfl⟩))
  | mark runId m now =>
    simp only [localNext] at step
    split at step <;> cases step
    rename_i clock
    exact .inr (.inr (.inr ⟨runId,m,now,rfl,clock,rfl⟩))

theorem localSound_step {s s' : LocalWorld} {e : LocalEvent} (sound : LocalSound leaseSeconds s)
    (step : localNext host leaseSeconds s e = some s') : LocalSound leaseSeconds s' := by
  rcases localNext_spec step with ⟨w,spaceId,cadence,periodKey,id,now,later,rfl,le,rfl⟩ |
    ⟨w,spaceId,cadence,periodKey,id,now,later,rfl,le,fresh,free,rfl⟩ | ⟨w,id,rfl,here,rfl⟩ | ⟨runId,m,now,rfl,le,rfl⟩
  · exact ⟨sound.runs.tick le,sound.pending,sound.own⟩
  · have cases_ : ∀ v other, Function.update s.phase w (some id) v = some other → (v = w ∧ other = id) ∨ s.phase v = some other ∧ other ≠ id := by
      intro v other held
      rw [Function.update_apply] at held
      split at held
      · rename_i same
        exact .inl ⟨same,(Option.some.inj held).symm⟩
      · refine .inr ⟨held,?_⟩
        rintro rfl
        exact fresh (sound.pending v other held).1
    refine ⟨sound.runs.take fresh free le (le_refl _),?_,?_⟩
    · intro v other held
      rcases cases_ v other held with ⟨_,rfl⟩ | ⟨held,_⟩
      · refine ⟨List.mem_cons_self ..,fun q returned same => ?_⟩
        exact fresh (same ▸ sound.runs.known q returned)
      · obtain ⟨drawn,new⟩ := sound.pending v other held
        exact ⟨List.mem_cons_of_mem _ drawn,new⟩
    · intro u v other first second
      rcases cases_ u other first with ⟨rfl,rfl⟩ | ⟨first,other_⟩ <;> rcases cases_ v _ second with ⟨rfl,equal⟩ | ⟨second,other'⟩
      · rfl
      · exact absurd rfl other'
      · exact absurd equal other_
      · exact sound.own u v other first second
  · have cases_ : ∀ v other, Function.update s.phase w none v = some other → s.phase v = some other ∧ v ≠ w := by
      intro v other held
      rw [Function.update_apply] at held
      split at held
      · cases held
      · rename_i other_
        exact ⟨held,other_⟩
    obtain ⟨drawn,new⟩ := sound.pending w id here
    cases found : s.runs.rows.rows.find? (·.id = id) with
    | none => exact ⟨sound.runs,fun v other held => sound.pending v other (cases_ v other held).1,
        fun u v other first second => sound.own u v other (cases_ u other first).1 (cases_ v other second).1⟩
    | some r =>
      have member : r ∈ s.runs.rows := List.mem_of_find?_eq_some found
      have named : r.id = id := by simpa using List.find?_some found
      refine ⟨sound.runs.give member (named ▸ new),?_,fun u v other first second =>
        sound.own u v other (cases_ u other first).1 (cases_ v other second).1⟩
      intro v other held
      obtain ⟨held',apart⟩ := cases_ v other held
      obtain ⟨drawn',new'⟩ := sound.pending v other held'
      refine ⟨drawn',fun q returned => ?_⟩
      rcases List.mem_cons.mp returned with rfl | before
      · rintro rfl
        exact apart (sound.own v w q.id held' (named ▸ here))
      · exact new' q before
  · exact ⟨sound.runs.mark le,sound.pending,sound.own⟩

theorem local_lawful (host : Host) (leaseSeconds : Int) :
    (localRepository host leaseSeconds).Lawful leaseSeconds (LocalSound leaseSeconds) where
  sound s holds := holds.runs
  step s e s' holds step := localSound_step holds step
  keeps s e s' holds step := by
    intro r member completed allowed
    rcases localNext_spec step with ⟨w,spaceId,cadence,periodKey,id,now,later,rfl,le,rfl⟩ |
      ⟨w,spaceId,cadence,periodKey,id,now,later,rfl,le,fresh,free,rfl⟩ | ⟨w,id,rfl,here,rfl⟩ | ⟨runId,m,now,rfl,le,rfl⟩
    · exact ⟨nofun,keeps_same rfl member completed⟩
    · obtain ⟨other,kept⟩ := keeps_take id now later free member completed
      exact ⟨fun same => other (Option.some.inj same),kept⟩
    · exact ⟨nofun,keeps_same rfl member completed⟩
    · exact ⟨nofun,keeps_mark member completed (fun same => allowed (congrArg some same))⟩
  retires s e s' holds step := by
    intro other drawn gone
    rcases localNext_spec step with ⟨w,spaceId,cadence,periodKey,id,now,later,rfl,le,rfl⟩ |
      ⟨w,spaceId,cadence,periodKey,id,now,later,rfl,le,fresh,free,rfl⟩ | ⟨w,id,rfl,here,rfl⟩ | ⟨runId,m,now,rfl,le,rfl⟩
    · exact ⟨drawn,gone,nofun⟩
    · obtain ⟨drawn',gone'⟩ := retires_take (spaceId,normalCadence host cadence,periodKey) now later fresh drawn gone
      exact ⟨drawn',gone',nofun⟩
    · exact ⟨drawn,gone,nofun⟩
    · exact ⟨drawn,retires_mark gone⟩
  drawn s e s' holds step := by
    rcases localNext_spec step with ⟨w,spaceId,cadence,periodKey,id,now,later,rfl,le,rfl⟩ |
      ⟨w,spaceId,cadence,periodKey,id,now,later,rfl,le,fresh,free,rfl⟩ | ⟨w,id,rfl,here,rfl⟩ | ⟨runId,m,now,rfl,le,rfl⟩
    · exact List.Subset.refl _
    · exact List.subset_cons_self ..
    · exact List.Subset.refl _
    · exact List.Subset.refl _

/-! ### PostgreSQL -/

def Event.grants : Event → Option Period
  | .write _ p _ _ granted => if granted then some p else none
  | _ => none

def Event.marks : Event → Option (String × RunStatus)
  | .mark runId m _ => some (runId,m.status)
  | _ => none

def postgresRepository (host : Host) (leaseSeconds : Int) : Repository World Event where
  next := next host leaseSeconds
  runs := World.runs
  grants := Event.grants
  marks := Event.marks

/-- Whoever takes a row over holds its lock, and the row may still be taken over. -/
structure WorldSound (leaseSeconds : Int) (s : World) : Prop where
  runs : Sound leaseSeconds s.runs
  locked : ∀ w p, s.phase w = .taking p → s.lock p = some w
  free : ∀ w p, s.phase w = .taking p → ∀ r ∈ s.runs.rows, r.period = p → r.closed leaseSeconds s.runs.clock = false
  there : ∀ w p, s.phase w = .taking p → ∃ r ∈ s.runs.rows, r.period = p

theorem closed_mono {r : ConsolidationRun} {now later : Time} (free : r.closed leaseSeconds now = false) (le : now ≤ later) :
    r.closed leaseSeconds later = false := by
  simp only [ConsolidationRun.closed,Bool.or_eq_false_iff,Bool.and_eq_false_iff,Bool.not_eq_eq_eq_not,Bool.not_false] at free ⊢
  refine ⟨free.1,?_⟩
  rcases free.2 with other | stale
  · exact .inl other
  · exact .inr (isStale_mono stale le)

theorem WorldSound.none_closed {s : World} {p : Period} (absent : s.runs.rows.find? p = none) (now : Time) :
    ∀ r ∈ s.runs.rows, r.period = p → r.closed leaseSeconds now = false :=
  fun r member here => absurd here (Table.find?_eq_none.mp absent r member)

theorem next_runs {s s' : World} {e : Event} (sound : WorldSound leaseSeconds s) (step : next host leaseSeconds s e = some s') :
    (∃ later, s.runs.clock ≤ later ∧ s'.runs = {s.runs with clock := later} ∧ e.grants = none ∧ e.marks = none) ∨
    (∃ w p id now, e = .write w p id now true ∧ s.runs.clock ≤ now ∧ id ∉ s.runs.drawn ∧ s'.runs = (s.grant p id now).runs ∧
      ∀ r ∈ s.runs.rows, r.period = p → r.closed leaseSeconds now = false) ∨
    ∃ runId m now, e = .mark runId m now ∧ s.runs.clock ≤ now ∧ s'.runs = s.runs.mark runId m now := by
  cases e with
  | look w spaceId cadence periodKey now open_ =>
    simp only [next] at step
    split at step
    swap
    · cases step
    rename_i free
    left
    refine ⟨now,free.2,?_,rfl,rfl⟩
    split at step
    · split at step <;> cases step
      rfl
    · split at step
      · cases step
      · split at step <;> cases step <;> rfl
  | write w p id now granted =>
    simp only [next] at step
    split at step
    swap
    · cases step
    rename_i fresh
    split at step
    · rename_i q taking
      split at step <;> cases step
      rename_i same
      subst same
      exact .inr (.inl ⟨w,_,id,now,rfl,fresh.1,fresh.2,rfl,fun r member here => closed_mono (sound.free w _ taking r member here) fresh.1⟩)
    · split at step <;> cases step
      rename_i absent
      exact .inr (.inl ⟨w,p,id,now,rfl,fresh.1,fresh.2,rfl,WorldSound.none_closed absent.2 now⟩)
    · split at step <;> cases step
      exact .inl ⟨s.runs.clock,le_refl _,rfl,rfl,rfl⟩
    · cases step
  | mark runId m now =>
    simp only [next] at step
    split at step <;> cases step
    rename_i free
    exact .inr (.inr ⟨runId,m,now,rfl,free.1,rfl⟩)
  | crash w =>
    simp only [next] at step
    left
    refine ⟨s.runs.clock,le_refl _,?_,rfl,rfl⟩
    split at step <;> cases step <;> rfl

/-! ### Locks -/

section Locks
variable {s s' : World}

theorem World.phase_move (w v : Worker) (dest : Phase) : (s.move w dest).phase v = if v = w then dest else s.phase v := by
  simp [World.move,Function.update_apply]

theorem WorldSound.settle {w : Worker} {dest : Phase} (sound : WorldSound leaseSeconds s) (runs : Sound leaseSeconds s'.runs)
    (phase : s'.phase = Function.update s.phase w dest) (dest_ : ∀ p, dest ≠ .taking p)
    (lock : ∀ v p, v ≠ w → s.phase v = .taking p → s'.lock p = s.lock p)
    (free : ∀ v p, v ≠ w → s.phase v = .taking p → ∀ r ∈ s'.runs.rows, r.period = p → r.closed leaseSeconds s'.runs.clock = false)
    (kept : ∀ r ∈ s.runs.rows, ∃ r' ∈ s'.runs.rows, r'.period = r.period) : WorldSound leaseSeconds s' := by
  have others : ∀ v p, s'.phase v = .taking p → v ≠ w ∧ s.phase v = .taking p := by
    intro v p here
    rw [phase,Function.update_apply] at here
    split at here
    · exact absurd here (dest_ p)
    · rename_i other
      exact ⟨other,here⟩
  constructor
  · exact runs
  · intro v p here
    obtain ⟨other,before⟩ := others v p here
    exact (lock v p other before).trans (sound.locked v p before)
  · intro v p here
    obtain ⟨other,before⟩ := others v p here
    exact free v p other before
  · intro v p here
    obtain ⟨r,member,period⟩ := sound.there v p (others v p here).2
    obtain ⟨r',inside,same⟩ := kept r member
    exact ⟨r',inside,same.trans period⟩

theorem WorldSound.leave {w : Worker} {dest : Phase} {later : Time} (sound : WorldSound leaseSeconds s) (le : s.runs.clock ≤ later)
    (runs : s'.runs = {s.runs with clock := later}) (phase : s'.phase = Function.update s.phase w dest)
    (dest_ : ∀ p, dest ≠ .taking p) (lock : ∀ v p, v ≠ w → s.phase v = .taking p → s'.lock p = s.lock p) :
    WorldSound leaseSeconds s' := by
  refine sound.settle ?_ phase dest_ lock ?_ ?_ <;> rw [runs]
  · exact sound.runs.tick le
  · exact fun v p _ before r member here => closed_mono (sound.free v p before r member here) le
  · exact fun r member => ⟨r,member,rfl⟩

theorem kept_take (runs : Runs) (p : Period) (id : String) (now later : Time) :
    ∀ r ∈ runs.rows, ∃ r' ∈ (runs.take p id now later).rows, r'.period = r.period := by
  intro r member
  by_cases here : r.period = p
  · exact ⟨_,Table.mem_upsert.mpr (.inl rfl),here.symm⟩
  · exact ⟨r,Table.mem_upsert.mpr (.inr ⟨member,here⟩),rfl⟩

theorem WorldSound.grant {w : Worker} {p : Period} {id : String} {now : Time} (sound : WorldSound leaseSeconds s) (le : s.runs.clock ≤ now)
    (fresh : id ∉ s.runs.drawn) (open_ : ∀ r ∈ s.runs.rows, r.period = p → r.closed leaseSeconds now = false)
    (alone : ∀ v q, v ≠ w → s.phase v = .taking q → q ≠ p) (runs : s'.runs = (s.grant p id now).runs)
    (phase : s'.phase = Function.update s.phase w .idle) (lock : ∀ q, q ≠ p → s'.lock q = s.lock q) : WorldSound leaseSeconds s' := by
  refine sound.settle ?_ phase (fun _ => nofun) (fun v q other before => lock q (alone v q other before)) ?_ ?_ <;> rw [runs]
  · have taken : Sound leaseSeconds (s.runs.take p id now now) := sound.runs.take fresh open_ le (le_refl _)
    refine taken.give (Table.mem_upsert.mpr (.inl rfl)) (fun q returned same => ?_)
    have same : q.id = id := same
    exact fresh (same ▸ sound.runs.known q returned)
  · intro v q other before r member here
    rcases Table.mem_upsert.mp member with rfl | ⟨inside,_⟩
    · exact absurd here.symm (alone v q other before)
    · exact closed_mono (sound.free v q before r inside here) le
  · exact kept_take s.runs p id now now

theorem WorldSound.apart {v w : Worker} {p q : Period} (sound : WorldSound leaseSeconds s) (other : v ≠ w) (first : s.phase v = .taking p)
    (second : s.lock q = some w) : p ≠ q := by
  rintro rfl
  exact other (Option.some.inj ((sound.locked v p first).symm.trans second))

theorem WorldSound.seize {w : Worker} {p : Period} {now : Time} {r : ConsolidationRun} (sound : WorldSound leaseSeconds s)
    (le : s.runs.clock ≤ now) (unlocked : s.lock p = none) (found : s.runs.rows.find? p = some r)
    (open_ : r.closed leaseSeconds now = false) :
    WorldSound leaseSeconds ⟨{s.runs with clock := now},Function.update s.phase w (.taking p),Function.update s.lock p (some w)⟩ := by
  obtain ⟨member,here⟩ := Table.find?_eq_some.mp found
  have cases_ : ∀ v q, Function.update s.phase w (.taking p) v = .taking q → (v = w ∧ q = p) ∨ s.phase v = .taking q ∧ q ≠ p := by
    intro v q taking
    rw [Function.update_apply] at taking
    split at taking
    · rename_i same
      exact .inl ⟨same,(Phase.taking.inj taking).symm⟩
    · refine .inr ⟨taking,?_⟩
      rintro rfl
      rw [sound.locked v q taking] at unlocked
      cases unlocked
  constructor
  · exact sound.runs.tick le
  · intro v q taking
    rcases cases_ v q taking with ⟨rfl,rfl⟩ | ⟨before,other⟩
    · exact Function.update_self ..
    · exact (Function.update_of_ne other ..).trans (sound.locked v q before)
  · intro v q taking r' member' here'
    rcases cases_ v q taking with ⟨rfl,rfl⟩ | ⟨before,other⟩
    · rw [s.runs.rows.unique member' member (here'.trans here.symm)]
      exact open_
    · exact closed_mono (sound.free v q before r' member' here') le
  · intro v q taking
    rcases cases_ v q taking with ⟨rfl,rfl⟩ | ⟨before,_⟩
    · exact ⟨r,member,here⟩
    · exact sound.there v q before

end Locks

theorem worldSound_step {s s' : World} {e : Event} (sound : WorldSound leaseSeconds s)
    (step : next host leaseSeconds s e = some s') : WorldSound leaseSeconds s' := by
  cases e with
  | look w spaceId cadence periodKey now open_ =>
    simp only [next] at step
    split at step
    swap
    · cases step
    rename_i free
    split at step
    · split at step <;> cases step
      exact sound.leave free.2 rfl rfl nofun (fun _ _ _ _ => rfl)
    rename_i r found
    split at step
    · cases step
    rename_i unlocked
    split at step <;> cases step
    · exact sound.leave free.2 rfl (Function.update_eq_self w s.phase).symm (by simp [free.1]) (fun _ _ _ _ => rfl)
    · rename_i open_
      exact sound.seize free.2 (not_not.mp unlocked) found open_
  | write w p id now granted =>
    simp only [next] at step
    split at step
    swap
    · cases step
    rename_i fresh
    split at step
    · rename_i q taking
      split at step <;> cases step
      rename_i same
      subst same
      refine sound.grant fresh.1 fresh.2 (fun r member here => closed_mono (sound.free w _ taking r member here) fresh.1) ?_ rfl rfl ?_
      · exact fun v q other before => sound.apart other before (sound.locked w _ taking)
      · exact fun q other => Function.update_of_ne other ..
    · rename_i q adding
      split at step <;> cases step
      rename_i absent
      refine sound.grant fresh.1 fresh.2 (WorldSound.none_closed absent.2 now) ?_ rfl rfl (fun _ _ => rfl)
      rintro v q' other before rfl
      obtain ⟨r,member,period⟩ := sound.there v q' before
      exact Table.find?_eq_none.mp absent.2 r member period
    · split at step <;> cases step
      exact sound.leave (le_refl _) rfl rfl nofun (fun _ _ _ _ => rfl)
    · cases step
  | mark runId m now =>
    simp only [next] at step
    split at step <;> cases step
    rename_i free
    have unlocked : ∀ r ∈ s.runs.rows, r.id = runId → s.lock r.period = none := by
      intro r member named
      cases found : s.runs.rows.rows.find? (·.id = runId) with
      | none => simpa [named] using List.find?_eq_none.mp found r member
      | some r' =>
        have named' : r'.id = runId := by simpa using List.find?_some found
        rw [sound.runs.ids r member r' (List.mem_of_find?_eq_some found) (named.trans named'.symm)]
        simpa [found] using free.2
    refine ⟨sound.runs.mark free.1,sound.locked,?_,?_⟩
    · intro v p before r member here
      obtain ⟨old,inside,rfl⟩ := mem_mark.mp member
      rw [(mark_row runId m now old).2.1] at here
      have held := sound.locked v p before
      have other : old.id ≠ runId := by
        intro named
        rw [← here,unlocked old inside named] at held
        cases held
      rw [if_neg other]
      exact closed_mono (sound.free v p before old inside here) free.1
    · intro v p before
      obtain ⟨r,member,period⟩ := sound.there v p before
      exact ⟨_,mem_mark.mpr ⟨r,member,rfl⟩,(mark_row runId m now r).2.1.trans period⟩
  | crash w =>
    simp only [next] at step
    split at step <;> cases step
    · rename_i p taking
      refine sound.leave (le_refl _) rfl rfl nofun (fun v q other before => Function.update_of_ne ?_ ..)
      exact sound.apart other before (sound.locked w p taking)
    · exact sound.leave (le_refl _) rfl rfl nofun (fun _ _ _ _ => rfl)

theorem postgres_lawful (host : Host) (leaseSeconds : Int) :
    (postgresRepository host leaseSeconds).Lawful leaseSeconds (WorldSound leaseSeconds) where
  sound s holds := holds.runs
  step s e s' holds step := worldSound_step holds step
  keeps s e s' holds step := by
    intro r member completed allowed
    rcases next_runs holds step with ⟨later,_,runs,grants,_⟩ | ⟨w,p,id,now,rfl,_,_,runs,free⟩ | ⟨runId,m,now,rfl,_,runs⟩
    · change e.grants ≠ _ ∧ ∃ r' ∈ s'.runs.rows, _
      rw [grants,runs]
      exact ⟨nofun,keeps_same rfl member completed⟩
    · obtain ⟨other,kept⟩ := keeps_take id now now free member completed
      change _ ∧ ∃ r' ∈ s'.runs.rows, _
      rw [runs]
      exact ⟨fun same => other (Option.some.inj same),kept⟩
    · change _ ∧ ∃ r' ∈ s'.runs.rows, _
      rw [runs]
      exact ⟨nofun,keeps_mark member completed (fun same => allowed (congrArg some same))⟩
  retires s e s' holds step := by
    intro other drawn gone
    change other ∈ s'.runs.drawn ∧ (∀ r ∈ s'.runs.rows, _) ∧ (e.marks.map Prod.fst = _ → s'.runs.rows = s.runs.rows)
    rcases next_runs holds step with ⟨later,_,runs,_,marks⟩ | ⟨w,p,id,now,rfl,_,fresh,runs,_⟩ | ⟨runId,m,now,rfl,_,runs⟩
    · rw [runs,marks]
      exact ⟨drawn,gone,nofun⟩
    · obtain ⟨drawn',gone'⟩ := retires_take p now now fresh drawn gone
      rw [runs]
      exact ⟨drawn',gone',nofun⟩
    · rw [runs]
      exact ⟨drawn,retires_mark gone⟩
  drawn s e s' holds step := by
    change s.runs.drawn ⊆ s'.runs.drawn
    rcases next_runs holds step with ⟨later,_,runs,_⟩ | ⟨w,p,id,now,rfl,_,_,runs,_⟩ | ⟨runId,m,now,rfl,_,runs⟩ <;> rw [runs]
    · exact List.Subset.refl _
    · exact List.subset_cons_self ..
    · exact List.Subset.refl _

/-! ### Both repositories -/

def emptyLocal : LocalWorld := ⟨{},fun _ => none⟩

def emptyWorld : World := ⟨{},fun _ => .idle,fun _ => none⟩

theorem sound_empty : Sound leaseSeconds {} :=
  ⟨fun r member => absurd member (Table.not_mem_empty r),fun r member => absurd member (Table.not_mem_empty r),
    fun r member => absurd member (Table.not_mem_empty r),nofun,nofun,.nil⟩

/-- From empty tables, in either repository, with any number of workers. -/
theorem one_consolidation_per_period (host : Host) (leaseSeconds : Int) :
    (localRepository host leaseSeconds).OnePerPeriod leaseSeconds emptyLocal
        (fun id e => e.marks ≠ some (id,.failed)) ∧
      (postgresRepository host leaseSeconds).OnePerPeriod leaseSeconds emptyWorld
        (fun id e => e.marks ≠ some (id,.failed)) :=
  ⟨(local_lawful host leaseSeconds).onePerPeriod ⟨sound_empty,nofun,nofun⟩,
    (postgres_lawful host leaseSeconds).onePerPeriod ⟨sound_empty,nofun,nofun,nofun⟩⟩

/-- A run that is completed and then marked failed is reserved again. -/
theorem completed_then_failed :
    ¬ ∀ (host : Host) (leaseSeconds : Int),
      (localRepository host leaseSeconds).OnePerPeriod leaseSeconds emptyLocal (fun _ _ => True) ∧
        (postgresRepository host leaseSeconds).OnePerPeriod leaseSeconds emptyWorld (fun _ _ => True) := by
  intro both
  let reserve (id : String) (now : Time) : LocalEvent := .reserve 0 "space" "daily" "2026-07-14" id now now true
  let before : List LocalEvent := [reserve "run_1" 0,.fetch 0,.mark "run_1" (.completed "{}") 1000]
  let after : List LocalEvent := [.mark "run_1" (.failed "boom") 2000,reserve "run_2" 3000]
  let done := (before.foldlM (localNext asciiHost 600) emptyLocal).getD emptyLocal
  have first : before.foldlM (localNext asciiHost 600) emptyLocal = some done := rfl
  have second : after.foldlM (localNext asciiHost 600) done = some _ := rfl
  exact (both asciiHost 600).1.closed (.of_foldlM first) (.of_foldlM second) _ (List.Mem.head _) rfl (fun _ _ => trivial)
    (reserve "run_2" 3000) (by simp [after]) rfl

end Suixinji.Consolidation
