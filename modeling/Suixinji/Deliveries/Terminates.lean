import Suixinji.Deliveries.Bounded
import Suixinji.Deliveries.Handler

/-! A delivery task that may fail no more often than its delivery may be reserved ends
as completed or as a dead letter; one whose delivery is exhausted first is deferred
without end. -/
namespace Suixinji.Deliveries
open Suixinji.Relational Suixinji.Dispatch Suixinji.Transition

/-! ### What the others leave alone -/

/-- Of the delivery the attempts stay, and only a reservation can be failed. -/
structure Beside (taskId : TaskId) (key : String) (store store' : Store) : Prop where
  tasks : Apart taskId store.db store'.db
  deliveries : Table.Evolves (fun d d' : Delivery => d.deliveryKey = key → d'.attemptCount = d.attemptCount ∧
      (d'.status = d.status ∨ d.status = .reserved ∧ d'.status = .failed))
    (fun d => d.deliveryKey ≠ key) store.deliveries store'.deliveries

section Others
variable {host : Host} {settings : Settings} {taskId : TaskId} {key : String} {store store' : Store} {r : Reservation} {now : Time}
  {row : Option Delivery}

theorem reserve_apart (ok : reserveDelivery host settings store r now = some (store',row)) : Apart taskId store.db store'.db := by
  unfold reserveDelivery at ok
  obtain ⟨⟨db,spaceId⟩,ensured,rest⟩ := Option.bind_eq_some_iff.mp ok
  have apart : Apart taskId store.db db := (idle_ensure ensured).apart
  dsimp only at rest
  split at rest
  · cases rest
    exact apart
  · simp only [Option.bind_eq_bind,Option.bind_eq_some_iff,Option.pure_def,Option.some.injEq,Prod.mk.injEq] at rest
    obtain ⟨_,_,rfl,_⟩ := rest
    exact apart

theorem updateStatus_db (store : Store) (deliveryKey : String) (status : DeliveryStatus) (error : Option String) (now : Time) :
    (updateStatus store deliveryKey status error now).db = store.db := by
  unfold updateStatus
  split <;> rfl

theorem beside_elsewhere (step : Elsewhere host settings taskId key store store') : Beside taskId key store store' := by
  have same (d : Delivery) : d.deliveryKey = key → d.attemptCount = d.attemptCount ∧
      (d.status = d.status ∨ d.status = .reserved ∧ d.status = .failed) := fun _ => ⟨rfl,.inl rfl⟩
  cases step with
  | dispatch snap op now other => exact ⟨apart_outcome other rfl,.refl (fun d _ => same d)⟩
  | reserve other ok =>
    refine ⟨reserve_apart ok,?_⟩
    rcases reserveDelivery_spec ok with ⟨_,kept⟩ | ⟨d',_,named,_,rows,_⟩
    · rw [kept]
      exact .refl (fun d _ => same d)
    · constructor
      · intro d member
        by_cases here : d.deliveryKey = d'.deliveryKey
        · exact ⟨d',(rows d').mpr (.inl rfl),here.symm,fun ours => absurd (named.symm.trans (here.symm.trans ours)) other⟩
        · exact ⟨d,(rows d).mpr (.inr ⟨member,here⟩),rfl,same d⟩
      · intro d inside
        rcases (rows d).mp inside with rfl | ⟨member,_⟩
        · exact .inr (fun ours => other (named.symm.trans ours))
        · exact .inl ⟨d,member,rfl,same d⟩
  | mark status error now other =>
    refine ⟨.of_tasks (by rw [updateStatus_db]),?_⟩
    unfold updateStatus
    split
    · exact .refl (fun d _ => same d)
    · rename_i d found
      obtain ⟨member,named⟩ := Table.find?_eq_some.mp found
      exact .put_of_mem member rfl (fun ours => absurd (named.symm.trans ours) other) (fun d _ _ => same d)
  | recover now =>
    refine ⟨.of_tasks rfl,.of_updateWhere rfl (fun d _ stale => ⟨rfl,fun _ => ⟨rfl,.inr ⟨?_,rfl⟩⟩⟩) (fun d _ _ => same d)⟩
    simp only [isReservationExpired,Bool.and_eq_true,decide_eq_true_eq] at stale
    exact stale.1

end Others

/-! ### Where the task and its delivery stand -/

/-- No row, or at most so many attempts, the last of which failed. -/
def Errand.Tried (x : Errand) (n : Nat) (store : Store) : Prop :=
  (∀ d ∈ store.deliveries, d.deliveryKey ≠ x.payload.deliveryKey) ∨
    x.settings.fakeExternals = false ∧ ∃ d ∈ store.deliveries, d.deliveryKey = x.payload.deliveryKey ∧ d.attemptCount ≤ n ∧
      d.status = .failed

def Errand.Holds (x : Errand) (n : Nat) (store : Store) : Prop :=
  ∃ d ∈ store.deliveries, d.deliveryKey = x.payload.deliveryKey ∧ d.attemptCount ≤ n ∧ (d.status = .reserved ∨ d.status = .failed)

def Errand.Stands (x : Errand) (maxAttempts claims : Nat) (store : Store) (t : Task) : Stage → Prop
  | .waiting => (t.status = .completed ∨ t.status = .deadLetter) ∨
      t.status.waits ∧ t.failureCount = claims ∧ claims < maxAttempts ∧ x.Tried claims store
  | .claimed t₀ => t₀.id = x.taskId ∧ t.failureCount + 1 = claims ∧ x.Tried t.failureCount store
  | .reserved t₀ => t₀.id = x.taskId ∧ t.failureCount + 1 = claims ∧ x.Holds claims store
  | .sent t₀ result => t₀.id = x.taskId ∧ t.failureCount + 1 = claims ∧ x.Holds claims store ∧
      (result = .returns ∨ x.settings.fakeExternals = false)
  | .ended t₀ .returns => t₀.id = x.taskId
  | .ended t₀ (.raises _) => t₀.id = x.taskId ∧ t.failureCount + 1 = claims ∧ x.Tried claims store
  | .refused _ | .ended _ (.retryLater ..) => False

structure Errand.Open (x : Errand) (maxAttempts claims : Nat) (s : Desk) : Prop where
  bound : claims ≤ maxAttempts
  row : ∃ t ∈ s.store.db.tasks, t.id = x.taskId ∧ t.maxAttempts = maxAttempts ∧ x.Stands maxAttempts claims s.store t s.stage

variable {x : Errand} {maxAttempts claims : Nat} {s s' : Desk} {store store' : Store} {t t' : Task}

theorem Errand.Tried.mono {n m : Nat} (tried : x.Tried n store) (le : n ≤ m) : x.Tried m store := by
  rcases tried with absent | ⟨real,d,member,here,count,failed⟩
  · exact .inl absent
  · exact .inr ⟨real,d,member,here,le_trans count le,failed⟩

theorem Errand.Tried.beside {n : Nat} (tried : x.Tried n store) (beside : Beside x.taskId x.payload.deliveryKey store store') :
    x.Tried n store' := by
  rcases tried with absent | ⟨real,d,member,here,count,failed⟩
  · left
    intro d' inside ours
    rcases beside.deliveries.origin d' inside with ⟨d,member,same,_⟩ | other
    · exact absent d member (same.symm.trans ours)
    · exact other ours
  · obtain ⟨d',inside,same,related⟩ := beside.deliveries.kept d member
    obtain ⟨attempts,status⟩ := related here
    refine .inr ⟨real,d',inside,same.trans here,by omega,?_⟩
    rcases status with same | ⟨_,ended⟩
    · exact same.trans failed
    · exact ended

theorem Errand.Holds.beside {n : Nat} (holds : x.Holds n store) (beside : Beside x.taskId x.payload.deliveryKey store store') :
    x.Holds n store' := by
  obtain ⟨d,member,here,count,held⟩ := holds
  obtain ⟨d',inside,same,related⟩ := beside.deliveries.kept d member
  obtain ⟨attempts,status⟩ := related here
  refine ⟨d',inside,same.trans here,by omega,?_⟩
  rcases status with same | ⟨_,ended⟩
  · exact same ▸ held
  · exact .inr ended

theorem Errand.Stands.beside {stage : Stage} (stands : x.Stands maxAttempts claims store t stage) (idles : t.Idles t')
    (beside : Beside x.taskId x.payload.deliveryKey store store') : x.Stands maxAttempts claims store' t' stage := by
  have failures := idles.failures
  cases stage with
  | waiting =>
    rcases stands with terminal | ⟨waits,count,below,tried⟩
    · have stays : t'.status = t.status := by
        rcases idles.status with same | ⟨waits,_⟩
        · exact same
        · rcases terminal with ended | ended <;> simp [TaskStatus.waits,ended] at waits
      exact .inl (stays ▸ terminal)
    · refine .inr ⟨?_,failures.trans count,below,tried.beside beside⟩
      rcases idles.status with same | ⟨_,waits⟩
      · exact same ▸ waits
      · exact waits
  | claimed t₀ => exact ⟨stands.1,by rw [failures]; exact stands.2.1,by rw [failures]; exact stands.2.2.beside beside⟩
  | refused t₀ => exact stands
  | reserved t₀ => exact ⟨stands.1,by rw [failures]; exact stands.2.1,stands.2.2.beside beside⟩
  | sent t₀ result => exact ⟨stands.1,by rw [failures]; exact stands.2.1,stands.2.2.1.beside beside,stands.2.2.2⟩
  | ended t₀ handled =>
    cases handled with
    | returns => exact stands
    | retryLater reason delay => exact stands
    | raises error => exact ⟨stands.1,by rw [failures]; exact stands.2.1,stands.2.2.beside beside⟩

theorem Errand.Open.beside (open_ : x.Open maxAttempts claims s) (stage : s'.stage = s.stage)
    (beside : Beside x.taskId x.payload.deliveryKey s.store s'.store) : x.Open maxAttempts claims s' := by
  obtain ⟨t,member,ours,limit,stands⟩ := open_.row
  obtain ⟨t',inside,same,idles⟩ := beside.tasks.row member ours
  exact ⟨open_.bound,t',inside,same,idles.limit.trans limit,stage ▸ stands.beside idles beside⟩

/-! ### The steps of a run -/

theorem Errand.Open.goes (open_ : x.Open maxAttempts claims s) (tasks : s'.store.db.tasks = s.store.db.tasks)
    (stands : ∀ t, x.Stands maxAttempts claims s.store t s.stage → x.Stands maxAttempts claims s'.store t s'.stage) :
    x.Open maxAttempts claims s' := by
  obtain ⟨t,member,ours,limit,here⟩ := open_.row
  exact ⟨open_.bound,t,tasks ▸ member,ours,limit,stands t here⟩

theorem open_claim {workerId token : String} {now : Time} {db : Db} {t₀ : Task} (open_ : x.Open maxAttempts claims s)
    (waiting : s.stage = .waiting)
    (ok : claimTask s.store.db x.taskId workerId token x.worker.taskLeaseSeconds now = some (db,some t₀)) :
    x.Open maxAttempts (claims + 1) ⟨{s.store with db},.claimed t₀⟩ := by
  obtain ⟨t,member,ours,limit,stands⟩ := open_.row
  rcases claimTask_spec ok with ⟨none_,_⟩ | ⟨u,inside,same,due,_,row,_,rfl⟩
  · cases none_
  cases Option.some.inj row
  obtain rfl : u = t := s.store.db.tasks.unique inside member (same.trans ours.symm)
  rw [waiting] at stands
  rcases stands with terminal | ⟨_,count,below,tried⟩
  · simp only [Task.due,Bool.and_eq_true,decide_eq_true_eq] at due
    rcases terminal with ended | ended
    · exact absurd ended due.1.1.2
    · exact absurd ended due.1.2
  · refine ⟨below,_,Table.mem_put.mpr (.inr ⟨rfl,u,member,rfl⟩),ours,limit,ours,?_,?_⟩
    · exact congrArg (· + 1) count
    · exact count ▸ tried

theorem reserve_refused_row {host : Host} {settings : Settings} {r : Reservation} {now : Time}
    (ok : reserveDelivery host settings store r now = some (store',none)) :
    ∃ d ∈ store.deliveries, d.deliveryKey = r.deliveryKey ∧ d.reservable settings now = false := by
  unfold reserveDelivery at ok
  obtain ⟨⟨db,spaceId⟩,_,rest⟩ := Option.bind_eq_some_iff.mp ok
  dsimp only at rest
  split at rest
  · rename_i taken
    cases found : store.deliveries.find? r.deliveryKey with
    | none => simp [found] at taken
    | some d =>
      obtain ⟨member,same⟩ := Table.find?_eq_some.mp found
      exact ⟨d,member,same,by simpa [found] using taken⟩
  · simp only [Option.bind_eq_bind,Option.bind_eq_some_iff,Option.pure_def,Option.some.injEq,Prod.mk.injEq] at rest
    obtain ⟨_,_,_,never⟩ := rest
    cases never

theorem Errand.Tried.granted {n : Nat} {r : Reservation} {now : Time} {row : Option Delivery} (tried : x.Tried n store)
    (below : n < maxAttempts) (fits : x.settings.fakeExternals = true ∨ maxAttempts ≤ x.settings.deliveryMaxAttempts)
    (key : r.deliveryKey = x.payload.deliveryKey)
    (ok : reserveDelivery x.host x.settings store r now = some (store',row)) : row.isSome ∧ x.Holds (n + 1) store' := by
  cases row with
  | none =>
    obtain ⟨d,member,named,closed⟩ := reserve_refused_row ok
    rcases tried with absent | ⟨real,d',inside,here,count,failed⟩
    · exact absurd (named.trans key) (absent d member)
    · rcases fits with fake | enough
      · simp [fake] at real
      · obtain rfl : d = d' := store.deliveries.unique member inside (named.trans (key.trans here.symm))
        simp only [Delivery.reservable,failed,DeliveryStatus.settled] at closed
        simp at closed
        omega
  | some d =>
    refine ⟨rfl,?_⟩
    obtain ⟨named,next,_,_⟩ := reserve_granted ok
    rcases reserveDelivery_spec ok with ⟨none_,_⟩ | ⟨_,same,_,status,rows,_⟩
    · cases none_
    cases Option.some.inj same
    refine ⟨d,(rows d).mpr (.inl rfl),named.trans key,?_,.inl status⟩
    have few : store.attemptCount r.deliveryKey ≤ n := by
      rw [key]
      rcases tried with absent | ⟨_,d',inside,here,count,_⟩
      · simp [attemptCount_absent absent]
      · rw [← here,attemptCount_eq inside]
        exact count
    omega

theorem Errand.Open.apart_row {db : Db} (open_ : x.Open maxAttempts claims s) (apart : Apart x.taskId s.store.db db) :
    ∃ t ∈ s.store.db.tasks, x.Stands maxAttempts claims s.store t s.stage ∧
      ∃ t' ∈ db.tasks, t'.id = x.taskId ∧ t'.maxAttempts = maxAttempts ∧ t.Idles t' := by
  obtain ⟨t,member,ours,limit,stands⟩ := open_.row
  obtain ⟨t',inside,same,idles⟩ := apart.row member ours
  exact ⟨t,member,stands,t',inside,same,idles.limit.trans limit,idles⟩

theorem open_reserve {r : Reservation} {now : Time} {row : Option Delivery} (open_ : x.Open maxAttempts claims s) {t₀ : Task}
    (claimed : s.stage = .claimed t₀) (fits : x.settings.fakeExternals = true ∨ maxAttempts ≤ x.settings.deliveryMaxAttempts)
    (key : r.deliveryKey = x.payload.deliveryKey)
    (ok : reserveDelivery x.host x.settings s.store r now = some (store',row)) :
    row.isSome ∧ x.Open maxAttempts claims ⟨store',.reserved t₀⟩ := by
  obtain ⟨t,member,stands,t',inside,ours,limit,idles⟩ := open_.apart_row (reserve_apart ok)
  rw [claimed] at stands
  obtain ⟨here,count,tried⟩ := stands
  have bound := open_.bound
  obtain ⟨granted,holds⟩ := tried.granted (by omega) fits key ok
  refine ⟨granted,open_.bound,t',inside,ours,limit,here,?_,count ▸ holds⟩
  rw [idles.failures]
  exact count

theorem open_mark {now : Time} {t₀ : Task} {result : Sending} (open_ : x.Open maxAttempts claims s)
    (sent : s.stage = .sent t₀ result) :
    x.Open maxAttempts claims ⟨(markSending s.store x.payload.deliveryKey now result).1,
      .ended t₀ (markSending s.store x.payload.deliveryKey now result).2⟩ := by
  apply open_.goes
  · cases result <;> simp [markSending,markSent,markUnknown,markFailed,updateStatus_db]
  intro t stands
  rw [sent] at stands
  obtain ⟨here,count,⟨d,member,named,attempts,_⟩,real⟩ := stands
  cases result with
  | returns => exact here
  | timesOut error => exact here
  | raises error =>
    have real : x.settings.fakeExternals = false := by simpa using real
    exact ⟨here,count,.inr ⟨real,_,mem_updateStatus.mpr (.inr ⟨d,member,named,rfl⟩),named,attempts,rfl⟩⟩

theorem owned_row {lease : Lease} {now : Time} {u : Task} {db : Db} (owned : u.ownedBy lease now) (inside : u ∈ db.tasks)
    (member : t ∈ db.tasks) (same : lease.taskId = t.id) : u = t :=
  db.tasks.unique inside member ((Task.claimedBy?_spec (Task.ownedBy_claimed owned)).1.trans same)

theorem Errand.Open.reported {db : Db} {t' : Task} (open_ : x.Open maxAttempts claims s) (inside : t' ∈ db.tasks) (ours : t'.id = x.taskId)
    (limit : t'.maxAttempts = maxAttempts)
    (stands : (t'.status = .completed ∨ t'.status = .deadLetter) ∨
      t'.status.waits ∧ t'.failureCount = claims ∧ claims < maxAttempts ∧ x.Tried claims s.store) :
    x.Open maxAttempts claims ⟨{s.store with db},.waiting⟩ :=
  ⟨open_.bound,t',inside,ours,limit,stands⟩

theorem open_report {uuid : TaskId → Nat} {now : Time} {t₀ : Task} {handled : Handled} {db : Db} (open_ : x.Open maxAttempts claims s)
    (ended : s.stage = .ended t₀ handled) (ok : reportTask x.worker s.store.db t₀ uuid now handled = some (db,true)) :
    x.Open maxAttempts claims ⟨{s.store with db},.waiting⟩ := by
  obtain ⟨t,member,ours,limit,stands⟩ := open_.row
  rw [ended] at stands
  cases handled with
  | returns =>
    have here : t₀.id = x.taskId := stands
    have completed : completeTask s.store.db s.store.db t₀.lease (defaultOutcome t₀) (uuid t₀.id) now = some (db,true) := ok
    rcases completeTask_spec completed with ⟨never,_⟩ | ⟨_,u,inside,owned,path⟩
    · cases never
    obtain rfl := owned_row owned inside member (here.trans ours.symm)
    have row : u.completed now ∈ (completeRow s.store.db u now).tasks := Table.mem_put.mpr (.inr ⟨rfl,u,member,rfl⟩)
    have apart : Apart x.taskId (completeRow s.store.db u now) db := by
      rcases path with ⟨_,_,_,_,_,_,_,progress⟩ | ⟨_,_,rfl⟩ | ⟨_,_,_,activate⟩
      · exact (idle_progress progress).apart
      · exact .of_tasks rfl
      · exact (idle_activateTask activate).apart
    obtain ⟨t',there,same,idles⟩ := apart.row row ours
    refine open_.reported there same (idles.limit.trans limit) (.inl (.inl ?_))
    rcases idles.status with kept | ⟨waits,_⟩
    · exact kept
    · simp [TaskStatus.waits,Task.completed] at waits
  | retryLater reason delay => exact absurd stands not_false
  | raises error =>
    obtain ⟨here,count,tried⟩ := stands
    obtain ⟨⟨db',reply⟩,failed,report⟩ := Option.map_eq_some_iff.mp ok
    simp only [Prod.map,Prod.mk.injEq,id_eq,decide_eq_true_eq] at report
    obtain ⟨rfl,notStale⟩ := report
    rcases failTask_spec failed with ⟨stale,_⟩ | ⟨u,inside,owned,path⟩
    · exact absurd stale notStale
    obtain rfl := owned_row owned inside member (here.trans ours.symm)
    have bound := open_.bound
    rcases path with ⟨_,left,rfl⟩ | ⟨_,exhausted,dead⟩
    · have more : claims < maxAttempts := by
        simp only [Task.exhausted,decide_eq_false_iff_not] at left
        omega
      refine open_.reported (Table.mem_put.mpr (.inr ⟨rfl,u,member,rfl⟩)) ours limit (.inr ⟨?_,count,more,tried⟩)
      simp [Task.failed,left,TaskStatus.waits]
    · obtain ⟨t',there,same,idles⟩ := (idle_deadLettered dead).apart.row (Table.mem_put.mpr (.inr ⟨rfl,u,member,rfl⟩)) ours
      refine open_.reported there same (idles.limit.trans limit) (.inl (.inr ?_))
      rcases idles.status with kept | ⟨waits,_⟩
      · rw [kept]
        simp [Task.failed,exhausted]
      · simp [TaskStatus.waits,Task.failed,exhausted] at waits

theorem open_step {m : Move} (open_ : x.Open maxAttempts claims s)
    (fits : x.settings.fakeExternals = true ∨ maxAttempts ≤ x.settings.deliveryMaxAttempts) (kept : x.Kept s m) (step : x.Step s m s') :
    x.Open maxAttempts (claims + if m.claims then 1 else 0) s' := by
  rcases step with own | ⟨rfl,stage,others⟩
  swap
  · exact open_.beside stage (beside_elsewhere others)
  cases m with
  | claim workerId token now =>
    simp only [Desk.next] at own
    split at own
    swap
    · cases own
    rename_i waiting
    obtain ⟨⟨db,row⟩,ok,rest⟩ := Option.bind_eq_some_iff.mp own
    obtain ⟨t₀,rfl,done⟩ := Option.bind_eq_some_iff.mp rest
    cases done
    exact open_claim open_ waiting ok
  | reserve error now =>
    simp only [Desk.next] at own
    split at own
    swap
    · cases own
    rename_i t₀ claimed
    split at own <;> cases own
    · apply open_.goes
      · rfl
      intro t stands
      rw [claimed] at stands
      exact ⟨stands.1,stands.2.1,stands.2.2.mono (by have := stands.2.1; omega)⟩
    · rename_i ok
      exact absurd (open_reserve open_ claimed fits rfl ok).1 (by decide)
    · rename_i ok
      exact (open_reserve open_ claimed fits rfl ok).2
  | look =>
    simp only [Desk.next] at own
    split at own
    · rename_i t₀ refused
      obtain ⟨_,_,_,_,stands⟩ := open_.row
      rw [refused] at stands
      exact absurd stands not_false
    · cases own
  | send chatId text result =>
    simp only [Desk.next] at own
    split at own
    swap
    · cases own
    rename_i t₀ reserved
    split at own <;> cases own
    rename_i real
    apply open_.goes
    · rfl
    intro t stands
    rw [reserved] at stands
    exact ⟨stands.1,stands.2.1,stands.2.2,.inr (by simpa using real.2.2)⟩
  | fake =>
    simp only [Desk.next] at own
    split at own
    swap
    · cases own
    rename_i t₀ reserved
    split at own <;> cases own
    apply open_.goes
    · rfl
    intro t stands
    rw [reserved] at stands
    exact ⟨stands.1,stands.2.1,stands.2.2,.inl rfl⟩
  | mark now =>
    simp only [Desk.next] at own
    split at own <;> cases own
    rename_i t₀ result sent
    exact open_mark open_ sent
  | report uuid now =>
    simp only [Desk.next] at own
    split at own
    swap
    · cases own
    rename_i t₀ handled ended
    obtain ⟨db,ok⟩ := kept t₀ handled ended
    rw [ok] at own
    cases own
    exact open_report open_ ended ok
  | elsewhere => cases own

theorem open_run {moves : List Move} (open_ : x.Open maxAttempts claims s)
    (fits : x.settings.fakeExternals = true ∨ maxAttempts ≤ x.settings.deliveryMaxAttempts)
    (run : Run (Guarded x.Kept x.Step) s moves s') : x.Open maxAttempts (claims + moves.countP Move.claims) s' := by
  induction run generalizing claims with
  | nil => exact open_
  | cons head _ ih =>
    rw [List.countP_cons,Nat.add_comm (List.countP _ _),← Nat.add_assoc]
    exact ih (open_step open_ fits head.1 head.2)

theorem open_start (begins : x.Begins maxAttempts s) (positive : 0 < maxAttempts) : x.Open maxAttempts 0 s := by
  obtain ⟨t,member,ours,limit,fresh,status⟩ := begins.task
  refine ⟨Nat.zero_le _,t,member,ours,limit,?_⟩
  rw [begins.waiting]
  refine .inr ⟨?_,fresh,positive,.inl begins.untouched⟩
  rcases status with blocked | queued
  · exact .inl blocked
  · exact .inr (.inl queued)

/-- Where the task may fail no more often than the delivery may be reserved, a task that
is always reported under its lease is claimed `max_attempts` times at most, and then it
is completed or a dead letter. -/
theorem delivery_task_ends (x : Errand) {maxAttempts : Nat} {start : Desk} (begins : x.Begins maxAttempts start)
    (positive : 0 < maxAttempts) (fits : x.settings.fakeExternals = true ∨ maxAttempts ≤ x.settings.deliveryMaxAttempts) :
    ¬ Endless (x.HandleRun x.Kept) start ∧ ∀ moves s, Run (Guarded x.Kept x.Step) start moves s →
      moves.countP Move.claims ≤ maxAttempts ∧
        (s.stage = .waiting → moves.countP Move.claims = maxAttempts → x.Terminal s) := by
  have opened (moves : List Move) (s : Desk) (run : Run (Guarded x.Kept x.Step) start moves s) :
      x.Open maxAttempts (moves.countP Move.claims) s := by
    simpa using open_run (open_start begins positive) fits run
  constructor
  · rintro ⟨f,first,related⟩
    have reached : ∀ n, ∃ moves, Run (Guarded x.Kept x.Step) start moves (f n) ∧ moves.countP Move.claims = n := by
      intro n
      induction n with
      | zero => exact ⟨[],first ▸ .nil _,rfl⟩
      | succ n ih =>
        obtain ⟨before,run,count⟩ := ih
        obtain ⟨_,_,moves,more,one⟩ := related n
        exact ⟨before ++ moves,run.append more,by rw [List.countP_append,count,one]⟩
    obtain ⟨moves,run,count⟩ := reached (maxAttempts + 1)
    have bound := (opened moves _ run).bound
    omega
  · intro moves s run
    refine ⟨(opened moves s run).bound,fun waiting all => ?_⟩
    obtain ⟨t,member,ours,_,stands⟩ := (opened moves s run).row
    rw [waiting] at stands
    rcases stands with terminal | ⟨_,_,below,_⟩
    · exact ⟨t,member,ours,terminal⟩
    · omega

/-! ### The exhausted delivery -/

/-- A task between two runs that can be claimed again, its delivery failed for good. -/
structure Errand.Stuck (x : Errand) (s : Desk) : Prop where
  waiting : s.stage = .waiting
  task : ∃ t ∈ s.store.db.tasks, t.id = x.taskId ∧ t.status = .retry ∧
    (∀ a ∈ s.store.db.attempts, a.taskId = x.taskId → a.attemptNo ≤ t.attemptCount) ∧
    (s.store.db.spaces.find? t.spaceId).any (·.tenantId = (truthy (some t.tenantId)).getD defaultTenantId)
  delivery : ∃ d ∈ s.store.deliveries, d.deliveryKey = x.payload.deliveryKey ∧ d.status = .failed ∧
    x.settings.deliveryMaxAttempts ≤ d.attemptCount

theorem mem_expireAttempt {attempts : Table TaskAttempt.key} {t : Task} {now : Time} {a : TaskAttempt}
    (member : a ∈ expireAttempt attempts t now) : ∃ b ∈ attempts, a.taskId = b.taskId ∧ a.attemptNo = b.attemptNo := by
  obtain ⟨b,inside,rfl⟩ := Table.mem_updateWhere.mp member
  refine ⟨b,inside,?_⟩
  split <;> exact ⟨rfl,rfl⟩

theorem claimTask_ok {db : Db} {now : Time} (workerId token : String) (stale : Int) (member : t ∈ db.tasks) (retry : t.status = .retry)
    (due : t.nextRetryAt.all (· ≤ now)) (numbers : ∀ a ∈ db.attempts, a.taskId = t.id → a.attemptNo ≤ t.attemptCount) :
    ∃ attempts, claimTask db t.id workerId token stale now =
        some ({db with tasks := db.tasks.put (t.claimed workerId token (now + seconds (max 1 stale)) now),attempts},
          some (t.claimed workerId token (now + seconds (max 1 stale)) now)) ∧
      ∀ a ∈ attempts, a.taskId = t.id → a.attemptNo ≤ t.attemptCount + 1 := by
  have free : t.due now && t.unleased now (now - seconds (max 1 stale)) := by
    simp [Task.due,Task.unleased,retry,due]
  let row : TaskAttempt := {taskId := t.id,workerId,attemptNo := t.attemptCount + 1,status := .running,startedAt := now}
  obtain ⟨attempts,inserted⟩ := (expireAttempt db.attempts t now).insertAll_of_fresh [row] (by simp) (by
    intro r single a inside same
    rw [List.mem_singleton.mp single] at same
    obtain ⟨b,before,task,number⟩ := mem_expireAttempt inside
    have equal : a.taskId = t.id ∧ a.attemptNo = t.attemptCount + 1 := Prod.mk.inj same
    have := numbers b before (task.symm.trans equal.1)
    omega)
  have inserted : (expireAttempt db.attempts t now).insert row = some attempts := by
    simpa [Table.insertAll] using inserted
  refine ⟨attempts,?_,?_⟩
  · simp only [claimTask,Table.find?_mem member,Option.filter_some,free,if_true]
    rw [show (Task.claimed t workerId token (now + seconds (max 1 stale)) now).attemptCount = t.attemptCount + 1 from rfl,inserted]
    rfl
  · intro a inside same
    rcases (Table.mem_insert inserted).mp inside with before | rfl
    · obtain ⟨b,there,task,number⟩ := mem_expireAttempt before
      have := numbers b there (task.symm.trans same)
      omega
    · exact le_refl _

theorem ensureTenantSpace_ok {host : Host} {db : Db} {spaceId tenantId source : String}
    (known : (db.spaces.find? spaceId).any (·.tenantId = tenantId)) : ensureTenantSpace host db spaceId tenantId source = some (db,spaceId) := by
  simp [ensureTenantSpace,known]

theorem reserveDelivery_exhausted {host : Host} {settings : Settings} {r : Reservation} {now : Time} {d : Delivery}
    (known : (store.db.spaces.find? r.spaceId).any (·.tenantId = r.tenantId)) (member : d ∈ store.deliveries)
    (key : d.deliveryKey = r.deliveryKey) (exhausted : settings.deliveryMaxAttempts ≤ d.attemptCount) :
    reserveDelivery host settings store r now = some (store,none) := by
  have closed : d.reservable settings now = false := by
    simp [Delivery.reservable,Nat.not_lt.mpr exhausted]
  have found : store.deliveries.find? r.deliveryKey = some d := Table.find?_eq_some.mpr ⟨member,key⟩
  simp [reserveDelivery,ensureTenantSpace_ok known,found,closed]

theorem deferTask_ok {db : Db} {c : Task} {token : String} {expires now : Time} (reason : String) (delay : Int) (member : c ∈ db.tasks)
    (running : c.status = .running) (tokened : c.leaseToken = some token) (leased : c.leaseExpiresAt = some expires)
    (held : now < expires) :
    ∃ attempts, deferTask db c.lease reason delay now =
        ({db with tasks := db.tasks.put (c.deferred reason (retryTime delay now)),attempts},true) ∧
      ∀ a ∈ attempts, ∃ b ∈ db.attempts, a.taskId = b.taskId ∧ a.attemptNo = b.attemptNo := by
  have owned : ownedRunningTask db c.lease now = some c := by
    have found : db.tasks.find? c.lease.taskId = some c := Table.find?_mem member
    rw [ownedRunningTask,found]
    simp [Task.ownedBy,Task.claimedBy?,Task.lease,running,tokened,leased,held]
  refine ⟨_,by rw [deferTask,owned],?_⟩
  intro a there
  obtain ⟨b,before,rfl⟩ := Table.mem_updateWhere.mp there
  refine ⟨b,before,?_⟩
  split <;> exact ⟨rfl,rfl⟩

theorem lease_held (now : Time) (leaseSeconds : Int) : now < now + seconds (max 1 leaseSeconds) := by
  have positive : 0 < max 1 leaseSeconds * 1000 := by omega
  exact Int.lt_add_of_pos_right now positive

def Desk.at (s : Desk) (db : Db) (stage : Stage) : Desk := ⟨{s.store with db},stage⟩

/-- A run that claims the task, is refused the delivery and defers the task. -/
theorem stuck_again (stuck : x.Stuck s) : ∃ s', x.HandleRun Raising s s' ∧ x.Stuck s' := by
  obtain ⟨t,member,ours,retry,numbers,known⟩ := stuck.task
  obtain ⟨d,inside,key,failed,exhausted⟩ := stuck.delivery
  let now := t.nextRetryAt.getD 0
  let reason := "delivery is already reserved"
  have due : t.nextRetryAt.all (· ≤ now) := by
    cases given : t.nextRetryAt <;> simp [now,given]
  obtain ⟨attempts,claimed,numbers'⟩ := claimTask_ok "worker" "token" x.worker.taskLeaseSeconds member
    retry due (ours ▸ numbers)
  rw [ours] at claimed
  generalize row : t.claimed "worker" "token" (now + seconds (max 1 x.worker.taskLeaseSeconds)) now = c at claimed
  have inTable : c ∈ s.store.db.tasks.put c := Table.mem_put.mpr (.inr ⟨rfl,t,member,by rw [← row]; rfl⟩)
  let db : Db := {s.store.db with tasks := s.store.db.tasks.put c,attempts}
  obtain ⟨attempts',deferred,same⟩ := deferTask_ok reason 1000 (show c ∈ db.tasks from inTable)
    (by rw [← row]; rfl) (by rw [← row]; rfl) (by rw [← row]; rfl) (lease_held now x.worker.taskLeaseSeconds)
  let db' : Db := {db with tasks := db.tasks.put (c.deferred reason (retryTime 1000 now)),attempts := attempts'}
  have refused : reserveDelivery x.host x.settings {s.store with db} (x.payload.reservation c) now = some ({s.store with db},none) :=
    reserveDelivery_exhausted (by rw [← row]; exact known) inside key exhausted
  have answer : refusedDelivery (s.store.deliveries.find? x.payload.deliveryKey) = .retryLater reason 1000 := by
    have found : s.store.deliveries.find? x.payload.deliveryKey = some d := Table.find?_eq_some.mpr ⟨inside,key⟩
    simp [refusedDelivery,found,failed,DeliveryStatus.settled,reason]
  refine ⟨s.at db' .waiting,⟨stuck.waiting,rfl,[.claim "worker" "token" now,.reserve "" now,.look,.report (fun _ => 0) now],?_,rfl⟩,?_⟩
  · have first : x.Step s (.claim "worker" "token" now) (s.at db (.claimed c)) :=
      .inl (by simp [Desk.next,stuck.waiting,claimed,Desk.at,db])
    have second : x.Step (s.at db (.claimed c)) (.reserve "" now) (s.at db (.refused c)) := .inl (by simp [Desk.next,Desk.at,refused])
    have third : x.Step (s.at db (.refused c)) .look (s.at db (.ended c (.retryLater reason 1000))) :=
      .inl (by simp [Desk.next,Desk.at,answer])
    have last : x.Step (s.at db (.ended c (.retryLater reason 1000))) (.report (fun _ => 0) now) (s.at db' .waiting) :=
      .inl (by simp [Desk.next,Desk.at,reportTask,deferred,db'])
    exact .cons ⟨trivial,first⟩ <| .cons ⟨trivial,second⟩ <| .cons ⟨trivial,third⟩ <| .cons ⟨trivial,last⟩ <| .nil _
  · refine ⟨rfl,⟨c.deferred reason (retryTime 1000 now),?_,?_,rfl,?_,?_⟩,d,inside,key,failed,exhausted⟩
    · exact Table.mem_put.mpr (.inr ⟨rfl,c,inTable,rfl⟩)
    · rw [← row]
      exact ours
    · intro a there named
      obtain ⟨b,before,task,number⟩ := same a there
      have bound := numbers' b before (task.symm.trans (named.trans ours.symm))
      rw [number,← row]
      exact bound
    · rw [← row]
      exact known

theorem stuck_endless (stuck : x.Stuck s) : Endless (x.HandleRun Raising) s :=
  .of_again x.Stuck (fun _ stuck => stuck_again stuck) stuck

instance (s : Desk) : ∀ m, Decidable (Raising s m)
  | .send _ _ result => inferInstanceAs (Decidable (result ≠ .returns))
  | .claim .. | .reserve .. | .look | .fake | .mark _ | .report .. | .elsewhere => .isTrue trivial

def Errand.move (x : Errand) (s : Desk) (m : Move) : Option Desk := s.next x.host x.settings x.worker x.payload x.taskId m

theorem Errand.HandleRun.of_moves (moves : List Move) (waiting : s.stage = .waiting) (waiting' : s'.stage = .waiting)
    (one : moves.countP Move.claims = 1)
    (computed : moves.foldlM (fun s m => if Raising s m then x.move s m else none) s = some s') : x.HandleRun Raising s s' :=
  ⟨waiting,waiting',moves,(Run.of_guarded_foldlM computed).imp (fun _ _ _ step => ⟨step.1,.inl step.2⟩),one⟩

/-- The default limit of the task and one of the delivery. -/
def newsErrand (deliveryMaxAttempts : Nat) : Errand where
  host := asciiHost
  settings := ⟨deliveryMaxAttempts,600,false⟩
  worker := {}
  payload := {deliveryKey := "k",chatId := "room",text := "news"}
  taskId := "task"

def newsTask : NewTask where
  taskType := "delivery"
  spaceId := "room"
  idempotencyKey := "delivery:k"
  payload := {}
  maxAttempts := 5

def newsDesk : Desk := ⟨{db := ({} : Db).after asciiHost 0 (.enqueueTask newsTask "task" 0)},.waiting⟩

theorem newsDesk_begins (deliveryMaxAttempts : Nat) : (newsErrand deliveryMaxAttempts).Begins 5 newsDesk where
  waiting := rfl
  task := ⟨_,List.Mem.head _,rfl,rfl,rfl,.inr rfl⟩
  untouched d member := absurd member (Table.not_mem_empty d)

def raisingRun (now : Time) : List Move :=
  [.claim "worker" "token" now,.reserve "" now,.send "room" "news" (.raises "ConnectionError: reset"),.mark now,.report (fun _ => 0) now]

def newsAfter (times : List Time) : Desk := ((times.flatMap raisingRun).foldlM (newsErrand 3).move newsDesk).getD newsDesk

theorem delivery_task_unending :
    ¬ ∀ (x : Errand) (maxAttempts : Nat) (start : Desk), 1 ≤ maxAttempts → 1 ≤ x.settings.deliveryMaxAttempts →
      x.Begins maxAttempts start → ¬ Endless (x.HandleRun Raising) start := by
  intro ends
  have first : (newsErrand 3).HandleRun Raising newsDesk (newsAfter [0]) := .of_moves (raisingRun 0) rfl rfl rfl rfl
  have second : (newsErrand 3).HandleRun Raising (newsAfter [0]) (newsAfter [0,2000]) := .of_moves (raisingRun 2000) rfl rfl rfl rfl
  have third : (newsErrand 3).HandleRun Raising (newsAfter [0,2000]) (newsAfter [0,2000,6000]) :=
    .of_moves (raisingRun 6000) rfl rfl rfl rfl
  have stuck : (newsErrand 3).Stuck (newsAfter [0,2000,6000]) :=
    ⟨rfl,⟨_,List.Mem.head _,rfl,rfl,by decide,rfl⟩,_,List.Mem.head _,rfl,rfl,by decide⟩
  exact ends (newsErrand 3) 5 newsDesk (by decide) (by decide) (newsDesk_begins 3)
    (.cons first <| .cons second <| .cons third <| stuck_endless stuck)

theorem delivery_task_ends_news : ¬ Endless ((newsErrand 5).HandleRun (newsErrand 5).Kept) newsDesk :=
  (delivery_task_ends (newsErrand 5) (newsDesk_begins 5) (by decide) (.inr (by decide))).1

end Suixinji.Deliveries
