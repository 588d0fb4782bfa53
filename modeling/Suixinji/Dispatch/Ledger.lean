import Suixinji.Dispatch.Effects

/-! The attempt rows of a task as a ledger of its counters. -/
namespace Suixinji.Dispatch
open Suixinji.Relational Suixinji.Transition

/-! ### Steps that touch no attempt -/

def TaskStatus.waits (s : TaskStatus) : Prop := s = .blocked ∨ s = .queued ∨ s = .retry ∨ s = .cancelled

/-- The counters stay, and a status changes only from one that waits to another. -/
structure Task.Idles (t t' : Task) : Prop where
  attempts : t'.attemptCount = t.attemptCount
  failures : t'.failureCount = t.failureCount
  deferrals : t'.deferCount = t.deferCount
  limit : t'.maxAttempts = t.maxAttempts
  status : t'.status = t.status ∨ t.status.waits ∧ t'.status.waits

/-- A task that has never been claimed. -/
structure Task.Fresh (t : Task) : Prop where
  attempts : t.attemptCount = 0
  failures : t.failureCount = 0
  deferrals : t.deferCount = 0
  status : t.status.waits

theorem Task.Idles.refl (t : Task) : t.Idles t := ⟨rfl,rfl,rfl,rfl,.inl rfl⟩

theorem Task.Idles.trans {t u v : Task} (first : t.Idles u) (second : u.Idles v) : t.Idles v where
  attempts := second.attempts.trans first.attempts
  failures := second.failures.trans first.failures
  deferrals := second.deferrals.trans first.deferrals
  limit := second.limit.trans first.limit
  status := by
    rcases first.status with same | ⟨before,after⟩
    · rw [← same]
      exact second.status
    · rcases second.status with same | ⟨_,last⟩
      · exact .inr ⟨before,same ▸ after⟩
      · exact .inr ⟨before,last⟩

theorem Task.Fresh.idles {t t' : Task} (fresh : t.Fresh) (idles : t.Idles t') : t'.Fresh where
  attempts := idles.attempts.trans fresh.attempts
  failures := idles.failures.trans fresh.failures
  deferrals := idles.deferrals.trans fresh.deferrals
  status := by
    rcases idles.status with same | ⟨_,after⟩
    · exact same ▸ fresh.status
    · exact after

/-- The attempts stay as they are, the tasks wait as before or are new. -/
structure Idle (db db' : Db) : Prop where
  attempts : db'.attempts = db.attempts
  tasks : Table.Evolves Task.Idles Task.Fresh db.tasks db'.tasks

section Steps
variable {db db' db₁ : Db}

theorem Idle.of_tasks (attempts : db'.attempts = db.attempts) (same : db'.tasks = db.tasks) : Idle db db' :=
  ⟨attempts,by rw [same]; exact .refl (fun t _ => .refl t)⟩

theorem Idle.refl (db : Db) : Idle db db := .of_tasks rfl rfl

theorem Idle.trans (first : Idle db db₁) (second : Idle db₁ db') : Idle db db' :=
  ⟨second.attempts.trans first.attempts,
    first.tasks.trans second.tasks Task.Idles.trans (fun _ fresh idles => fresh.idles idles)⟩

theorem Idle.behind (later : Idle db₁ db') (attempts : db₁.attempts = db.attempts) (same : db₁.tasks = db.tasks) : Idle db db' :=
  Idle.trans (.of_tasks attempts same) later

theorem Idle.of_update {p : Task → Bool} {f : Task → Task} (attempts : db'.attempts = db.attempts)
    (rows : db'.tasks.rows = db.tasks.rows.map (fun t => if p t then f t else t))
    (waits : ∀ t, p t → (f t).id = t.id ∧ t.Idles (f t)) : Idle db db' :=
  ⟨attempts,.of_updateWhere rows (fun t _ => waits t) (fun t _ _ => .refl t)⟩

theorem requeued_idles {t : Task} (waits : t.status.waits) : t.Idles t.requeued :=
  ⟨rfl,rfl,rfl,rfl,.inr ⟨waits,.inr (.inl rfl)⟩⟩

theorem cancelled_idles {t : Task} (waits : t.status.waits) (reason : String) (now : Time) : t.Idles (t.cancelled reason now) :=
  ⟨rfl,rfl,rfl,rfl,.inr ⟨waits,.inr (.inr (.inr rfl))⟩⟩

theorem idle_advance {s : Space} {uuid : TaskId → Nat} {now : Time}
    (ok : advanceWatermarksInSession db s uuid now = some db') : Idle db db' := by
  obtain ⟨_,_,rfl⟩ := advanceWatermarksInSession_spec ok
  exact .of_update rfl rfl (fun t released => ⟨rfl,requeued_idles (.inl (Space.releases_blocked released).2)⟩)

theorem idle_stage {inboxId : InboxId} {a : Stages} {uuid : TaskId → Nat} {now : Time}
    (ok : completeInboxStageInSession db inboxId a uuid now = some db') : Idle db db' := by
  obtain ⟨m,_,_,s,_,_,advance⟩ := completeInboxStageInSession_spec ok
  exact (idle_advance advance).behind rfl rfl

theorem idle_skip {inboxId : InboxId} {finalStatus : InboxStatus} {cancelRootTask : Bool}
    {uuid : TaskId → Nat} {now : Time} {found : Bool}
    (ok : skipInboxRecord db inboxId finalStatus cancelRootTask uuid now = some (db',found)) : Idle db db' := by
  rcases skipInboxRecord_spec ok with ⟨rfl,_⟩ | ⟨m,_,_,s,_,_,advance⟩
  · exact .refl _
  · refine Idle.trans ?_ (idle_advance advance)
    cases cancelRootTask with
    | false => exact .of_tasks rfl rfl
    | true =>
      refine .of_update rfl rfl (fun t chosen => ⟨rfl,cancelled_idles ?_ _ _⟩)
      simp only [Task.waitingIngest,Bool.and_eq_true,Bool.or_eq_true,decide_eq_true_eq] at chosen
      rcases chosen.2.2 with (blocked | queued) | retry
      · exact .inl blocked
      · exact .inr (.inl queued)
      · exact .inr (.inr (.inl retry))

theorem idle_activateTask {taskId : TaskId} {uuid : Nat} {now : Time}
    (ok : activateTaskInSession db taskId uuid now = some db') : Idle db db' := by
  obtain ⟨t,member,_,⟨_,rfl⟩ | ⟨blocked,_,_,rfl⟩⟩ := activateTaskInSession_spec ok
  · exact .refl _
  · exact ⟨rfl,.put_of_mem member rfl (requeued_idles (.inl blocked)) (fun t _ _ => .refl t)⟩

theorem idle_progress {snap : Db} {o : InboxOutcome} {now : Time} (ok : progressInbox snap db o now = some db') :
    Idle db db' := by
  rcases progressInbox_spec ok with ⟨_,rfl⟩ | ⟨m,_,_,⟨_,rfl⟩ | ⟨_,_,_,s,_,_,activate⟩⟩
  · exact .refl _
  · exact .of_tasks rfl rfl
  · obtain ⟨_,hit,releases,rfl⟩ := activateInStatement_spec activate
    refine .of_update rfl rfl (fun t chosen => ⟨rfl,requeued_idles (.inl ?_)⟩)
    rw [releases,Bool.and_eq_true] at chosen
    exact (Space.releasesInStatement_blocked chosen.2).2

theorem idle_dependents (t : Task) (error : String) (now : Time) : Idle db (dependentsCancelled db t error now) := by
  unfold dependentsCancelled
  split
  · refine .of_update rfl rfl (fun t chosen => ⟨rfl,cancelled_idles (.inl ?_) _ _⟩)
    simp only [Bool.and_eq_true,decide_eq_true_eq] at chosen
    exact chosen.1
  · exact .refl _

theorem idle_deadLettered {t : Task} {error : String} {uuid : TaskId → Nat} {now : Time}
    (ok : deadLettered db t error uuid now = some db') : Idle db db' := by
  rcases deadLettered_spec ok with ⟨_,rfl⟩ | ⟨_,_,db₁,before,after⟩
  · exact idle_dependents _ _ _
  · refine Idle.trans ?_ (idle_stage after)
    rcases before with ⟨_,rfl⟩ | ⟨_,memory⟩
    · exact idle_dependents _ _ _
    · exact (idle_dependents _ _ _).trans (idle_stage memory)

theorem idle_enqueue {new : NewTask} {taskId id : TaskId} {uuid : Nat} {now : Time} {created : Bool}
    (waits : new.initialStatus.waits) (ok : enqueueTaskInSession db new taskId uuid now = some (db',id,created)) : Idle db db' := by
  rcases enqueueTaskInSession_spec ok with ⟨_,rfl,_⟩ | ⟨_,_,_,_,tasks,outbox,inserted,_,rfl⟩
  · exact .refl _
  · exact ⟨rfl,.insert inserted (fun t _ => .refl t) ⟨rfl,rfl,rfl,waits⟩⟩

theorem idle_ensure {host : Host} {sourceSpaceId tenantId source : String} {spaceId : SpaceId}
    (ok : ensureTenantSpace host db sourceSpaceId tenantId source = some (db',spaceId)) : Idle db db' := by
  obtain ⟨_,_,written⟩ := ensureTenantSpace_spec ok
  rcases withSpace_spec written with ⟨_,rfl⟩ | ⟨_,_,_,_,rfl⟩
  · exact .refl _
  · exact .of_tasks rfl rfl

theorem rootTask_waits (host : Host) (c : Command) (s : Space) (m : InboxMessage) : (c.rootTask host s m).initialStatus.waits := by
  have either {p : Prop} [Decidable p] : (if p then TaskStatus.blocked else .queued).waits := by
    split
    · exact .inl rfl
    · exact .inr (.inl rfl)
  exact either

theorem idle_receive {host : Host} {c : Command} {draws : Draws} {now : Time} {result : DispatchResult}
    (ok : receiveCommand host db c draws now = some (db',result)) : Idle db db' := by
  obtain ⟨db₁,spaceId,ensured,received⟩ := receiveCommand_spec ok
  refine (idle_ensure ensured).trans ?_
  rcases receiveInSpace_spec received with ⟨rfl,_⟩ | ⟨_,m,db₂,_,message,rest⟩
  · exact .refl _
  obtain ⟨_,_,_,rfl⟩ := insertMessage_spec message
  obtain ⟨s,_,_,db₃,_,_,enqueued,_,last⟩ := receiveMessage_spec rest
  refine Idle.behind ((idle_enqueue (rootTask_waits host c s m) enqueued).trans ?_) rfl rfl
  rcases last with ⟨_,rfl⟩ | ⟨_,advance⟩
  · exact .refl _
  · exact idle_advance advance

end Steps

/-! ### The ledger of a task -/

def Db.ledger (db : Db) (id : TaskId) : List TaskAttempt := db.attempts.rows.filter (·.taskId = id)

def AttemptStatus.failure (s : AttemptStatus) : Bool := s = .failed || s = .deadLetter

/-- The rows balance with the task: numbered without a gap, as many failures and deferrals
as it counts, and the last one running just while the task runs. -/
structure Task.Balances (t : Task) (rows : List TaskAttempt) : Prop where
  numbered : (rows.map TaskAttempt.attemptNo).Perm (List.range' 1 t.attemptCount)
  failures : rows.countP (·.status.failure) = t.failureCount
  deferrals : rows.countP (·.status = .deferred) = t.deferCount
  running : ∀ a ∈ rows, a.status = .running ↔ a.attemptNo = t.attemptCount ∧ t.status = .running
  started : t.status = .running → 0 < t.attemptCount
  completed : rows.countP (·.status = .completed) = if t.status = .completed then 1 else 0
  dead : t.status = .deadLetter → t.maxAttempts ≤ t.failureCount

section Rows
variable {t t' : Task} {rows : List TaskAttempt}

theorem Task.Idles.running (idles : t.Idles t') : t'.status = .running ↔ t.status = .running := by
  rcases idles.status with same | ⟨before,after⟩
  · rw [same]
  · constructor <;> intro running
    · rw [running] at after
      simp [TaskStatus.waits] at after
    · rw [running] at before
      simp [TaskStatus.waits] at before

theorem Task.Balances.idle (balances : t.Balances rows) (idles : t.Idles t') : t'.Balances rows where
  numbered := by
    rw [idles.attempts]
    exact balances.numbered
  failures := balances.failures.trans idles.failures.symm
  deferrals := balances.deferrals.trans idles.deferrals.symm
  running a member := by
    rw [idles.running,idles.attempts]
    exact balances.running a member
  started running := by
    rw [idles.attempts]
    exact balances.started (idles.running.mp running)
  completed := by
    rw [balances.completed]
    rcases idles.status with same | ⟨before,after⟩
    · rw [same]
    · rw [if_neg (by rintro done; simp [done,TaskStatus.waits] at before),if_neg (by rintro done; simp [done,TaskStatus.waits] at after)]
  dead ended := by
    rcases idles.status with same | ⟨_,after⟩
    · rw [idles.limit,idles.failures]
      exact balances.dead (same ▸ ended)
    · simp [ended,TaskStatus.waits] at after

theorem Task.Fresh.balances (fresh : t.Fresh) : t.Balances [] := by
  have waits := fresh.status
  refine ⟨?_,fresh.failures.symm,fresh.deferrals.symm,nofun,?_,?_,?_⟩
  · rw [fresh.attempts]
    exact .nil
  · intro running
    simp [running,TaskStatus.waits] at waits
  · exact (if_neg (by rintro done; simp [done,TaskStatus.waits] at waits)).symm
  · intro ended
    simp [ended,TaskStatus.waits] at waits

theorem Task.Balances.current (balances : t.Balances rows) (running : t.status = .running) : ∃ before a after,
    rows = before ++ a::after ∧ a.attemptNo = t.attemptCount ∧ ∀ b ∈ before ++ after, b.attemptNo ≠ t.attemptCount := by
  have listed : t.attemptCount ∈ rows.map TaskAttempt.attemptNo := by
    rw [balances.numbered.mem_iff,List.mem_range'_1]
    have started := balances.started running
    omega
  obtain ⟨a,member,number⟩ := List.mem_map.mp listed
  obtain ⟨before,after,rfl⟩ := List.append_of_mem member
  refine ⟨before,a,after,rfl,number,fun b other same => ?_⟩
  have distinct := balances.numbered.nodup_iff.mpr (List.nodup_range' ..)
  rw [List.map_append,List.map_cons] at distinct
  have apart := (List.nodup_middle.mp distinct).notMem
  rw [← List.map_append] at apart
  exact apart (List.mem_map.mpr ⟨b,other,same.trans number.symm⟩)

/-- The rows once the current attempt has ended. -/
def closeRow (n : Nat) (f : TaskAttempt → TaskAttempt) (rows : List TaskAttempt) : List TaskAttempt :=
  rows.map (fun a => if a.attemptNo = n then f a else a)

section Closed
variable {f : TaskAttempt → TaskAttempt} {ended : AttemptStatus}

theorem closed_numbers (number : ∀ a, (f a).attemptNo = a.attemptNo) : (closeRow t.attemptCount f rows).map TaskAttempt.attemptNo = rows.map TaskAttempt.attemptNo := by
  rw [closeRow,List.map_map]
  refine List.map_congr_left (fun a _ => ?_)
  dsimp only [Function.comp_apply]
  split
  · exact number a
  · rfl

theorem closed_count (balances : t.Balances rows) (running : t.status = .running) (status : ∀ a, (f a).status = ended)
    (q : AttemptStatus → Bool) (open_ : q .running = false) :
    (closeRow t.attemptCount f rows).countP (fun a => q a.status) = rows.countP (fun a => q a.status) + if q ended then 1 else 0 := by
  obtain ⟨before,a,after,rfl,last,others⟩ := balances.current running
  have kept (part : List TaskAttempt) (inside : part ⊆ before ++ after) : closeRow t.attemptCount f part = part := by
    refine (List.map_congr_left (fun b member => ?_)).trans (List.map_id part)
    exact if_neg (others b (inside member))
  have now_ : a.status = .running := (balances.running a (by simp)).mpr ⟨last,running⟩
  have split : closeRow t.attemptCount f (before ++ a::after) = before ++ f a::after := by
    rw [closeRow,List.map_append,List.map_cons,if_pos last]
    rw [← closeRow,← closeRow,kept before (List.subset_append_left _ _),kept after (List.subset_append_right _ _)]
  rw [split,List.countP_append,List.countP_append,List.countP_cons,List.countP_cons,status,now_,open_]
  simp [Nat.add_assoc]

theorem closed_stopped (balances : t.Balances rows) (status : ∀ a, (f a).status = ended) (stops : ended ≠ .running) : ∀ a ∈ closeRow t.attemptCount f rows, a.status ≠ .running := by
  intro a member
  obtain ⟨b,inside,rfl⟩ := List.mem_map.mp member
  split
  · rw [status]
    exact stops
  · rename_i other
    exact fun still => other ((balances.running b inside).mp still).1

theorem Task.Balances.closed (ended : AttemptStatus) (balances : t.Balances rows) (running : t.status = .running)
    (number : ∀ a, (f a).attemptNo = a.attemptNo) (status : ∀ a, (f a).status = ended) (attempts : t'.attemptCount = t.attemptCount)
    (stops : ended ≠ .running) (stopped : t'.status ≠ .running)
    (failures : t'.failureCount = t.failureCount + if ended.failure then 1 else 0)
    (deferrals : t'.deferCount = t.deferCount + if ended = .deferred then 1 else 0)
    (completed : t'.status = .completed ↔ ended = .completed) (dead : t'.status = .deadLetter → t'.maxAttempts ≤ t'.failureCount) :
    t'.Balances (closeRow t.attemptCount f rows) where
  numbered := by
    rw [closed_numbers number,attempts]
    exact balances.numbered
  failures := by
    rw [closed_count balances running status AttemptStatus.failure rfl,balances.failures,failures]
  deferrals := by
    rw [closed_count balances running status (· = .deferred) rfl,balances.deferrals,deferrals]
    simp only [decide_eq_true_eq]
  running a member :=
    iff_of_false (closed_stopped balances status stops a member) (fun both => stopped both.2)
  started again := absurd again stopped
  completed := by
    rw [closed_count balances running status (· = .completed) rfl,balances.completed,if_neg (by rw [running]; decide)]
    simp only [Nat.zero_add,decide_eq_true_eq,completed]
  dead := dead

end Closed

/-- The rows a claim finds, once the attempt that still ran has expired. -/
structure Settled (rows before : List TaskAttempt) : Prop where
  numbers : before.map TaskAttempt.attemptNo = rows.map TaskAttempt.attemptNo
  counts : ∀ q : AttemptStatus → Bool, q .running = false → q .leaseExpired = false →
    before.countP (fun a => q a.status) = rows.countP (fun a => q a.status)
  stopped : ∀ a ∈ before, a.status ≠ .running

theorem Task.Balances.settled {f : TaskAttempt → TaskAttempt} (balances : t.Balances rows) (number : ∀ a, (f a).attemptNo = a.attemptNo)
    (status : ∀ a, (f a).status = .leaseExpired) :
    Settled rows (if t.status = .running then closeRow t.attemptCount f rows else rows) := by
  split
  · rename_i running
    refine ⟨closed_numbers number,fun q open_ expired => ?_,closed_stopped balances status (by decide)⟩
    rw [closed_count balances running status q open_,expired]
    rfl
  · rename_i waits
    exact ⟨rfl,fun _ _ _ => rfl,fun a member runs => waits ((balances.running a member).mp runs).2⟩

theorem Task.Balances.claimed {workerId token : String} {expires now : Time} {row : TaskAttempt} {before : List TaskAttempt}
    (balances : t.Balances rows) (due : t.due now) (settled : Settled rows before) (next : row.attemptNo = t.attemptCount + 1)
    (runs : row.status = .running) : (t.claimed workerId token expires now).Balances (before ++ [row]) where
  numbered := by
    rw [List.map_append,settled.numbers,List.map_singleton,next]
    change List.Perm _ (List.range' 1 (t.attemptCount + 1))
    rw [List.range'_concat,Nat.one_mul,Nat.add_comm]
    exact balances.numbered.append_right _
  failures := by
    rw [List.countP_append,settled.counts AttemptStatus.failure rfl rfl,balances.failures,List.countP_singleton,runs]
    rfl
  deferrals := by
    rw [List.countP_append,settled.counts (· = .deferred) rfl rfl,balances.deferrals,List.countP_singleton,runs]
    rfl
  running a member := by
    rcases List.mem_append.mp member with old | new
    · refine iff_of_false (settled.stopped a old) (fun both => ?_)
      have listed : a.attemptNo ∈ rows.map TaskAttempt.attemptNo := settled.numbers ▸ List.mem_map_of_mem old
      rw [balances.numbered.mem_iff,List.mem_range'_1,both.1] at listed
      change _ ∧ t.attemptCount + 1 < _ at listed
      omega
    · rw [List.mem_singleton.mp new]
      exact iff_of_true runs ⟨next,rfl⟩
  started _ := Nat.succ_pos _
  completed := by
    have uncompleted : t.status ≠ .completed := by
      intro done
      simp [Task.due,done] at due
    rw [List.countP_append,settled.counts (· = .completed) rfl rfl,balances.completed,List.countP_singleton,runs,if_neg uncompleted]
    rfl
  dead := nofun

end Rows

/-! ### The ledgers of all tasks -/

structure Ledgers (db : Db) : Prop where
  balanced : ∀ t ∈ db.tasks, t.Balances (db.ledger t.id)
  owned : ∀ a ∈ db.attempts, ∃ t ∈ db.tasks, t.id = a.taskId

section Ledgers
variable {db db' : Db} {t t' : Task}

theorem mem_ledger {a : TaskAttempt} {id : TaskId} : a ∈ db.ledger id ↔ a ∈ db.attempts ∧ a.taskId = id := by
  simp [Db.ledger,Table.mem_def]

theorem ledgers_empty : Ledgers {} := ⟨fun t member => absurd member (Table.not_mem_empty t),fun a member => absurd member (Table.not_mem_empty a)⟩

theorem Ledgers.idle (ledgers : Ledgers db) (idle : Idle db db') : Ledgers db' := by
  have same (id : TaskId) : db'.ledger id = db.ledger id := by rw [Db.ledger,Db.ledger,idle.attempts]
  constructor
  · intro t' inside
    rw [same]
    by_cases known : ∃ t ∈ db.tasks, t.id = t'.id
    · obtain ⟨t,member,named⟩ := known
      rw [← named]
      exact (ledgers.balanced t member).idle (idle.tasks.successor member inside named.symm)
    · -- a task that is new has no rows yet
      have none : db.ledger t'.id = [] := by
        refine List.eq_nil_iff_forall_not_mem.mpr (fun a listed => ?_)
        obtain ⟨member,own⟩ := mem_ledger.mp listed
        obtain ⟨t,there,named⟩ := ledgers.owned a member
        exact known ⟨t,there,named.trans own⟩
      rw [none]
      rcases idle.tasks.origin t' inside with ⟨t,member,named,_⟩ | fresh
      · exact absurd ⟨t,member,named.symm⟩ known
      · exact fresh.balances
  · intro a member
    rw [idle.attempts] at member
    obtain ⟨t,there,named⟩ := ledgers.owned a member
    obtain ⟨t',inside,kept,_⟩ := idle.tasks.kept t there
    exact ⟨t',inside,kept.trans named⟩

theorem Ledgers.put (ledgers : Ledgers db) (member : t ∈ db.tasks) (tasks : db'.tasks = db.tasks.put t') (id : t'.id = t.id)
    (own : t'.Balances (db'.ledger t.id)) (others : ∀ k, k ≠ t.id → db'.ledger k = db.ledger k) : Ledgers db' := by
  have there : ∀ u ∈ db.tasks, ∃ u' ∈ db'.tasks, u'.id = u.id := by
    intro u inside
    rw [tasks]
    by_cases same : u.id = t'.id
    · exact ⟨t',Table.mem_put.mpr (.inr ⟨rfl,u,inside,same⟩),same.symm⟩
    · exact ⟨u,Table.mem_put.mpr (.inl ⟨inside,same⟩),rfl⟩
  constructor
  · intro u inside
    rw [tasks,Table.mem_put] at inside
    rcases inside with ⟨before,other⟩ | ⟨rfl,_⟩
    · rw [others u.id (id ▸ other)]
      exact ledgers.balanced u before
    · rw [id]
      exact own
  · intro a listed
    by_cases mine : a.taskId = t.id
    · obtain ⟨u,inside,same⟩ := there t member
      exact ⟨u,inside,same.trans mine.symm⟩
    · have before : a ∈ db.ledger a.taskId := by
        rw [← others a.taskId mine]
        exact mem_ledger.mpr ⟨listed,rfl⟩
      obtain ⟨u,known,same⟩ := ledgers.owned a (mem_ledger.mp before).1
      obtain ⟨u',inside,same'⟩ := there u known
      exact ⟨u',inside,same'.trans same⟩

theorem ledger_update {p : TaskAttempt → Bool} {f : TaskAttempt → TaskAttempt}
    (rows : db'.attempts.rows = db.attempts.rows.map (fun a => if p a then f a else a)) (own : ∀ a, (f a).taskId = a.taskId) (k : TaskId) :
    db'.ledger k = (db.ledger k).map (fun a => if p a then f a else a) := by
  rw [Db.ledger,Db.ledger,rows,List.filter_map]
  congr 2
  funext a
  dsimp only [Function.comp_apply]
  split
  · rw [own]
  · rfl

theorem ledger_close {f : TaskAttempt → TaskAttempt}
    (rows : db'.attempts.rows = db.attempts.rows.map (fun a => if a.of t then f a else a)) (own : ∀ a, (f a).taskId = a.taskId) :
    db'.ledger t.id = closeRow t.attemptCount f (db.ledger t.id) ∧ ∀ k, k ≠ t.id → db'.ledger k = db.ledger k := by
  constructor
  · rw [ledger_update rows own]
    refine List.map_congr_left (fun a listed => ?_)
    simp [TaskAttempt.of,(mem_ledger.mp listed).2]
  · intro k other
    rw [ledger_update rows own]
    refine (List.map_congr_left (fun a listed => ?_)).trans (List.map_id _)
    simp [TaskAttempt.of,(mem_ledger.mp listed).2,other]

theorem Ledgers.ended {f : TaskAttempt → TaskAttempt} (ledgers : Ledgers db) (member : t ∈ db.tasks)
    (tasks : db'.tasks = db.tasks.put t') (id : t'.id = t.id)
    (rows : db'.attempts.rows = db.attempts.rows.map (fun a => if a.of t then f a else a)) (own : ∀ a, (f a).taskId = a.taskId)
    (after : t.Balances (db.ledger t.id) → t'.Balances (closeRow t.attemptCount f (db.ledger t.id))) : Ledgers db' := by
  obtain ⟨mine,others⟩ := ledger_close rows own
  refine ledgers.put member tasks id ?_ others
  rw [mine]
  exact after (ledgers.balanced t member)

theorem Ledgers.complete (ledgers : Ledgers db) (member : t ∈ db.tasks) (running : t.status = .running) (now : Time) :
    Ledgers (completeRow db t now) := by
  refine ledgers.ended (f := (TaskAttempt.completed · now)) member rfl rfl rfl (fun _ => rfl) (fun balances => ?_)
  exact balances.closed .completed running (fun _ => rfl) (fun _ => rfl) rfl (by decide) nofun rfl rfl (by simp [Task.completed]) nofun

theorem Ledgers.fail (ledgers : Ledgers db) (member : t ∈ db.tasks) (running : t.status = .running) (error : String) (delay : Int)
    (now : Time) : Ledgers (failedRow db t error delay now) := by
  refine ledgers.ended (f := (TaskAttempt.failed · t.exhausted error now)) member rfl rfl rfl (fun _ => rfl) (fun balances => ?_)
  cases exhausted : t.exhausted with
  | false =>
    refine balances.closed .failed running (fun _ => rfl) (fun _ => rfl) rfl (by decide) ?_ rfl rfl ?_ ?_
    all_goals simp [Task.failed,exhausted]
  | true =>
    refine balances.closed .deadLetter running (fun _ => rfl) (fun _ => rfl) rfl (by decide) ?_ rfl rfl ?_ ?_
    · simp [Task.failed,exhausted]
    · simp [Task.failed,exhausted]
    · intro _
      exact of_decide_eq_true exhausted

theorem Ledgers.defer {lease : Lease} {reason : String} {delay : Int} {now : Time} {done : Bool} (ledgers : Ledgers db)
    (ok : deferTask db lease reason delay now = (db',done)) : Ledgers db' := by
  unfold deferTask at ok
  split at ok
  · cases ok
    exact ledgers
  · rename_i t found
    obtain ⟨member,owned⟩ := ownedRunningTask_spec found
    have running := (Task.claimedBy?_spec (Task.ownedBy_claimed owned)).2.1
    cases ok
    refine ledgers.ended member rfl rfl rfl (fun _ => rfl) (fun balances => ?_)
    exact balances.closed .deferred running (fun _ => rfl) (fun _ => rfl) rfl (by decide) nofun rfl rfl (by simp [Task.deferred]) nofun

theorem ledger_expire (balances : t.Balances (db.ledger t.id)) (now : Time) :
    Db.ledger { db with attempts := expireAttempt db.attempts t now } t.id =
        (if t.status = .running then closeRow t.attemptCount (fun a => { a with status := .leaseExpired,finishedAt := some now })
          (db.ledger t.id) else db.ledger t.id) ∧
      ∀ k, k ≠ t.id → Db.ledger { db with attempts := expireAttempt db.attempts t now } k = db.ledger k := by
  have rewritten (k : TaskId) : Db.ledger { db with attempts := expireAttempt db.attempts t now } k = (db.ledger k).map (fun a =>
      if t.status = .running && a.of t && a.status = .running then { a with status := .leaseExpired,finishedAt := some now } else a) :=
    ledger_update (f := fun a => { a with status := .leaseExpired,finishedAt := some now }) rfl (fun _ => rfl) k
  constructor
  · rw [rewritten]
    split
    · rename_i running
      refine List.map_congr_left (fun a listed => ?_)
      have own := (mem_ledger.mp listed).2
      have current := balances.running a listed
      simp [TaskAttempt.of,own,running,current]
    · rename_i waits
      refine (List.map_congr_left (fun a listed => ?_)).trans (List.map_id _)
      simp [waits]
  · intro k other
    rw [rewritten]
    refine (List.map_congr_left (fun a listed => ?_)).trans (List.map_id _)
    simp [TaskAttempt.of,(mem_ledger.mp listed).2,other]

theorem Ledgers.claim {taskId : TaskId} {workerId leaseToken : String} {stale : Int} {now : Time} {row : Option Task}
    (ledgers : Ledgers db) (ok : claimTask db taskId workerId leaseToken stale now = some (db',row)) : Ledgers db' := by
  unfold claimTask at ok
  dsimp only at ok
  split at ok
  · cases ok
    exact ledgers
  · rename_i t found
    obtain ⟨look,free⟩ := Option.filter_eq_some_iff.mp found
    obtain ⟨member,rfl⟩ := Table.find?_eq_some.mp look
    rw [Bool.and_eq_true] at free
    obtain ⟨attempts,inserted,last⟩ := Option.bind_eq_some_iff.mp ok
    cases last
    obtain ⟨mine,others⟩ := ledger_expire (ledgers.balanced t member) now
    have added (k : TaskId) : Db.ledger { db with attempts } k =
        Db.ledger { db with attempts := expireAttempt db.attempts t now } k ++
          if t.id = k then [⟨t.id,workerId,t.attemptCount + 1,.running,now,none,none,none⟩] else [] := by
      rw [Db.ledger,(Table.insert_eq_some.mp inserted).2,List.filter_append]
      refine congrArg (Db.ledger { db with attempts := expireAttempt db.attempts t now } k ++ ·) ?_
      by_cases same : t.id = k
      · simp [same,Task.claimed]
      · simp [same]
    refine ledgers.put member rfl rfl ?_ (fun k other => ?_)
    · refine (added t.id).symm ▸ ?_
      rw [if_pos rfl,mine]
      exact (ledgers.balanced t member).claimed free.1 ((ledgers.balanced t member).settled (fun _ => rfl) (fun _ => rfl)) rfl rfl
    · refine (added k).trans ?_
      rw [if_neg (Ne.symm other),others k other,List.append_nil]

theorem Ledgers.renew {lease : Lease} {leaseSeconds : Int} {now : Time} {done : Bool} (ledgers : Ledgers db)
    (ok : renewTaskLease db lease leaseSeconds now = (db',done)) : Ledgers db' := by
  rcases renewTaskLease_spec ok with ⟨_,rfl⟩ | ⟨_,t,member,_,_,rfl⟩
  · exact ledgers
  · exact ledgers.idle ⟨rfl,.put_of_mem member rfl ⟨rfl,rfl,rfl,rfl,.inl rfl⟩ (fun t _ _ => .refl t)⟩

theorem Ledgers.completeTask {snap : Db} {lease : Lease} {o : Outcomes} {uuid : Nat} {now : Time} {done : Bool} (ledgers : Ledgers db)
    (ok : completeTask snap db lease o uuid now = some (db',done)) : Ledgers db' := by
  rcases completeTask_spec ok with ⟨_,rfl⟩ | ⟨_,t,member,owned,path⟩
  · exact ledgers
  have completed := ledgers.complete member (Task.claimedBy?_spec (Task.ownedBy_claimed owned)).2.1 now
  rcases path with ⟨_,_,_,_,_,_,_,progress⟩ | ⟨_,_,rfl⟩ | ⟨_,_,_,activate⟩
  · exact completed.idle (idle_progress progress)
  · exact completed
  · exact completed.idle (idle_activateTask activate)

theorem Ledgers.failTask {lease : Lease} {error : String} {delay : Int} {uuid : TaskId → Nat} {now : Time} {reply : FailReply}
    (ledgers : Ledgers db) (ok : failTask db lease error delay uuid now = some (db',reply)) : Ledgers db' := by
  rcases failTask_spec ok with ⟨_,rfl⟩ | ⟨t,member,owned,path⟩
  · exact ledgers
  have failed := ledgers.fail member (Task.claimedBy?_spec (Task.ownedBy_claimed owned)).2.1 error delay now
  rcases path with ⟨_,_,rfl⟩ | ⟨_,_,dead⟩
  · exact failed
  · exact failed.idle (idle_deadLettered dead)

end Ledgers

/-! ### Runs -/

def Op.plain : Op → Prop
  | .enqueueTask new _ _ => new.initialStatus.waits
  | _ => True

theorem ledgers_step {host : Host} {db db' : Db} {call : Call} (ledgers : Ledgers db) (plain : call.op.plain)
    (step : OverlappedStep host db call db') : Ledgers db' := by
  obtain ⟨snap,result⟩ := step
  obtain ⟨op,now,reply⟩ := call
  rcases outcome_cases result with ok | ⟨_,rfl,_⟩
  swap
  · exact ledgers
  cases op <;> simp only [perform,Option.map_eq_some_iff,Option.some.injEq,Prod.map,Prod.mk.injEq,
    Prod.exists,id_eq] at ok
  case receiveCommand =>
    obtain ⟨_,_,ok,rfl,_⟩ := ok
    exact ledgers.idle (idle_receive ok)
  case enqueueTask =>
    obtain ⟨_,_,_,ok,rfl,_⟩ := ok
    obtain ⟨_,_,ensured,enqueued⟩ := enqueueTask_spec ok
    exact ledgers.idle ((idle_ensure ensured).trans (idle_enqueue (by exact plain) enqueued))
  case claimTask =>
    obtain ⟨_,_,ok,rfl,_⟩ := ok
    exact ledgers.claim ok
  case renewTaskLease lease leaseSeconds =>
    generalize renewed : renewTaskLease db lease leaseSeconds now = r at ok
    obtain ⟨_,done⟩ := r
    obtain ⟨rfl,_⟩ := ok
    exact ledgers.renew renewed
  case completeTask =>
    obtain ⟨_,_,ok,rfl,_⟩ := ok
    exact ledgers.completeTask ok
  case failTask =>
    obtain ⟨_,_,ok,rfl,_⟩ := ok
    exact ledgers.failTask ok
  case deferTask lease reason delay =>
    generalize deferred : deferTask db lease reason delay now = r at ok
    obtain ⟨_,done⟩ := r
    obtain ⟨rfl,_⟩ := ok
    exact ledgers.defer deferred
  case enqueueDueRetries =>
    obtain ⟨_,_,ok,rfl,_⟩ := ok
    obtain ⟨_,_,rfl⟩ := enqueueDueRetries_spec ok
    refine ledgers.idle (.of_update rfl rfl (fun t due => ⟨rfl,requeued_idles (.inr (.inr (.inl ?_)))⟩))
    exact (mem_dueRetries (of_decide_eq_true due)).2
  case skipInboxRecord =>
    obtain ⟨_,_,ok,rfl,_⟩ := ok
    exact ledgers.idle (idle_skip ok)
  case markInboxProcessed =>
    obtain ⟨_,ok,rfl,_⟩ := ok
    exact ledgers.idle (idle_stage ok)
  case markInboxFailed =>
    obtain ⟨_,ok,rfl,_⟩ := ok
    exact ledgers.idle (idle_stage ok)

/-- In every run from an empty database, and also where completions overlap with other
transactions, the ledger of every task balances. -/
theorem task_ledger_balances (host : Host) {db : Db} {calls : List Call}
    (run : Run (Guarded (fun _ call => call.op.plain) (OverlappedStep host)) {} calls db) :
    ∀ t ∈ db.tasks, t.Balances (db.ledger t.id) :=
  (run.invariant Ledgers (fun _ _ _ ledgers step => ledgers_step ledgers step.1 step.2) ledgers_empty).balanced

/-- A task whose lease runs out, which is then deferred, queued again and fails for good. -/
def troubled : List (Time × Op) :=
  [(0,.enqueueTask {taskType := "note",spaceId := "room",idempotencyKey := "k",payload := {},maxAttempts := 1} "task" 0),
    (1,.claimTask "task" "first" "one" 60),(70000,.claimTask "task" "second" "two" 60),
    (70001,.deferTask ⟨"task","two",2⟩ "busy" 100),(70200,.enqueueDueRetries 50 none (fun _ => 1)),
    (70201,.claimTask "task" "third" "three" 60),(70202,.failTask ⟨"task","three",3⟩ "broken" 100 (fun _ => 2))]

theorem task_ledger_balances_troubled :
    ∃ t ∈ (execute asciiHost {} troubled).1.tasks, t.id = "task" ∧
      t.Balances ((execute asciiHost {} troubled).1.ledger t.id) := by
  have run : Run (Guarded (fun _ call => call.op.plain) (OverlappedStep asciiHost)) {} (execute asciiHost {} troubled).2
      (execute asciiHost {} troubled).1 := by
    refine (run_execute_guarded asciiHost {} Op.plain troubled ?_).imp (fun _ _ _ step => ⟨step.1,step.2.overlapped⟩)
    simp [troubled,Op.plain,TaskStatus.waits]
  have present : ((execute asciiHost {} troubled).1.tasks.find? "task").isSome := by decide +kernel
  obtain ⟨t,found⟩ := Option.isSome_iff_exists.mp present
  obtain ⟨member,named⟩ := Table.find?_eq_some.mp found
  exact ⟨t,member,named,task_ledger_balances asciiHost run t member⟩

example : ((execute asciiHost {} troubled).1.ledger "task").map (·.status) = [.leaseExpired,.deferred,.deadLetter] := by
  decide +kernel

end Suixinji.Dispatch
