import Mathlib.Logic.Relation
import Suixinji.Dispatch.Effects

/-! The few ways in which the transactions write tasks and their events. -/
namespace Suixinji.Dispatch
open Suixinji.Relational Suixinji.Transition Relation

/-- What a worker does to the task it runs. -/
inductive Task.Moves (t : Task) : Task → Prop
  | renewed (expires : Option Time) (running : t.status = .running) : Moves t {t with leaseExpiresAt := expires}
  | completed (now : Time) (running : t.status = .running) : Moves t (t.completed now)
  | failed (error : String) (retryAt now : Time) (running : t.status = .running) :
    Moves t (t.failed error retryAt now)
  | deferred (reason : String) (retryAt : Time) (running : t.status = .running) : Moves t (t.deferred reason retryAt)

/-- The row of a task that is queued again, if it is one of `rows`. -/
def Task.requeuedIn (rows : List Task) (t : Task) : Task := if t ∈ rows then t.requeued else t

/-- `INSERT` of the event of a new task. -/
def NewTask.event (new : NewTask) (outbox : Table OutboxEvent.id) (id : TaskId) (uuid : Nat) (now : Time) :
    Option (Table OutboxEvent.id) :=
  if new.publish then outbox.insert (requested (.random uuid) (new.row id now) 1 now) else some outbox

/-- What an operation may bring into the table of tasks, and whether it claims. -/
structure Scope where
  creates : NewTask → Prop
  claims : Prop

/-- A single write of a transaction at `now`; other tables may change with it. -/
inductive Write (scope : Scope) (now : Time) (db db' : Db) : Prop
  | elsewhere (tasks : db'.tasks = db.tasks) (outbox : db'.outbox = db.outbox)
  | enqueued (new : NewTask) (id : TaskId) (uuid : Nat) (created : scope.creates new)
    (queued : new.publish → new.initialStatus = .queued)
    (tasks : db.tasks.insert (new.row id now) = some db'.tasks)
    (outbox : new.event db.outbox id uuid now = some db'.outbox)
  | claimed (t : Task) (workerId token : String) (expires : Time) (claims : scope.claims) (member : t ∈ db.tasks)
    (due : t.due now) (tasks : db'.tasks = db.tasks.put (t.claimed workerId token expires now))
    (outbox : db'.outbox = db.outbox)
  | moved (t t' : Task) (member : t ∈ db.tasks) (move : t.Moves t') (tasks : db'.tasks = db.tasks.put t')
    (outbox : db'.outbox = db.outbox)
  | cancelled (p : Task → Bool) (reason : String) (waiting : ∀ t, p t → t.status ≠ .running)
    (tasks : db'.tasks.rows = db.tasks.rows.map (fun t => if p t then t.cancelled reason now else t))
    (outbox : db'.outbox = db.outbox)
  | requeued (rows : List Task) (uuid : TaskId → Nat)
    (waiting : ∀ t ∈ rows, t ∈ db.tasks ∧ (t.status = .blocked ∨ t.status = .retry))
    (tasks : db'.tasks.rows = db.tasks.rows.map (Task.requeuedIn rows))
    (outbox : db.outbox.insertAll (rows.map
      (fun t => requested (.random (uuid t.id)) t (t.attemptCount + 1) now)) = some db'.outbox)
  | released (rows : List Task) (waiting : ∀ t ∈ rows, t ∈ db.tasks ∧ t.status = .blocked)
    (distinct : (rows.map Task.id).Nodup)
    (tasks : db'.tasks.rows = db.tasks.rows.map (Task.requeuedIn rows))
    (outbox : db'.outbox = db.outbox.insertNew (rows.map
      (fun t => requested (.digest t.id (t.attemptCount + 1)) t (t.attemptCount + 1) now)))

abbrev Writes (scope : Scope) (now : Time) : Db → Db → Prop := ReflTransGen (Write scope now)

/-- The new tasks of an operation, and whether it is a claim. -/
def Op.scope (host : Host) (op : Op) : Scope where
  creates new := match op with
    | .receiveCommand c _ => ∃ s m, new = c.rootTask host s m
    | .enqueueTask given _ _ => ∃ spaceId, new = {given with spaceId}
    | _ => False
  claims := match op with
    | .claimTask .. => True
    | _ => False

variable {scope : Scope}

theorem writes_elsewhere {now : Time} {db db' : Db} (tasks : db'.tasks = db.tasks) (outbox : db'.outbox = db.outbox) :
    Writes scope now db db' := .single (.elsewhere tasks outbox)

theorem writes_from {now : Time} {db db₁ db' : Db} (later : Writes scope now db₁ db') (tasks : db₁.tasks = db.tasks)
    (outbox : db₁.outbox = db.outbox) : Writes scope now db db' :=
  (writes_elsewhere tasks outbox).trans later

theorem Task.Moves.id {t t' : Task} (move : t.Moves t') : t'.id = t.id := by
  cases move <;> rfl

theorem requeuedIn_filter {tasks : Table Task.id} (p : Task → Bool) {t : Task} (member : t ∈ tasks) :
    (if p t then t.requeued else t) = t.requeuedIn (tasks.rows.filter p) := by
  have chosen : t ∈ tasks.rows.filter p ↔ p t := by
    rw [List.mem_filter]
    exact and_iff_right member
  simp only [Task.requeuedIn,chosen]

theorem map_requeuedIn_filter (tasks : Table Task.id) (p : Task → Bool) :
    tasks.rows.map (fun t => if p t then t.requeued else t) =
      tasks.rows.map (Task.requeuedIn (tasks.rows.filter p)) :=
  List.map_congr_left (fun _ member => requeuedIn_filter p member)

section Transactions
variable {db db' : Db}

theorem writes_advance {s : Space} {uuid : TaskId → Nat} {now : Time}
    (ok : advanceWatermarksInSession db s uuid now = some db') : Writes scope now db db' := by
  obtain ⟨outbox,inserted,rfl⟩ := advanceWatermarksInSession_spec ok
  refine .single (.requeued (db.tasks.rows.filter (db.advancedSpace s).releases) uuid ?_ ?_ inserted)
  · intro t chosen
    obtain ⟨member,due⟩ := List.mem_filter.mp chosen
    exact ⟨member,.inl (Space.releases_blocked due).2⟩
  · exact map_requeuedIn_filter db.tasks _

theorem writes_stage {inboxId : InboxId} {a : Stages} {uuid : TaskId → Nat} {now : Time}
    (ok : completeInboxStageInSession db inboxId a uuid now = some db') : Writes scope now db db' := by
  obtain ⟨m,_,_,s,_,_,advance⟩ := completeInboxStageInSession_spec ok
  exact writes_from (writes_advance advance) rfl rfl

theorem writes_skip {inboxId : InboxId} {finalStatus : InboxStatus} {cancelRootTask : Bool}
    {uuid : TaskId → Nat} {now : Time} {found : Bool}
    (ok : skipInboxRecord db inboxId finalStatus cancelRootTask uuid now = some (db',found)) : Writes scope now db db' := by
  rcases skipInboxRecord_spec ok with ⟨rfl,_⟩ | ⟨m,_,_,s,_,_,advance⟩
  · exact .refl
  refine ReflTransGen.trans ?_ (writes_advance advance)
  cases cancelRootTask
  · exact writes_elsewhere rfl rfl
  · refine .single (.cancelled _ finalStatus.text ?_ rfl rfl)
    intro t chosen running
    simp only [Bool.and_eq_true,Task.waitingIngest,running] at chosen
    simp at chosen

theorem writes_activateTask {taskId : TaskId} {uuid : Nat} {now : Time}
    (ok : activateTaskInSession db taskId uuid now = some db') : Writes scope now db db' := by
  obtain ⟨t,member,_,⟨_,rfl⟩ | ⟨blocked,outbox,inserted,rfl⟩⟩ := activateTaskInSession_spec ok
  · exact .refl
  refine .single (.requeued [t] (fun _ => uuid) ?_ ?_ ?_)
  · intro u single
    rw [List.mem_singleton.mp single]
    exact ⟨member,.inl blocked⟩
  · refine List.map_congr_left fun u inside => ?_
    by_cases same : u = t
    · simp [same,Task.requeuedIn,Task.requeued]
    · have other : u.id ≠ t.id := fun equal => same (db.tasks.unique inside member equal)
      simp [Task.requeuedIn,same,Task.requeued,other]
  · simp [Table.insertAll,inserted]

theorem writes_progress {snap : Db} {o : InboxOutcome} {now : Time} (ok : progressInbox snap db o now = some db') :
    Writes scope now db db' := by
  rcases progressInbox_spec ok with ⟨_,rfl⟩ | ⟨m,_,_,⟨_,rfl⟩ | ⟨_,_,_,s,_,_,activate⟩⟩
  · exact .refl
  · exact writes_elsewhere rfl rfl
  · obtain ⟨_,hit,releases,rfl⟩ := activateInStatement_spec activate
    refine .single (.released (db.tasks.rows.filter hit) ?_ ?_ (map_requeuedIn_filter db.tasks hit) rfl)
    · intro t chosen
      obtain ⟨member,due⟩ := List.mem_filter.mp chosen
      rw [releases,Bool.and_eq_true] at due
      exact ⟨member,(Space.releasesInStatement_blocked due.2).2⟩
    · exact db.tasks.keyed.sublist (List.filter_sublist.map _)

theorem writes_move {t t' : Task} {now : Time} (member : t ∈ db.tasks) (move : t.Moves t')
    (tasks : db'.tasks = db.tasks.put t') (outbox : db'.outbox = db.outbox) : Writes scope now db db' :=
  .single (.moved t t' member move tasks outbox)

theorem Task.ownedBy_running {t : Task} {lease : Lease} {now : Time} (owned : t.ownedBy lease now) :
    t.status = .running := (Task.claimedBy?_spec (Task.ownedBy_claimed owned)).2.1

theorem writes_complete {snap : Db} {lease : Lease} {o : Outcomes} {uuid : Nat} {now : Time} {done : Bool}
    (ok : completeTask snap db lease o uuid now = some (db',done)) :
    (done = false ∧ db' = db) ∨ (done = true ∧ ∃ t ∈ db.tasks, t.ownedBy lease now ∧
      Writes scope now (completeRow db t now) db') := by
  rcases completeTask_spec ok with refused | ⟨rfl,t,member,owned,path⟩
  · exact .inl refused
  refine .inr ⟨rfl,t,member,owned,?_⟩
  rcases path with ⟨_,_,_,_,_,_,_,progress⟩ | ⟨_,_,rfl⟩ | ⟨_,_,_,activate⟩
  · exact writes_progress progress
  · exact .refl
  · exact writes_activateTask activate

theorem writes_completeRow {t : Task} {now : Time} (member : t ∈ db.tasks) (running : t.status = .running) :
    Writes scope now db (completeRow db t now) := writes_move member (.completed now running) rfl rfl

theorem writes_fail {lease : Lease} {error : String} {delay : Int} {uuid : TaskId → Nat} {now : Time}
    {reply : FailReply} (ok : failTask db lease error delay uuid now = some (db',reply)) :
    (reply = .stale ∧ db' = db) ∨ (reply ≠ .stale ∧ ∃ t ∈ db.tasks, t.ownedBy lease now ∧
      Writes scope now (failedRow db t error delay now) db') := by
  rcases failTask_spec ok with refused | ⟨t,member,owned,⟨rfl,_,rfl⟩ | ⟨rfl,_,dead⟩⟩
  · exact .inl refused
  · exact .inr ⟨nofun,t,member,owned,.refl⟩
  refine .inr ⟨nofun,t,member,owned,?_⟩
  have cancelled : Writes scope now (failedRow db t error delay now)
      (dependentsCancelled (failedRow db t error delay now) t error now) := by
    unfold dependentsCancelled
    split
    · refine .single (.cancelled _ (firstChars 2000 ("parent task failed: " ++ error)) ?_ rfl rfl)
      intro u chosen running
      simp [running] at chosen
    · exact .refl
  refine cancelled.trans ?_
  rcases deadLettered_spec dead with ⟨_,rfl⟩ | ⟨inboxId,_,db₁,⟨_,rfl⟩ | ⟨_,memory⟩,after⟩
  · exact .refl
  · exact writes_stage after
  · exact (writes_stage memory).trans (writes_stage after)

theorem writes_failedRow {t : Task} {error : String} {delay : Int} {now : Time} (member : t ∈ db.tasks)
    (running : t.status = .running) : Writes scope now db (failedRow db t error delay now) :=
  writes_move member (.failed error (retryTime delay now) now running) rfl rfl

theorem writes_ensure {host : Host} {sourceSpaceId tenantId source : String} {spaceId : SpaceId} {now : Time}
    (ok : ensureTenantSpace host db sourceSpaceId tenantId source = some (db',spaceId)) : Writes scope now db db' := by
  obtain ⟨new,_,written⟩ := ensureTenantSpace_spec ok
  rcases withSpace_spec written with ⟨_,rfl⟩ | ⟨_,_,_,_,rfl⟩
  · exact .refl
  · exact writes_elsewhere rfl rfl

theorem writes_enqueue {new : NewTask} {taskId id : TaskId} {uuid : Nat} {now : Time} {created : Bool}
    (given : scope.creates new) (ok : enqueueTaskInSession db new taskId uuid now = some (db',id,created)) : Writes scope now db db' := by
  rcases enqueueTaskInSession_spec ok with ⟨_,rfl,_⟩ | ⟨_,_,_,queued,tasks,outbox,inserted,event,rfl⟩
  · exact .refl
  · exact .single (.enqueued new taskId uuid given queued inserted event)

theorem writes_receive {host : Host} {c : Command} {draws : Draws} {now : Time} {result : DispatchResult}
    (given : ∀ s m, scope.creates (c.rootTask host s m)) (ok : receiveCommand host db c draws now = some (db',result)) : Writes scope now db db' := by
  obtain ⟨db₁,spaceId,ensured,received⟩ := receiveCommand_spec ok
  refine (writes_ensure ensured).trans ?_
  rcases receiveInSpace_spec received with ⟨rfl,_⟩ | ⟨_,m,db₂,_,message,rest⟩
  · exact .refl
  obtain ⟨_,inbox,_,rfl⟩ := insertMessage_spec message
  obtain ⟨s,_,_,_,_,_,enqueued,_,⟨_,rfl⟩ | ⟨_,advance⟩⟩ := receiveMessage_spec rest
  · exact writes_from (writes_enqueue (given s m) enqueued) rfl rfl
  · exact writes_from ((writes_enqueue (given s m) enqueued).trans (writes_advance advance)) rfl rfl

end Transactions

theorem writes_step {host : Host} {db db' : Db} {call : Call} (step : OverlappedStep host db call db') :
    Writes (call.op.scope host) call.now db db' := by
  obtain ⟨snap,result⟩ := step
  obtain ⟨op,now,reply⟩ := call
  rcases outcome_cases result with ok | ⟨_,rfl,_⟩
  swap
  · exact .refl
  cases op <;> simp only [perform,Option.map_eq_some_iff,Option.some.injEq,Prod.map,Prod.mk.injEq,
    Prod.exists,id_eq] at ok
  case receiveCommand =>
    obtain ⟨_,_,ok,rfl,_⟩ := ok
    exact writes_receive (fun s m => ⟨s,m,rfl⟩) ok
  case enqueueTask =>
    obtain ⟨_,_,_,ok,rfl,_⟩ := ok
    obtain ⟨_,spaceId,ensured,enqueued⟩ := enqueueTask_spec ok
    exact (writes_ensure ensured).trans (writes_enqueue ⟨spaceId,rfl⟩ enqueued)
  case claimTask =>
    obtain ⟨_,row,ok,rfl,_⟩ := ok
    rcases claimTask_spec ok with ⟨_,rfl⟩ | ⟨t,member,_,due,_,_,_,rfl⟩
    · exact .refl
    · exact .single (.claimed t _ _ _ trivial member due rfl rfl)
  case renewTaskLease lease leaseSeconds =>
    generalize renewed : renewTaskLease db lease leaseSeconds now = r at ok
    obtain ⟨_,done⟩ := r
    obtain ⟨rfl,_⟩ := ok
    rcases renewTaskLease_spec renewed with ⟨_,rfl⟩ | ⟨_,t,member,claimed,expires,rfl⟩
    · exact .refl
    · exact writes_move member (.renewed (some expires) (Task.claimedBy?_spec claimed).2.1) rfl rfl
  case completeTask =>
    obtain ⟨_,_,ok,rfl,_⟩ := ok
    rcases writes_complete ok with ⟨_,rfl⟩ | ⟨_,t,member,owned,later⟩
    · exact .refl
    · exact (writes_completeRow member (Task.ownedBy_running owned)).trans later
  case failTask =>
    obtain ⟨_,_,ok,rfl,_⟩ := ok
    rcases writes_fail ok with ⟨_,rfl⟩ | ⟨_,t,member,owned,later⟩
    · exact .refl
    · exact (writes_failedRow member (Task.ownedBy_running owned)).trans later
  case deferTask lease reason delay =>
    generalize deferred : deferTask db lease reason delay now = r at ok
    obtain ⟨_,done⟩ := r
    obtain ⟨rfl,_⟩ := ok
    rcases deferTask_spec deferred with ⟨_,rfl⟩ | ⟨_,t,member,owned,_,rfl⟩
    · exact .refl
    · exact writes_move member (.deferred reason _ (Task.ownedBy_running owned)) rfl rfl
  case enqueueDueRetries limit taskIds uuid =>
    obtain ⟨_,_,ok,rfl,_⟩ := ok
    obtain ⟨outbox,inserted,rfl⟩ := enqueueDueRetries_spec ok
    refine .single (.requeued (dueRetries db limit taskIds now) uuid ?_ ?_ inserted)
    · exact fun t due => ⟨(mem_dueRetries due).1,.inr (mem_dueRetries due).2⟩
    · refine List.map_congr_left fun t _ => ?_
      simp only [Task.requeuedIn,decide_eq_true_eq]
  case skipInboxRecord =>
    obtain ⟨_,_,ok,rfl,_⟩ := ok
    exact writes_skip ok
  case markInboxProcessed =>
    obtain ⟨_,ok,rfl,_⟩ := ok
    exact writes_stage ok
  case markInboxFailed =>
    obtain ⟨_,ok,rfl,_⟩ := ok
    exact writes_stage ok

/-- The fast path's event of a task's release is there only once it is released. -/
def DigestsSpent (db : Db) : Prop :=
  ∀ e ∈ db.outbox, ∀ id n, e.id = .digest id n → ∃ t ∈ db.tasks, t.id = id ∧ t.status ≠ .blocked

theorem Task.Moves.unblocked {t t' : Task} (move : t.Moves t') : t'.status ≠ .blocked := by
  cases move with
  | renewed _ running => exact fun blocked => nomatch running.symm.trans blocked
  | failed =>
    simp only [Task.failed]
    split <;> exact nofun
  | _ => exact nofun

theorem Write.unblocked {now : Time} {db db' : Db} (write : Write scope now db db') {t : Task} (member : t ∈ db.tasks)
    (off : t.status ≠ .blocked) : ∃ t' ∈ db'.tasks, t'.id = t.id ∧ t'.status ≠ .blocked := by
  have rewritten : ∀ {f : Task → Task}, db'.tasks.rows = db.tasks.rows.map f → (f t).id = t.id →
      (f t).status ≠ .blocked → ∃ t' ∈ db'.tasks, t'.id = t.id ∧ t'.status ≠ .blocked := by
    intro f rows id open_
    exact ⟨f t,by rw [Table.mem_def,rows]; exact List.mem_map_of_mem member,id,open_⟩
  cases write with
  | elsewhere tasks => exact ⟨t,tasks ▸ member,rfl,off⟩
  | enqueued _ _ _ _ _ tasks => exact ⟨t,(Table.mem_insert tasks).mpr (.inl member),rfl,off⟩
  | moved u u' there move tasks =>
    rw [tasks]
    by_cases same : t.id = u.id
    · exact ⟨u',Table.mem_put.mpr (.inr ⟨rfl,u,there,move.id.symm⟩),move.id.trans same.symm,move.unblocked⟩
    · exact ⟨t,Table.mem_put.mpr (.inl ⟨member,by rwa [move.id]⟩),rfl,off⟩
  | claimed u worker token expires _ there _ tasks =>
    rw [tasks]
    by_cases same : t.id = u.id
    · exact ⟨u.claimed worker token expires now,Table.mem_put.mpr (.inr ⟨rfl,u,there,rfl⟩),same.symm,nofun⟩
    · exact ⟨t,Table.mem_put.mpr (.inl ⟨member,same⟩),rfl,off⟩
  | cancelled p reason _ tasks =>
    refine rewritten tasks ?_ ?_ <;> split
    · rfl
    · rfl
    · exact nofun
    · exact off
  | requeued rows _ _ tasks | released rows _ _ tasks =>
    refine rewritten tasks ?_ ?_ <;> unfold Task.requeuedIn <;> split
    · rfl
    · rfl
    · exact nofun
    · exact off

theorem DigestsSpent.insertNew {db : Db} (spent : DigestsSpent db) {rows : List Task} (now : Time)
    (waiting : ∀ t ∈ rows, t ∈ db.tasks ∧ t.status = .blocked) (distinct : (rows.map Task.id).Nodup) :
    (db.outbox.insertNew (rows.map (fun t =>
      requested (.digest t.id (t.attemptCount + 1)) t (t.attemptCount + 1) now))).rows =
    db.outbox.rows ++ rows.map (fun t =>
      requested (.digest t.id (t.attemptCount + 1)) t (t.attemptCount + 1) now) := by
  apply Table.rows_insertNew_of_fresh
  · rw [List.map_map]
    refine List.Nodup.map_on ?_ (List.Nodup.of_map _ distinct)
    intro t inside u there same
    exact List.inj_on_of_nodup_map distinct inside there (EventId.digest.inj same).1
  · intro e isNew e₀ old same
    obtain ⟨t,inside,rfl⟩ := List.mem_map.mp isNew
    obtain ⟨u,there,id,off⟩ := spent e₀ old _ _ same
    obtain ⟨member,blocked⟩ := waiting t inside
    rw [db.tasks.unique there member id] at off
    exact off blocked

theorem DigestsSpent.write {now : Time} {db db' : Db} (spent : DigestsSpent db) (write : Write scope now db db') :
    DigestsSpent db' := by
  have old : ∀ e ∈ db.outbox, ∀ id n, e.id = .digest id n → ∃ t ∈ db'.tasks, t.id = id ∧ t.status ≠ .blocked := by
    intro e there id n digest
    obtain ⟨t,member,rfl,off⟩ := spent e there id n digest
    exact write.unblocked member off
  have random : ∀ {e : OutboxEvent} {uuid : Nat}, e.id = .random uuid → ∀ id n, e.id = .digest id n →
      ∃ t ∈ db'.tasks, t.id = id ∧ t.status ≠ .blocked := by
    intro e uuid drawn id n digest
    exact nomatch drawn.symm.trans digest
  cases write with
  | elsewhere _ outbox | claimed _ _ _ _ _ _ _ _ outbox | moved _ _ _ _ _ outbox | cancelled _ _ _ _ outbox =>
    intro e there
    rw [outbox] at there
    exact old e there
  | enqueued new id uuid _ _ _ outbox =>
    intro e there
    unfold NewTask.event at outbox
    split at outbox
    · rcases (Table.mem_insert outbox).mp there with before | rfl
      · exact old e before
      · exact random rfl
    · rw [← Option.some.inj outbox] at there
      exact old e there
  | requeued rows uuid _ _ outbox =>
    intro e there
    rw [Table.mem_def,Table.rows_insertAll outbox] at there
    rcases List.mem_append.mp there with before | isNew
    · exact old e before
    · obtain ⟨t,_,rfl⟩ := List.mem_map.mp isNew
      exact random rfl
  | released rows waiting distinct tasks outbox =>
    intro e there id n digest
    rw [outbox,Table.mem_def,spent.insertNew _ waiting distinct] at there
    rcases List.mem_append.mp there with before | isNew
    · exact old e before id n digest
    · obtain ⟨t,inside,rfl⟩ := List.mem_map.mp isNew
      obtain ⟨rfl,_⟩ := EventId.digest.inj digest
      refine ⟨t.requeuedIn rows,?_,?_,?_⟩
      · rw [Table.mem_def,tasks]
        exact List.mem_map_of_mem (waiting t inside).1
      · rw [Task.requeuedIn,if_pos inside]
        rfl
      · rw [Task.requeuedIn,if_pos inside]
        exact nofun

theorem DigestsSpent.writes {now : Time} {db db' : Db} (spent : DigestsSpent db) (writes : Writes scope now db db') :
    DigestsSpent db' := by
  induction writes with
  | refl => exact spent
  | tail _ write ih => exact ih.write write

theorem digestsSpent_run {host : Host} {calls : List Call} {db : Db} (run : Run (Step host) {} calls db) :
    DigestsSpent db := by
  refine run.invariant DigestsSpent ?_ (fun e there => absurd there (Table.not_mem_empty e))
  exact fun _ _ _ spent step => spent.writes (writes_step step.overlapped)

end Suixinji.Dispatch
