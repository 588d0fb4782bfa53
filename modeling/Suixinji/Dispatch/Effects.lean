import Suixinji.Relational.Evolution
import Suixinji.Dispatch.System

/-! What each function of the dispatch layer leaves behind, one lemma a function. -/
namespace Suixinji.Dispatch
open Suixinji.Relational

theorem released_spec {tasks : Table Task.id} {space : SpaceId} {ready : Payload → Truth} {chosen : Task → Bool}
    (ok : released tasks space ready = some chosen) :
    (∀ t ∈ tasks, t.blockedIn space → ready t.payload ≠ .raised) ∧
      chosen = fun t => t.blockedIn space && ready t.payload = .yes := by
  unfold released at ok
  split at ok <;> cases ok
  rename_i calm
  refine ⟨?_,rfl⟩
  intro t member blocked raised
  exact calm (List.any_eq_true.mpr ⟨t,member,by simp [blocked,raised]⟩)

theorem released_of_calm {tasks : Table Task.id} {space : SpaceId} {ready : Payload → Truth}
    (calm : ∀ t ∈ tasks, t.blockedIn space → ready t.payload ≠ .raised) :
    released tasks space ready = some (fun t => t.blockedIn space && ready t.payload = .yes) := by
  unfold released
  rw [if_neg]
  intro raises
  obtain ⟨t,member,raised⟩ := List.any_eq_true.mp raises
  rw [Bool.and_eq_true] at raised
  exact calm t member raised.1 (of_decide_eq_true raised.2)

/-- The tasks an advance releases, given the space with its new marks. -/
def Space.releases (s : Space) (t : Task) : Bool :=
  t.blockedIn s.id && readyInSession s.noteWatermark s.memoryWatermark t.payload = .yes

theorem Space.releases_blocked {s : Space} {t : Task} (chosen : s.releases t) :
    t.spaceId = s.id ∧ t.status = .blocked := by
  simp only [Space.releases,Task.blockedIn,Bool.and_eq_true,decide_eq_true_eq] at chosen
  exact chosen.1

def Space.releasesInStatement (s : Space) (t : Task) : Bool :=
  t.blockedIn s.id && readyInStatement s.noteWatermark s.memoryWatermark t.payload = .yes

theorem Space.releasesInStatement_blocked {s : Space} {t : Task} (chosen : s.releasesInStatement t) :
    t.spaceId = s.id ∧ t.status = .blocked := by
  simp only [Space.releasesInStatement,Task.blockedIn,Bool.and_eq_true,decide_eq_true_eq] at chosen
  exact chosen.1

/-- The space as the statement updates it, `seen` its row in the snapshot. -/
def Space.progressedTo (s : Space) (snap : Db) (seen : Space) (o : InboxOutcome) (m : InboxMessage) : Space :=
  s.progressed o m.sequenceNo
    (progressMark (snap.messages seen.id) m InboxMessage.noteStatus seen.noteWatermark)
    (progressMark (snap.messages seen.id) m InboxMessage.memoryStatus seen.memoryWatermark)

theorem activateReadyTasksInSession_spec {db db' : Db} {s : Space} {uuid : TaskId → Nat} {now : Time}
    (ok : activateReadyTasksInSession db s uuid now = some db') :
    ∃ outbox, db.outbox.insertAll ((db.tasks.rows.filter s.releases).map
        (fun t => requested (.random (uuid t.id)) t (t.attemptCount + 1) now)) = some outbox ∧
      db' = {db with tasks := db.tasks.updateWhere s.releases Task.requeued,outbox} := by
  simp only [activateReadyTasksInSession,Option.bind_eq_bind,Option.bind_eq_some_iff,Option.pure_def,
    Option.some.injEq] at ok
  obtain ⟨chosen,released,outbox,inserted,rfl⟩ := ok
  obtain ⟨_,rfl⟩ := released_spec released
  exact ⟨outbox,inserted,rfl⟩

theorem advanceWatermarksInSession_spec {db db' : Db} {s : Space} {uuid : TaskId → Nat} {now : Time}
    (ok : advanceWatermarksInSession db s uuid now = some db') :
    ∃ outbox, db.outbox.insertAll ((db.tasks.rows.filter (db.advancedSpace s).releases).map
        (fun t => requested (.random (uuid t.id)) t (t.attemptCount + 1) now)) = some outbox ∧
      db' = {db with
        spaces := db.spaces.put (db.advancedSpace s)
        tasks := db.tasks.updateWhere (db.advancedSpace s).releases Task.requeued
        outbox} :=
  activateReadyTasksInSession_spec ok

theorem advanceWatermarksInSession_calm {db db' : Db} {s : Space} {uuid : TaskId → Nat} {now : Time}
    (ok : advanceWatermarksInSession db s uuid now = some db') : ∀ t ∈ db.tasks, t.blockedIn s.id →
      readyInSession (db.advancedSpace s).noteWatermark (db.advancedSpace s).memoryWatermark t.payload ≠ .raised := by
  simp only [advanceWatermarksInSession,activateReadyTasksInSession,Option.bind_eq_bind,
    Option.bind_eq_some_iff] at ok
  obtain ⟨_,released,_⟩ := ok
  exact (released_spec released).1

theorem completeInboxStageInSession_spec {db db' : Db} {inboxId : InboxId} {a : Stages} {uuid : TaskId → Nat}
    {now : Time} (ok : completeInboxStageInSession db inboxId a uuid now = some db') :
    ∃ m ∈ db.inbox, m.id = inboxId ∧ ∃ s ∈ db.spaces, s.id = m.spaceId ∧
      advanceWatermarksInSession {db with
        inbox := db.inbox.put (staged a now m s).1
        spaces := db.spaces.put (staged a now m s).2} (staged a now m s).2 uuid now = some db' := by
  simp only [completeInboxStageInSession,Option.bind_eq_bind,Option.bind_eq_some_iff] at ok
  obtain ⟨m,found,s,space,rest⟩ := ok
  obtain ⟨member,same⟩ := Table.find?_eq_some.mp found
  obtain ⟨inside,house⟩ := Table.find?_eq_some.mp space
  exact ⟨m,member,same,s,inside,house,rest⟩

theorem skipInboxRecord_spec {db db' : Db} {inboxId : InboxId} {finalStatus : InboxStatus}
    {cancelRootTask : Bool} {uuid : TaskId → Nat} {now : Time} {found : Bool}
    (ok : skipInboxRecord db inboxId finalStatus cancelRootTask uuid now = some (db',found)) :
    (db' = db ∧ found = false) ∨ ∃ m ∈ db.inbox, m.id = inboxId ∧ ∃ s ∈ db.spaces, s.id = m.spaceId ∧
      advanceWatermarksInSession {db with
        inbox := db.inbox.put (m.skipped finalStatus now)
        tasks := if cancelRootTask then cancelRoot db.tasks m finalStatus now else db.tasks} s uuid now =
          some db' := by
  unfold skipInboxRecord at ok
  split at ok
  · cases ok
    exact .inl ⟨rfl,rfl⟩
  · rename_i m present
    simp only [Option.bind_eq_bind,Option.bind_eq_some_iff,Option.pure_def,Option.some.injEq,
      Prod.mk.injEq] at ok
    obtain ⟨s,space,db₁,advance,rfl,_⟩ := ok
    obtain ⟨member,same⟩ := Table.find?_eq_some.mp present
    obtain ⟨inside,house⟩ := Table.find?_eq_some.mp space
    refine .inr ⟨m,member,same,s,inside,house,?_⟩
    rw [← advance]
    congr 1
    cases cancelRootTask <;> rfl

theorem activateTaskInSession_spec {db db' : Db} {taskId : TaskId} {uuid : Nat} {now : Time}
    (ok : activateTaskInSession db taskId uuid now = some db') :
    ∃ t ∈ db.tasks, t.id = taskId ∧
      ((t.status ≠ .blocked ∧ db' = db) ∨
        (t.status = .blocked ∧ ∃ outbox,
          db.outbox.insert (requested (.random uuid) t (t.attemptCount + 1) now) = some outbox ∧
          db' = {db with tasks := db.tasks.put t.requeued,outbox})) := by
  simp only [activateTaskInSession,Option.bind_eq_bind,Option.bind_eq_some_iff] at ok
  obtain ⟨t,found,rest⟩ := ok
  obtain ⟨member,same⟩ := Table.find?_eq_some.mp found
  refine ⟨t,member,same,?_⟩
  split at rest
  · rename_i blocked
    simp only [publishTaskRequest,Option.bind_eq_bind,Option.bind_eq_some_iff,Option.pure_def,
      Option.some.injEq] at rest
    obtain ⟨outbox,inserted,rfl⟩ := rest
    exact .inr ⟨blocked,outbox,inserted,rfl⟩
  · rename_i other
    cases rest
    exact .inl ⟨other,rfl⟩

theorem enqueueTaskInSession_spec {db db' : Db} {new : NewTask} {taskId id : TaskId} {uuid : Nat} {now : Time}
    {created : Bool} (ok : enqueueTaskInSession db new taskId uuid now = some (db',id,created)) :
    (created = false ∧ db' = db ∧ ∃ t ∈ db.tasks, t.idempotencyKey = new.idempotencyKey ∧ t.id = id) ∨
      (created = true ∧ id = taskId ∧ (∀ t ∈ db.tasks, t.idempotencyKey ≠ new.idempotencyKey) ∧
        (new.publish → new.initialStatus = .queued) ∧ ∃ tasks outbox,
          db.tasks.insert (new.row taskId now) = some tasks ∧
          (if new.publish then db.outbox.insert (requested (.random uuid) (new.row taskId now) 1 now)
            else some db.outbox) = some outbox ∧
          db' = {db with tasks,outbox}) := by
  unfold enqueueTaskInSession at ok
  split at ok
  · cases ok
  · rename_i allowed
    split at ok
    · rename_i t known
      cases ok
      exact .inl ⟨rfl,rfl,t,List.mem_of_find?_eq_some known,by simpa using List.find?_some known,rfl⟩
    · rename_i unknown
      have absent : ∀ t ∈ db.tasks, t.idempotencyKey ≠ new.idempotencyKey := by
        intro t member
        simpa using List.find?_eq_none.mp unknown t member
      have queued : new.publish → new.initialStatus = .queued := by
        intro publish
        by_contra other
        exact allowed ⟨publish,other⟩
      cases publish : new.publish <;>
        simp only [publish,publishTaskRequest,Option.bind_eq_bind,Option.bind_eq_some_iff,Option.pure_def,
          Option.some.injEq,Prod.mk.injEq,Bool.false_eq_true,if_true,if_false] at ok
      · obtain ⟨tasks,inserted,_,rfl,rfl,rfl,rfl⟩ := ok
        exact .inr ⟨rfl,rfl,absent,nofun,tasks,db.outbox,inserted,rfl,rfl⟩
      · obtain ⟨tasks,inserted,_,⟨outbox,sent,rfl⟩,rfl,rfl,rfl⟩ := ok
        exact .inr ⟨rfl,rfl,absent,fun _ => queued publish,tasks,outbox,inserted,sent,rfl⟩

theorem activateInStatement_spec {snap db db' : Db} {s : Space} {now : Time}
    (ok : activateInStatement snap db s now = some db') :
    (∀ t ∈ snap.tasks, t.blockedIn s.id →
        readyInStatement s.noteWatermark s.memoryWatermark t.payload ≠ .raised) ∧
      ∃ hit : Task → Bool, (∀ t, hit t = ((snap.tasks.find? t.id).any s.releasesInStatement && s.releasesInStatement t)) ∧
        db' = {db with
          tasks := db.tasks.updateWhere hit Task.requeued
          outbox := db.outbox.insertNew ((db.tasks.rows.filter hit).map
            (fun t => requested (.digest t.id (t.attemptCount + 1)) t (t.attemptCount + 1) now))} := by
  simp only [activateInStatement,Option.bind_eq_bind,Option.bind_eq_some_iff,Option.pure_def,
    Option.some.injEq] at ok
  obtain ⟨chosen,ok,rfl⟩ := ok
  obtain ⟨calm,rfl⟩ := released_spec ok
  exact ⟨calm,_,fun _ => rfl,rfl⟩

theorem progressInbox_spec {snap db db' : Db} {o : InboxOutcome} {now : Time}
    (ok : progressInbox snap db o now = some db') :
    (db.inbox.find? o.inboxId = none ∧ db' = db) ∨ ∃ m ∈ db.inbox, m.id = o.inboxId ∧
      (((snap.spaces.find? m.spaceId = none ∨ db.spaces.find? m.spaceId = none) ∧
          db' = {db with inbox := db.inbox.put (o.apply now m)}) ∨
        ∃ seen ∈ snap.spaces, seen.id = m.spaceId ∧ ∃ s ∈ db.spaces, s.id = m.spaceId ∧
          activateInStatement snap {db with
            inbox := db.inbox.put (o.apply now m)
            spaces := db.spaces.put (s.progressedTo snap seen o (o.apply now m))}
            (s.progressedTo snap seen o (o.apply now m)) now = some db') := by
  unfold progressInbox at ok
  split at ok
  · rename_i absent
    cases ok
    exact .inl ⟨absent,rfl⟩
  · rename_i m found
    obtain ⟨member,same⟩ := Table.find?_eq_some.mp found
    refine .inr ⟨m,member,same,?_⟩
    dsimp only at ok
    split at ok
    · rename_i seen s look now_
      obtain ⟨inside,house⟩ := Table.find?_eq_some.mp look
      obtain ⟨there,house'⟩ := Table.find?_eq_some.mp now_
      exact .inr ⟨seen,inside,house,s,there,house',ok⟩
    · rename_i missing
      cases ok
      refine .inl ⟨?_,rfl⟩
      cases look : snap.spaces.find? m.spaceId with
      | none => exact .inl rfl
      | some seen =>
        cases now_ : db.spaces.find? m.spaceId with
        | none => exact .inr rfl
        | some s => exact absurd now_ (missing seen s look)

theorem completeTaskWithInboxOutcome_spec {snap db db' : Db} {lease : Lease} {o : InboxOutcome} {now : Time}
    {done : Bool} (ok : completeTaskWithInboxOutcome snap db lease o now = some (db',done)) :
    (done = false ∧ db' = db) ∨ (done = true ∧ ∃ locked ∈ snap.inbox, locked.id = o.inboxId ∧
      ∃ t ∈ db.tasks, t.ownedBy lease now ∧ t.tenantId = locked.tenantId ∧ t.spaceId = locked.spaceId ∧
        progressInbox snap (completeRow db t now) o now = some db') := by
  unfold completeTaskWithInboxOutcome at ok
  split at ok
  · cases ok
    exact .inl ⟨rfl,rfl⟩
  · rename_i locked found
    obtain ⟨member,same⟩ := Table.find?_eq_some.mp found
    dsimp only at ok
    split at ok
    · rename_i t seen current
      obtain ⟨look,owned⟩ := Option.filter_eq_some_iff.mp current
      simp only [Option.map_eq_some_iff,Prod.mk.injEq] at ok
      obtain ⟨_,rest,rfl,rfl⟩ := ok
      simp only [Bool.and_eq_true,decide_eq_true_eq] at owned
      exact .inr ⟨rfl,locked,member,same,t,(Table.find?_eq_some.mp look).1,owned.1.1,owned.1.2,owned.2,rest⟩
    · cases ok
      exact .inl ⟨rfl,rfl⟩

theorem Task.claimedBy?_spec {t : Task} {lease : Lease} (claimed : t.claimedBy? lease) :
    t.id = lease.taskId ∧ t.status = .running ∧ t.leaseToken = some lease.leaseToken ∧
      t.claimVersion = lease.claimVersion := by
  simp only [Task.claimedBy?,Bool.and_eq_true,decide_eq_true_eq] at claimed
  exact ⟨claimed.1.1.1,claimed.1.1.2,claimed.1.2,claimed.2⟩

theorem Task.ownedBy_claimed {t : Task} {lease : Lease} {now : Time} (owned : t.ownedBy lease now) :
    t.claimedBy? lease := by
  simp only [Task.ownedBy,Bool.and_eq_true] at owned
  exact owned.1

theorem ownedRunningTask_spec {db : Db} {lease : Lease} {now : Time} {t : Task}
    (found : ownedRunningTask db lease now = some t) : t ∈ db.tasks ∧ t.ownedBy lease now := by
  obtain ⟨look,owned⟩ := Option.filter_eq_some_iff.mp found
  exact ⟨(Table.find?_eq_some.mp look).1,owned⟩

theorem completeTask_spec {snap db db' : Db} {lease : Lease} {o : Outcomes} {uuid : Nat} {now : Time}
    {done : Bool} (ok : completeTask snap db lease o uuid now = some (db',done)) :
    (done = false ∧ db' = db) ∨
      (done = true ∧ ∃ t ∈ db.tasks, t.ownedBy lease now ∧
        ((∃ outcome, o.inbox = some outcome ∧ ∃ locked ∈ snap.inbox, locked.id = outcome.inboxId ∧
            t.tenantId = locked.tenantId ∧ t.spaceId = locked.spaceId ∧
            progressInbox snap (completeRow db t now) outcome now = some db') ∨
          (o.inbox = none ∧ truthy o.activateTaskId = none ∧ db' = completeRow db t now) ∨
          ∃ taskId, o.inbox = none ∧ truthy o.activateTaskId = some taskId ∧
            activateTaskInSession (completeRow db t now) taskId uuid now = some db')) := by
  unfold completeTask at ok
  split at ok
  · cases ok
  split at ok
  · rename_i outcome given
    rcases completeTaskWithInboxOutcome_spec ok with refused | ⟨rfl,locked,member,same,t,inside,owned,tenant,space,rest⟩
    · exact .inl refused
    · exact .inr ⟨rfl,t,inside,owned,.inl ⟨outcome,given,locked,member,same,tenant,space,rest⟩⟩
  · rename_i none_
    split at ok
    · cases ok
      exact .inl ⟨rfl,rfl⟩
    · rename_i t found
      obtain ⟨inside,owned⟩ := ownedRunningTask_spec found
      split at ok
      · rename_i plain
        cases ok
        exact .inr ⟨rfl,t,inside,owned,.inr (.inl ⟨none_,plain,rfl⟩)⟩
      · rename_i taskId named
        simp only [Option.map_eq_some_iff,Prod.mk.injEq] at ok
        obtain ⟨_,rest,rfl,rfl⟩ := ok
        exact .inr ⟨rfl,t,inside,owned,.inr (.inr ⟨taskId,none_,named,rest⟩)⟩

theorem completeTask_count {snap db : Db} {lease : Lease} {o : Outcomes} {uuid : Nat} {now : Time} {result : Db × Bool}
    (ok : completeTask snap db lease o uuid now = some result) : o.count ≤ 1 := by
  unfold completeTask at ok
  split at ok
  · cases ok
  · omega

def failedRow (db : Db) (t : Task) (error : String) (delay : Int) (now : Time) : Db :=
  {db with
    tasks := db.tasks.put (t.failed error (retryTime delay now) now)
    attempts := db.attempts.updateWhere (TaskAttempt.of · t) (TaskAttempt.failed · t.exhausted error now)}

theorem failTask_spec {db db' : Db} {lease : Lease} {error : String} {delay : Int} {uuid : TaskId → Nat}
    {now : Time} {reply : FailReply} (ok : failTask db lease error delay uuid now = some (db',reply)) :
    (reply = .stale ∧ db' = db) ∨ ∃ t ∈ db.tasks, t.ownedBy lease now ∧
      ((reply = .retry ∧ t.exhausted = false ∧ db' = failedRow db t error delay now) ∨
        (reply = .deadLetter ∧ t.exhausted = true ∧
          deadLettered (failedRow db t error delay now) t error uuid now = some db')) := by
  unfold failTask at ok
  split at ok
  · cases ok
    exact .inl ⟨rfl,rfl⟩
  · rename_i t found
    obtain ⟨inside,owned⟩ := ownedRunningTask_spec found
    refine .inr ⟨t,inside,owned,?_⟩
    dsimp only at ok
    split at ok
    · rename_i exhausted
      simp only [Option.map_eq_some_iff,Prod.mk.injEq] at ok
      obtain ⟨_,rest,rfl,rfl⟩ := ok
      exact .inr ⟨rfl,exhausted,rest⟩
    · rename_i left
      cases ok
      exact .inl ⟨rfl,by simpa using left,rfl⟩

/-- The dependents of a dead letter, when it stands for a message. -/
def dependentsCancelled (db : Db) (t : Task) (error : String) (now : Time) : Db :=
  if (truthy t.payload.inboxId).isSome then cancelBlockedDependents db t.id error now else db

theorem deadLettered_spec {db db' : Db} {t : Task} {error : String} {uuid : TaskId → Nat} {now : Time}
    (ok : deadLettered db t error uuid now = some db') :
    (barrierInboxId t = none ∧ db' = dependentsCancelled db t error now) ∨
      ∃ inboxId, barrierInboxId t = some inboxId ∧ ∃ db₁,
        ((t.taskType ≠ "memory" ∧ db₁ = dependentsCancelled db t error now) ∨
          (t.taskType = "memory" ∧ completeInboxStageInSession (dependentsCancelled db t error now) inboxId
            {memory := true,success := false,error := some error} uuid now = some db₁)) ∧
        completeInboxStageInSession db₁ inboxId {finalize := true,success := false,error := some error}
          uuid now = some db' := by
  unfold deadLettered at ok
  dsimp only at ok
  split at ok
  · rename_i plain
    cases ok
    exact .inl ⟨plain,rfl⟩
  · rename_i inboxId named
    obtain ⟨db₁,first,second⟩ := Option.bind_eq_some_iff.mp ok
    refine .inr ⟨inboxId,named,db₁,?_,second⟩
    split at first
    · rename_i memory
      exact .inr ⟨memory,first⟩
    · rename_i other
      exact .inl ⟨other,(Option.some.inj first).symm⟩

theorem deferTask_spec {db db' : Db} {lease : Lease} {reason : String} {delay : Int} {now : Time} {done : Bool}
    (ok : deferTask db lease reason delay now = (db',done)) :
    (done = false ∧ db' = db) ∨ (done = true ∧ ∃ t ∈ db.tasks, t.ownedBy lease now ∧
      ∃ attempts, db' = {db with tasks := db.tasks.put (t.deferred reason (retryTime delay now)),attempts}) := by
  unfold deferTask at ok
  split at ok
  · cases ok
    exact .inl ⟨rfl,rfl⟩
  · rename_i t found
    obtain ⟨inside,owned⟩ := ownedRunningTask_spec found
    cases ok
    exact .inr ⟨rfl,t,inside,owned,_,rfl⟩

theorem renewTaskLease_spec {db db' : Db} {lease : Lease} {leaseSeconds : Int} {now : Time} {done : Bool}
    (ok : renewTaskLease db lease leaseSeconds now = (db',done)) :
    (done = false ∧ db' = db) ∨ (done = true ∧ ∃ t ∈ db.tasks, t.claimedBy? lease ∧ ∃ expires,
      db' = {db with tasks := db.tasks.put {t with leaseExpiresAt := some expires}}) := by
  unfold renewTaskLease at ok
  split at ok
  · cases ok
    exact .inl ⟨rfl,rfl⟩
  · rename_i t found
    obtain ⟨look,owned⟩ := Option.filter_eq_some_iff.mp found
    cases ok
    exact .inr ⟨rfl,t,(Table.find?_eq_some.mp look).1,owned,_,rfl⟩

theorem claimTask_spec {db db' : Db} {taskId : TaskId} {workerId leaseToken : String} {stale : Int}
    {now : Time} {row : Option Task}
    (ok : claimTask db taskId workerId leaseToken stale now = some (db',row)) :
    (row = none ∧ db' = db) ∨ ∃ t ∈ db.tasks, t.id = taskId ∧ t.due now ∧
      t.unleased now (now - seconds (max 1 stale)) ∧
      row = some (t.claimed workerId leaseToken (now + seconds (max 1 stale)) now) ∧ ∃ attempts,
        db' = {db with
          tasks := db.tasks.put (t.claimed workerId leaseToken (now + seconds (max 1 stale)) now)
          attempts} := by
  unfold claimTask at ok
  dsimp only at ok
  split at ok
  · cases ok
    exact .inl ⟨rfl,rfl⟩
  · rename_i t found
    obtain ⟨look,free⟩ := Option.filter_eq_some_iff.mp found
    obtain ⟨inside,same⟩ := Table.find?_eq_some.mp look
    simp only [Bool.and_eq_true] at free
    simp only [Option.bind_eq_bind,Option.bind_eq_some_iff,Option.pure_def,Option.some.injEq,
      Prod.mk.injEq] at ok
    obtain ⟨attempts,_,rfl,rfl⟩ := ok
    exact .inr ⟨t,inside,same,free.1,free.2,rfl,attempts,rfl⟩

theorem enqueueDueRetries_spec {db db' : Db} {limit : Int} {taskIds : Option (List TaskId)}
    {uuid : TaskId → Nat} {now : Time} {count : Nat}
    (ok : enqueueDueRetries db limit taskIds uuid now = some (db',count)) :
    ∃ outbox, db.outbox.insertAll ((dueRetries db limit taskIds now).map
        (fun t => requested (.random (uuid t.id)) t (t.attemptCount + 1) now)) = some outbox ∧
      db' = {db with
        tasks := db.tasks.updateWhere (· ∈ dueRetries db limit taskIds now) Task.requeued
        outbox} := by
  simp only [enqueueDueRetries,Option.bind_eq_bind,Option.bind_eq_some_iff,Option.pure_def,
    Option.some.injEq,Prod.mk.injEq] at ok
  obtain ⟨outbox,inserted,rfl,_⟩ := ok
  exact ⟨outbox,inserted,rfl⟩

theorem mem_dueRetries {db : Db} {limit : Int} {taskIds : Option (List TaskId)} {now : Time} {t : Task}
    (due : t ∈ dueRetries db limit taskIds now) : t ∈ db.tasks ∧ t.status = .retry := by
  have inside := List.mem_of_mem_take due
  rw [List.mem_insertionSort,List.mem_filter] at inside
  simp only [Bool.and_eq_true,decide_eq_true_eq] at inside
  exact ⟨inside.1,inside.2.1.1⟩

theorem insertMessage_spec {db db' : Db} {m : InboxMessage} (ok : db.insertMessage m = some db') :
    (∀ n ∈ db.inbox, n.identity ≠ m.identity ∧ n.slot ≠ m.slot) ∧
      ∃ inbox, db.inbox.insert m = some inbox ∧ db' = {db with inbox} := by
  unfold Db.insertMessage at ok
  split at ok
  · cases ok
  · rename_i free
    simp only [Option.bind_eq_bind,Option.bind_eq_some_iff,Option.pure_def,Option.some.injEq] at ok
    obtain ⟨inbox,inserted,rfl⟩ := ok
    refine ⟨?_,inbox,inserted,rfl⟩
    intro n member
    constructor <;> intro same <;>
      exact free (List.any_eq_true.mpr ⟨n,member,by simp [same]⟩)

theorem insertSpace_spec {db db' : Db} {s : Space} {id : Option SpaceId} (ok : db.insertSpace s = (db',id)) :
    (db' = db ∧ id = none) ∨ (id = some s.id ∧ (∀ other ∈ db.spaces, other.identity ≠ s.identity) ∧
      ∃ spaces, db.spaces.insert s = some spaces ∧ db' = {db with spaces}) := by
  unfold Db.insertSpace at ok
  split at ok
  · cases ok
    exact .inl ⟨rfl,rfl⟩
  · rename_i free
    split at ok
    · rename_i spaces inserted
      cases ok
      refine .inr ⟨rfl,?_,spaces,inserted,rfl⟩
      intro other member same
      exact free (List.any_eq_true.mpr ⟨other,member,by simp [same]⟩)
    · cases ok
      exact .inl ⟨rfl,rfl⟩

theorem truthy_eq_some {value : Option String} {text : String} (given : truthy value = some text) :
    value = some text := (Option.filter_eq_some_iff.mp given).1

theorem spaceByIdentity?_spec {db : Db} {identity : TenantId × String × String} {id : SpaceId}
    (found : db.spaceByIdentity? identity = some id) : ∃ s ∈ db.spaces, s.id = id ∧ s.identity = identity := by
  obtain ⟨s,look,rfl⟩ := Option.map_eq_some_iff.mp found
  exact ⟨s,List.mem_of_find?_eq_some look,rfl,by simpa using List.find?_some look⟩

def Ensured (host : Host) (db : Db) (sourceSpaceId tenantId source : String) (spaceId : SpaceId) :
    Option Space → Prop
  | none => ∃ s ∈ db.spaces, s.id = spaceId ∧ s.tenantId = tenantId
  | some new => new = newSpace tenantId source sourceSpaceId spaceId ∧
      (spaceId = sourceSpaceId ∨ spaceId = digestSpaceId host tenantId source sourceSpaceId) ∧
      ∀ s ∈ db.spaces, s.id ≠ spaceId ∧ s.identity ≠ new.identity

/-- The database with a transaction's own new space in it. -/
def Db.withSpace (db : Db) : Option Space → Option Db
  | none => some db
  | some s => (db.spaces.insert s).map ({db with spaces := ·})

theorem withSpace_spec {db db' : Db} {new : Option Space} (ok : db.withSpace new = some db') :
    (new = none ∧ db' = db) ∨ ∃ s spaces, new = some s ∧ db.spaces.insert s = some spaces ∧
      db' = {db with spaces} := by
  cases new with
  | none => exact .inl ⟨rfl,(Option.some.inj ok).symm⟩
  | some s =>
    obtain ⟨spaces,inserted,rfl⟩ := Option.map_eq_some_iff.mp ok
    exact .inr ⟨s,spaces,rfl,inserted,rfl⟩

theorem ensureTenantSpace_spec {host : Host} {db db' : Db} {sourceSpaceId tenantId source : String}
    {spaceId : SpaceId} (ok : ensureTenantSpace host db sourceSpaceId tenantId source = some (db',spaceId)) :
    ∃ new, Ensured host db sourceSpaceId tenantId source spaceId new ∧ db.withSpace new = some db' := by
  have old : ∀ {id}, db.spaceByIdentity? (tenantId,source,sourceSpaceId) = some id →
      Ensured host db sourceSpaceId tenantId source id none := by
    intro id found
    obtain ⟨s,member,same,identity⟩ := spaceByIdentity?_spec found
    exact ⟨s,member,same,congrArg Prod.fst identity⟩
  -- an inserted row is the only one of its identity, also when its id is the empty text
  have made : ∀ {id id' : SpaceId} {spaces}, id = sourceSpaceId ∨ id = digestSpaceId host tenantId source sourceSpaceId →
      (∀ other ∈ db.spaces, other.identity ≠ (newSpace tenantId source sourceSpaceId id).identity) →
      db.spaces.insert (newSpace tenantId source sourceSpaceId id) = some spaces →
      (id' = id ∨ ({db with spaces} : Db).spaceByIdentity? (tenantId,source,sourceSpaceId) = some id') →
      ∃ new, Ensured host db sourceSpaceId tenantId source id' new ∧ db.withSpace new = some {db with spaces} := by
    intro id id' spaces named free inserted answer
    have same : id' = id := by
      rcases answer with same | look
      · exact same
      · obtain ⟨s,member,rfl,identity⟩ := spaceByIdentity?_spec look
        rcases (Table.mem_insert inserted).mp member with before | rfl
        · exact absurd identity (free s before)
        · rfl
    subst same
    refine ⟨some (newSpace tenantId source sourceSpaceId id'),⟨rfl,named,?_⟩,by simp [Db.withSpace,inserted]⟩
    exact fun s member => ⟨(Table.insert_eq_some.mp inserted).1 s member,free s member⟩
  unfold ensureTenantSpace at ok
  dsimp only at ok
  split at ok
  · rename_i known
    cases ok
    cases look : db.spaces.find? sourceSpaceId with
    | none => simp [look] at known
    | some s =>
      obtain ⟨member,same⟩ := Table.find?_eq_some.mp look
      exact ⟨none,⟨s,member,same,by simpa [look] using known⟩,rfl⟩
  split at ok
  · rename_i existing look
    cases ok
    exact ⟨none,old (truthy_eq_some look),rfl⟩
  generalize first : db.insertSpace _ = r₁ at ok
  obtain ⟨db₁,created⟩ := r₁
  dsimp only at ok
  split at ok
  · rename_i id answer
    cases ok
    have answer := truthy_eq_some answer
    rcases insertSpace_spec first with ⟨_,rfl⟩ | ⟨rfl,free,spaces,inserted,rfl⟩
    · cases answer
    · cases answer
      exact made (.inl rfl) free inserted (.inl rfl)
  generalize second : db₁.insertSpace _ = r₂ at ok
  obtain ⟨db₂,created'⟩ := r₂
  dsimp only at ok
  have untouched : ∀ {spaces}, db.spaces.insert (newSpace tenantId source sourceSpaceId sourceSpaceId) = some spaces →
      db₁ = {db with spaces} → db₂ = db₁ := by
    rintro spaces inserted rfl
    rcases insertSpace_spec second with ⟨same,_⟩ | ⟨_,free,_⟩
    · exact same
    · exact (free _ ((Table.mem_insert inserted).mpr (.inr rfl)) rfl).elim
  rcases insertSpace_spec first with ⟨rfl,_⟩ | ⟨_,free,spaces₁,inserted₁,same₁⟩
  · split at ok
    · rename_i id answer
      cases ok
      have answer := truthy_eq_some answer
      rcases insertSpace_spec second with ⟨_,rfl⟩ | ⟨rfl,free,spaces,inserted,rfl⟩
      · cases answer
      · cases answer
        exact made (.inr rfl) free inserted (.inl rfl)
    · obtain ⟨id,look,same⟩ := Option.map_eq_some_iff.mp ok
      cases same
      rcases insertSpace_spec second with ⟨rfl,_⟩ | ⟨_,free,spaces,inserted,rfl⟩
      · exact ⟨none,old look,rfl⟩
      · exact made (.inr rfl) free inserted (.inr look)
  · have same₂ := untouched inserted₁ same₁
    subst same₁
    subst same₂
    split at ok
    · rename_i id answer
      have answer := truthy_eq_some answer
      rcases insertSpace_spec second with ⟨_,rfl⟩ | ⟨_,free',_⟩
      · cases answer
      · exact (free' _ ((Table.mem_insert inserted₁).mpr (.inr rfl)) rfl).elim
    · obtain ⟨id,look,same⟩ := Option.map_eq_some_iff.mp ok
      cases same
      exact made (.inl rfl) free inserted₁ (.inr look)

theorem Ensured.housed {host : Host} {db db' : Db} {sourceSpaceId tenantId source : String} {spaceId : SpaceId}
    {new : Option Space} (ensured : Ensured host db sourceSpaceId tenantId source spaceId new)
    (written : db.withSpace new = some db') : ∃ s ∈ db'.spaces, s.id = spaceId ∧ s.tenantId = tenantId := by
  rcases withSpace_spec written with ⟨rfl,rfl⟩ | ⟨s,spaces,rfl,inserted,rfl⟩
  · exact ensured
  · obtain ⟨rfl,_,_⟩ := ensured
    exact ⟨_,(Table.mem_insert inserted).mpr (.inr rfl),rfl,rfl⟩

theorem receiveMessage_spec {host : Host} {db db' : Db} {c : Command} {m : InboxMessage} {draws : Draws}
    {now : Time} {result : DispatchResult} (ok : receiveMessage host db c m draws now = some (db',result)) :
    ∃ s ∈ db.spaces, s.id = m.spaceId ∧ ∃ db₁ taskId created,
      enqueueTaskInSession db (c.rootTask host s m) draws.taskId draws.event now = some (db₁,taskId,created) ∧
      result = ⟨m.id,some taskId,true,false⟩ ∧
      ((c.taskType = "ingest" ∧ db' = db₁) ∨
        (c.taskType ≠ "ingest" ∧ advanceWatermarksInSession db₁ s draws.released now = some db')) := by
  simp only [receiveMessage,Option.bind_eq_bind,Option.bind_eq_some_iff] at ok
  obtain ⟨s,space,⟨db₁,taskId,created⟩,enqueued,rest⟩ := ok
  obtain ⟨inside,house⟩ := Table.find?_eq_some.mp space
  refine ⟨s,inside,house,db₁,taskId,created,enqueued,?_⟩
  split at rest
  · rename_i ingest
    cases rest
    exact ⟨rfl,.inl ⟨ingest,rfl⟩⟩
  · rename_i other
    simp only [Option.map_eq_some_iff,Prod.mk.injEq] at rest
    obtain ⟨_,advance,rfl,rfl⟩ := rest
    exact ⟨rfl,.inr ⟨other,advance⟩⟩

theorem messageByIdentity?_spec {db : Db} {identity : TenantId × String × String} {m : InboxMessage}
    (known : db.messageByIdentity? identity = some m) : m ∈ db.inbox ∧ m.identity = identity :=
  ⟨List.mem_of_find?_eq_some known,by simpa using List.find?_some known⟩

theorem receiveInSpace_spec {host : Host} {db db' : Db} {c : Command} {spaceId : SpaceId} {draws : Draws}
    {now : Time} {result : DispatchResult}
    (ok : receiveInSpace host db c spaceId draws now = some (db',result)) :
    (db' = db ∧ ∃ m, db.messageByIdentity? c.identity = some m ∧ result = duplicateOf db c m) ∨
      (db.messageByIdentity? c.identity = none ∧
        ∃ m db₁, m = c.message draws.inboxId spaceId (db.nextSequenceNo spaceId) ∧
          db.insertMessage m = some db₁ ∧ receiveMessage host db₁ c m draws now = some (db',result)) := by
  unfold receiveInSpace at ok
  split at ok
  · rename_i m known
    cases ok
    exact .inl ⟨rfl,m,known,rfl⟩
  · rename_i unknown
    obtain ⟨db₁,inserted,rest⟩ := Option.bind_eq_some_iff.mp ok
    exact .inr ⟨unknown,_,db₁,rfl,inserted,rest⟩

theorem receiveCommand_spec {host : Host} {db db' : Db} {c : Command} {draws : Draws} {now : Time}
    {result : DispatchResult} (ok : receiveCommand host db c draws now = some (db',result)) :
    ∃ db₁ spaceId, ensureTenantSpace host db c.spaceId c.tenant c.source = some (db₁,spaceId) ∧
      receiveInSpace host db₁ c spaceId draws now = some (db',result) := by
  obtain ⟨⟨db₁,spaceId⟩,ensured,rest⟩ := Option.bind_eq_some_iff.mp ok
  exact ⟨db₁,spaceId,ensured,rest⟩

theorem enqueueTask_spec {host : Host} {db db' : Db} {new : NewTask} {taskId id : TaskId} {uuid : Nat}
    {now : Time} {created : Bool} (ok : enqueueTask host db new taskId uuid now = some (db',id,created)) :
    ∃ db₁ spaceId, ensureTenantSpace host db new.spaceId new.tenantId "feishu" = some (db₁,spaceId) ∧
      enqueueTaskInSession db₁ {new with spaceId} taskId uuid now = some (db',id,created) := by
  obtain ⟨⟨db₁,spaceId⟩,ensured,rest⟩ := Option.bind_eq_some_iff.mp ok
  exact ⟨db₁,spaceId,ensured,rest⟩

end Suixinji.Dispatch
