import Suixinji.Dispatch.Effects

/-! Leases fence tasks. A claim version never falls, and a task whose claim has
ended runs again only under a higher version. -/
namespace Suixinji.Dispatch
open Suixinji.Relational Suixinji.Transition

/-- No claim: the version stays, and nothing starts to run. -/
def Task.Continues (t t' : Task) : Prop :=
  t'.claimVersion = t.claimVersion ∧ (t'.status = .running → t.status = .running)

theorem Task.Continues.refl (t : Task) : t.Continues t := ⟨rfl,fun running => running⟩

theorem Task.Continues.trans {t u v : Task} (first : t.Continues u) (second : u.Continues v) : t.Continues v :=
  ⟨second.1.trans first.1,first.2 ∘ second.2⟩

def Continuing (db db' : Db) : Prop := Table.Evolves Task.Continues (fun _ => True) db.tasks db'.tasks

theorem Continuing.refl (db : Db) : Continuing db db := Table.Evolves.refl (fun t _ => .refl t)

theorem Continuing.of_tasks {db db' : Db} (same : db'.tasks = db.tasks) : Continuing db db' := by
  unfold Continuing
  rw [same]
  exact .refl (fun t _ => .refl t)

theorem Continuing.from_tasks {db db₁ db' : Db} (later : Continuing db₁ db') (same : db₁.tasks = db.tasks) :
    Continuing db db' := by
  unfold Continuing at *
  rwa [← same]

theorem Continuing.trans {a b c : Db} (first : Continuing a b) (second : Continuing b c) : Continuing a c :=
  Table.Evolves.trans first second Task.Continues.trans (fun _ _ _ => trivial)

theorem continuing_put {db db' : Db} {t : Task} (t' : Task) (tasks : db'.tasks = db.tasks.put t')
    (member : t ∈ db.tasks) (same : t'.id = t.id) (continues : t.Continues t') : Continuing db db' := by
  unfold Continuing
  rw [tasks]
  exact .put_of_mem member same continues (fun s _ _ => .refl s)

theorem continuing_updateWhere {db db' : Db} {hit : Task → Bool} {f : Task → Task}
    (rows : db'.tasks.rows = db.tasks.rows.map (fun t => if hit t then f t else t))
    (stopped : ∀ t : Task, (f t).id = t.id ∧ (f t).claimVersion = t.claimVersion ∧ (f t).status ≠ .running) :
    Continuing db db' :=
  Table.Evolves.of_updateWhere rows
    (fun t _ _ => ⟨(stopped t).1,(stopped t).2.1,fun running => absurd running (stopped t).2.2⟩)
    (fun t _ _ => .refl t)

theorem continuing_advance {db db' : Db} {s : Space} {uuid : TaskId → Nat} {now : Time}
    (ok : advanceWatermarksInSession db s uuid now = some db') : Continuing db db' := by
  obtain ⟨_,_,rfl⟩ := advanceWatermarksInSession_spec ok
  exact continuing_updateWhere rfl (fun _ => ⟨rfl,rfl,nofun⟩)

theorem continuing_stage {db db' : Db} {inboxId : InboxId} {a : Stages} {uuid : TaskId → Nat} {now : Time}
    (ok : completeInboxStageInSession db inboxId a uuid now = some db') : Continuing db db' := by
  obtain ⟨m,_,_,s,_,_,advance⟩ := completeInboxStageInSession_spec ok
  exact (continuing_advance advance).from_tasks rfl

theorem continuing_skip {db db' : Db} {inboxId : InboxId} {finalStatus : InboxStatus} {cancelRootTask : Bool}
    {uuid : TaskId → Nat} {now : Time} {found : Bool}
    (ok : skipInboxRecord db inboxId finalStatus cancelRootTask uuid now = some (db',found)) :
    Continuing db db' := by
  rcases skipInboxRecord_spec ok with ⟨rfl,_⟩ | ⟨m,_,_,s,_,_,advance⟩
  · exact .refl _
  · refine Continuing.trans ?_ (continuing_advance advance)
    cases cancelRootTask
    · exact .of_tasks rfl
    · exact continuing_updateWhere rfl (fun _ => ⟨rfl,rfl,nofun⟩)

theorem continuing_activateTask {db db' : Db} {taskId : TaskId} {uuid : Nat} {now : Time}
    (ok : activateTaskInSession db taskId uuid now = some db') : Continuing db db' := by
  obtain ⟨t,member,_,⟨_,rfl⟩ | ⟨_,_,_,rfl⟩⟩ := activateTaskInSession_spec ok
  · exact .refl _
  · exact continuing_put t.requeued rfl member rfl ⟨rfl,nofun⟩

theorem continuing_progress {snap db db' : Db} {o : InboxOutcome} {now : Time}
    (ok : progressInbox snap db o now = some db') : Continuing db db' := by
  rcases progressInbox_spec ok with ⟨_,rfl⟩ | ⟨m,_,_,⟨_,rfl⟩ | ⟨_,_,_,s,_,_,activate⟩⟩
  · exact .refl _
  · exact .of_tasks rfl
  · obtain ⟨_,hit,_,rfl⟩ := activateInStatement_spec activate
    exact continuing_updateWhere rfl (fun _ => ⟨rfl,rfl,nofun⟩)

theorem continuing_completeRow {db : Db} {t : Task} (member : t ∈ db.tasks) (now : Time) :
    Continuing db (completeRow db t now) :=
  continuing_put (t.completed now) rfl member rfl ⟨rfl,nofun⟩

theorem completeTask_row {snap db db' : Db} {lease : Lease} {o : Outcomes} {uuid : Nat} {now : Time}
    {done : Bool} (ok : completeTask snap db lease o uuid now = some (db',done)) :
    (done = false ∧ db' = db) ∨
      (done = true ∧ ∃ t ∈ db.tasks, t.ownedBy lease now ∧ Continuing (completeRow db t now) db') := by
  rcases completeTask_spec ok with refused | ⟨rfl,t,member,owned,path⟩
  · exact .inl refused
  refine .inr ⟨rfl,t,member,owned,?_⟩
  rcases path with ⟨_,_,_,_,_,_,_,progress⟩ | ⟨_,_,rfl⟩ | ⟨_,_,_,activate⟩
  · exact continuing_progress progress
  · exact .refl _
  · exact continuing_activateTask activate

theorem continuing_complete {snap db db' : Db} {lease : Lease} {o : Outcomes} {uuid : Nat} {now : Time}
    {done : Bool} (ok : completeTask snap db lease o uuid now = some (db',done)) : Continuing db db' := by
  rcases completeTask_row ok with ⟨_,rfl⟩ | ⟨_,t,member,_,later⟩
  · exact .refl _
  · exact (continuing_completeRow member now).trans later

theorem continuing_dependents (db : Db) (t : Task) (error : String) (now : Time) :
    Continuing db (dependentsCancelled db t error now) := by
  unfold dependentsCancelled
  split
  · exact continuing_updateWhere rfl (fun _ => ⟨rfl,rfl,nofun⟩)
  · exact .refl _

theorem Task.failed_stopped (t : Task) (error : String) (retryAt now : Time) :
    (t.failed error retryAt now).status ≠ .running := by
  simp only [Task.failed]
  split <;> exact nofun

theorem failTask_row {db db' : Db} {lease : Lease} {error : String} {delay : Int} {uuid : TaskId → Nat}
    {now : Time} {reply : FailReply} (ok : failTask db lease error delay uuid now = some (db',reply)) :
    (reply = .stale ∧ db' = db) ∨ (reply ≠ .stale ∧ ∃ t ∈ db.tasks, t.ownedBy lease now ∧
      Continuing (failedRow db t error delay now) db') := by
  rcases failTask_spec ok with refused | ⟨t,member,owned,⟨rfl,_,rfl⟩ | ⟨rfl,_,dead⟩⟩
  · exact .inl refused
  · exact .inr ⟨nofun,t,member,owned,.refl _⟩
  refine .inr ⟨nofun,t,member,owned,?_⟩
  rcases deadLettered_spec dead with ⟨_,rfl⟩ | ⟨_,_,db₁,before,after⟩
  · exact continuing_dependents _ _ _ _
  · refine Continuing.trans ?_ (continuing_stage after)
    rcases before with ⟨_,rfl⟩ | ⟨_,memory⟩
    · exact continuing_dependents _ _ _ _
    · exact (continuing_dependents _ _ _ _).trans (continuing_stage memory)

theorem continuing_fail {db db' : Db} {lease : Lease} {error : String} {delay : Int} {uuid : TaskId → Nat}
    {now : Time} {reply : FailReply} (ok : failTask db lease error delay uuid now = some (db',reply)) :
    Continuing db db' := by
  rcases failTask_row ok with ⟨_,rfl⟩ | ⟨_,t,member,_,later⟩
  · exact .refl _
  · refine Continuing.trans (continuing_put (t.failed error (retryTime delay now) now) rfl member rfl
      ⟨rfl,fun running => ?_⟩) later
    exact absurd running (t.failed_stopped error (retryTime delay now) now)

theorem continuing_enqueue {db db' : Db} {new : NewTask} {taskId id : TaskId} {uuid : Nat} {now : Time}
    {created : Bool} (ok : enqueueTaskInSession db new taskId uuid now = some (db',id,created)) :
    Continuing db db' := by
  rcases enqueueTaskInSession_spec ok with ⟨_,rfl,_⟩ | ⟨_,_,_,_,tasks,outbox,inserted,_,rfl⟩
  · exact .refl _
  · exact .insert inserted (fun t _ => .refl t) trivial

theorem continuing_ensure {host : Host} {db db' : Db} {sourceSpaceId tenantId source : String}
    {spaceId : SpaceId} (ok : ensureTenantSpace host db sourceSpaceId tenantId source = some (db',spaceId)) :
    Continuing db db' := by
  obtain ⟨_,_,written⟩ := ensureTenantSpace_spec ok
  rcases withSpace_spec written with ⟨_,rfl⟩ | ⟨_,_,_,_,rfl⟩
  · exact .refl _
  · exact .of_tasks rfl

theorem continuing_receive {host : Host} {db db' : Db} {c : Command} {draws : Draws} {now : Time}
    {result : DispatchResult} (ok : receiveCommand host db c draws now = some (db',result)) :
    Continuing db db' := by
  obtain ⟨db₁,spaceId,ensured,received⟩ := receiveCommand_spec ok
  refine (continuing_ensure ensured).trans ?_
  rcases receiveInSpace_spec received with ⟨rfl,_⟩ | ⟨_,m,db₂,_,message,rest⟩
  · exact .refl _
  obtain ⟨_,_,_,rfl⟩ := insertMessage_spec message
  obtain ⟨s,_,_,db₃,_,_,enqueued,_,last⟩ := receiveMessage_spec rest
  refine Continuing.trans (.of_tasks rfl) ((continuing_enqueue enqueued).trans ?_)
  rcases last with ⟨_,rfl⟩ | ⟨_,advance⟩
  · exact .refl _
  · exact continuing_advance advance

/-! ### Calls and their leases -/

/-- The lease a call shows. -/
def Op.lease? : Op → Option Lease
  | .renewTaskLease lease _ | .completeTask lease .. | .failTask lease .. | .deferTask lease .. => some lease
  | _ => none

/-- The lease a call would end. -/
def Op.ends? : Op → Option Lease
  | .completeTask lease .. | .failTask lease .. | .deferTask lease .. => some lease
  | _ => none

/-- The row a successful claim returns. -/
def Call.claim? (call : Call) : Option Task :=
  match call.reply with
  | .claimed row => row
  | _ => none

def Task.lease (t : Task) : Lease := ⟨t.id,t.leaseToken.getD "",t.claimVersion⟩

/-- A successful complete, fail or defer under the lease. -/
def Call.Ended (call : Call) (lease : Lease) : Prop :=
  call.op.ends? = some lease ∧
    (call.reply = .done true ∨ call.reply = .failed .retry ∨ call.reply = .failed .deadLetter)

/-- False, 'stale', or the ValueError of more than one outcome. -/
def Call.Refused (call : Call) : Prop :=
  call.reply = .done false ∨ call.reply = .failed .stale ∨
    (call.reply = .raised ∧ ∃ lease o uuid, call.op = .completeTask lease o uuid ∧ 1 < o.count)

theorem overlapped_cases {host : Host} {db db' : Db} {call : Call} (step : OverlappedStep host db call db') :
    (call.claim? = none ∧ Continuing db db') ∨
      ∃ t ∈ db.tasks, ∃ workerId token expires stale,
        call.claim? = some (t.claimed workerId token expires call.now) ∧ t.due call.now ∧
        t.unleased call.now stale ∧ db'.tasks = db.tasks.put (t.claimed workerId token expires call.now) := by
  obtain ⟨snap,result⟩ := step
  obtain ⟨op,now,reply⟩ := call
  rcases outcome_cases result with ok | ⟨_,rfl,raised⟩
  swap
  · cases raised
    exact .inl ⟨rfl,.refl _⟩
  cases op <;> simp only [perform,Option.map_eq_some_iff,Option.some.injEq,Prod.map,Prod.mk.injEq,
    Prod.exists,id_eq] at ok
  case claimTask taskId workerId token stale =>
    obtain ⟨_,row,ok,rfl,rfl⟩ := ok
    rcases claimTask_spec ok with ⟨rfl,rfl⟩ | ⟨t,member,_,due,free,rfl,_,rfl⟩
    · exact .inl ⟨rfl,.refl _⟩
    · exact .inr ⟨t,member,_,_,_,_,rfl,due,free,rfl⟩
  case receiveCommand =>
    obtain ⟨_,_,ok,rfl,rfl⟩ := ok
    exact .inl ⟨rfl,continuing_receive ok⟩
  case enqueueTask =>
    obtain ⟨_,_,_,ok,rfl,rfl⟩ := ok
    obtain ⟨_,_,ensured,enqueued⟩ := enqueueTask_spec ok
    exact .inl ⟨rfl,(continuing_ensure ensured).trans (continuing_enqueue enqueued)⟩
  case renewTaskLease lease leaseSeconds =>
    generalize renewed : renewTaskLease db lease leaseSeconds now = r at ok
    obtain ⟨_,done⟩ := r
    obtain ⟨rfl,rfl⟩ := ok
    rcases renewTaskLease_spec renewed with ⟨_,rfl⟩ | ⟨_,t,member,_,_,rfl⟩
    · exact .inl ⟨rfl,.refl _⟩
    · exact .inl ⟨rfl,continuing_put _ rfl member rfl (.refl t)⟩
  case completeTask =>
    obtain ⟨_,_,ok,rfl,rfl⟩ := ok
    exact .inl ⟨rfl,continuing_complete ok⟩
  case failTask =>
    obtain ⟨_,_,ok,rfl,rfl⟩ := ok
    exact .inl ⟨rfl,continuing_fail ok⟩
  case deferTask lease reason delay =>
    generalize deferred : deferTask db lease reason delay now = r at ok
    obtain ⟨_,done⟩ := r
    obtain ⟨rfl,rfl⟩ := ok
    rcases deferTask_spec deferred with ⟨_,rfl⟩ | ⟨_,t,member,_,_,rfl⟩
    · exact .inl ⟨rfl,.refl _⟩
    · exact .inl ⟨rfl,continuing_put (t.deferred reason (retryTime delay now)) rfl member rfl ⟨rfl,nofun⟩⟩
  case enqueueDueRetries =>
    obtain ⟨_,_,ok,rfl,rfl⟩ := ok
    obtain ⟨_,_,rfl⟩ := enqueueDueRetries_spec ok
    exact .inl ⟨rfl,continuing_updateWhere rfl (fun _ => ⟨rfl,rfl,nofun⟩)⟩
  case skipInboxRecord =>
    obtain ⟨_,_,ok,rfl,rfl⟩ := ok
    exact .inl ⟨rfl,continuing_skip ok⟩
  case markInboxProcessed =>
    obtain ⟨_,ok,rfl,rfl⟩ := ok
    exact .inl ⟨rfl,continuing_stage ok⟩
  case markInboxFailed =>
    obtain ⟨_,ok,rfl,rfl⟩ := ok
    exact .inl ⟨rfl,continuing_stage ok⟩

/-! ### Refusal -/

/-- The lease is of an earlier claim, or its claim has ended. -/
def Fenced (lease : Lease) (db : Db) : Prop :=
  ∃ t ∈ db.tasks, t.id = lease.taskId ∧
    (lease.claimVersion < t.claimVersion ∨ (t.claimVersion = lease.claimVersion ∧ t.status ≠ .running))

/-- The task has been claimed at least `n` times. -/
def ClaimedUpTo (id : TaskId) (n : Nat) (db : Db) : Prop := ∃ t ∈ db.tasks, t.id = id ∧ n ≤ t.claimVersion

theorem overlapped_successor {host : Host} {db db' : Db} {call : Call} (step : OverlappedStep host db call db')
    {t : Task} (member : t ∈ db.tasks) : ∃ t' ∈ db'.tasks, t'.id = t.id ∧
      ((t.Continues t' ∧ ∀ row, call.claim? = some row → row.id ≠ t.id) ∨
        (call.claim? = some t' ∧ t'.claimVersion = t.claimVersion + 1)) := by
  rcases overlapped_cases step with ⟨quiet,continues⟩ | ⟨s,inside,worker,token,expires,_,claim,_,_,tasks⟩
  · obtain ⟨t',there,same,related⟩ := continues.kept t member
    exact ⟨t',there,same,.inl ⟨related,by simp [quiet]⟩⟩
  · by_cases same : t.id = s.id
    · have equal : t = s := db.tasks.unique member inside same
      subst equal
      exact ⟨t.claimed worker token expires call.now,
        by rw [tasks]; exact Table.mem_put.mpr (.inr ⟨rfl,t,member,rfl⟩),rfl,.inr ⟨claim,rfl⟩⟩
    · refine ⟨t,by rw [tasks]; exact Table.mem_put.mpr (.inl ⟨member,same⟩),rfl,.inl ⟨.refl t,?_⟩⟩
      intro row claimed
      cases Option.some.inj (claim.symm.trans claimed)
      exact fun other => same other.symm

theorem fenced_step {host : Host} {db db' : Db} {call : Call} {lease : Lease} (fenced : Fenced lease db)
    (step : OverlappedStep host db call db') : Fenced lease db' := by
  obtain ⟨t,member,same,past⟩ := fenced
  obtain ⟨t',there,same',⟨⟨version,running⟩,_⟩ | ⟨_,next⟩⟩ := overlapped_successor step member
  · refine ⟨t',there,same'.trans same,?_⟩
    rcases past with below | ⟨equal,stopped⟩
    · exact .inl (by omega)
    · exact .inr ⟨version.trans equal,fun again => stopped (running again)⟩
  · exact ⟨t',there,same'.trans same,.inl (by omega)⟩

theorem claimedUpTo_step {host : Host} {db db' : Db} {call : Call} {id : TaskId} {n : Nat}
    (claimed : ClaimedUpTo id n db) (step : OverlappedStep host db call db') : ClaimedUpTo id n db' := by
  obtain ⟨t,member,same,bound⟩ := claimed
  obtain ⟨t',there,same',⟨⟨version,_⟩,_⟩ | ⟨_,next⟩⟩ := overlapped_successor step member
  · exact ⟨t',there,same'.trans same,by omega⟩
  · exact ⟨t',there,same'.trans same,by omega⟩

theorem claimedUpTo_claim {host : Host} {db db' : Db} {call : Call} {row : Task}
    (step : OverlappedStep host db call db') (claim : call.claim? = some row) :
    ClaimedUpTo row.id row.claimVersion db' ∧ ∀ n, ClaimedUpTo row.id n db → n < row.claimVersion := by
  rcases overlapped_cases step with ⟨quiet,_⟩ | ⟨s,inside,_,_,_,_,claimed,_,_,tasks⟩
  · rw [quiet] at claim
    cases claim
  · cases Option.some.inj (claimed.symm.trans claim)
    refine ⟨⟨_,by rw [tasks]; exact Table.mem_put.mpr (.inr ⟨rfl,s,inside,rfl⟩),rfl,le_refl _⟩,?_⟩
    rintro n ⟨t,member,same,bound⟩
    have equal : t = s := db.tasks.unique member inside same
    subst equal
    exact Nat.lt_succ_of_le bound

theorem Fenced.unclaimed {lease : Lease} {db : Db} (fenced : Fenced lease db) :
    ∀ t ∈ db.tasks, ¬ t.claimedBy? lease := by
  intro t member claimed
  obtain ⟨same,running,_,version⟩ := Task.claimedBy?_spec claimed
  obtain ⟨s,inside,same',past⟩ := fenced
  have equal : s = t := db.tasks.unique inside member (same'.trans same.symm)
  subst equal
  rcases past with below | ⟨_,stopped⟩
  · omega
  · exact stopped running

section Unowned
variable {db : Db} {lease : Lease} {now : Time} (unowned : ∀ t ∈ db.tasks, ¬ t.ownedBy lease now)
include unowned

theorem ownedRunningTask_unowned : ownedRunningTask db lease now = none := by
  cases found : ownedRunningTask db lease now with
  | none => rfl
  | some t => exact absurd (ownedRunningTask_spec found).2 (unowned t (ownedRunningTask_spec found).1)

theorem completeTaskWithInboxOutcome_unowned (snap : Db) (o : InboxOutcome) :
    completeTaskWithInboxOutcome snap db lease o now = some (db,false) := by
  unfold completeTaskWithInboxOutcome
  split
  · rfl
  dsimp only
  split
  · rename_i t _ current
    obtain ⟨look,owned⟩ := Option.filter_eq_some_iff.mp current
    simp only [Bool.and_eq_true] at owned
    exact absurd owned.1.1 (unowned t (Table.find?_eq_some.mp look).1)
  · rfl

theorem completeTask_unowned {snap : Db} {o : Outcomes} {uuid : Nat} (single : o.count ≤ 1) :
    completeTask snap db lease o uuid now = some (db,false) := by
  unfold completeTask
  rw [if_neg (by omega)]
  split
  · exact completeTaskWithInboxOutcome_unowned unowned snap _
  · rw [ownedRunningTask_unowned unowned]

end Unowned

theorem fenced_refused {host : Host} {db db' : Db} {call : Call} {lease : Lease} (fenced : Fenced lease db)
    (shown : call.op.lease? = some lease) (step : OverlappedStep host db call db') :
    call.Refused ∧ db' = db := by
  obtain ⟨snap,result⟩ := step
  obtain ⟨op,now,reply⟩ := call
  have unowned : ∀ t ∈ db.tasks, ¬ t.ownedBy lease now := fun t member owned =>
    fenced.unclaimed t member (Task.ownedBy_claimed owned)
  cases op <;> simp only [Op.lease?,Option.some.injEq,reduceCtorEq] at shown <;> subst shown
  case renewTaskLease lease leaseSeconds =>
    generalize renewed : renewTaskLease db lease leaseSeconds now = r at result
    simp only [outcome,perform,renewed,Option.getD_some,Prod.map,Prod.mk.injEq,id_eq] at result
    obtain ⟨rfl,rfl⟩ := result
    rcases renewTaskLease_spec renewed with ⟨done,same⟩ | ⟨_,t,member,claimed,_⟩
    · exact ⟨.inl (congrArg Reply.done done),same⟩
    · exact absurd claimed (fenced.unclaimed t member)
  case completeTask lease o uuid =>
    rcases outcome_cases result with ok | ⟨raised,rfl,same⟩
    · simp only [perform,Option.map_eq_some_iff,Prod.map,Prod.mk.injEq,Prod.exists,id_eq] at ok
      obtain ⟨_,done,ok,rfl,rfl⟩ := ok
      rcases completeTask_spec ok with ⟨rfl,same⟩ | ⟨_,t,member,owned,_⟩
      · exact ⟨.inl rfl,same⟩
      · exact absurd owned (unowned t member)
    · refine ⟨.inr (.inr ⟨same,lease,o,uuid,rfl,?_⟩),rfl⟩
      have refused : completeTask snap db' lease o uuid now = none := Option.map_eq_none_iff.mp raised
      by_contra single
      rw [completeTask_unowned unowned (by omega)] at refused
      cases refused
  case failTask lease error delay uuid =>
    have stale : failTask db lease error delay uuid now = some (db,.stale) := by
      simp only [failTask,ownedRunningTask_unowned unowned]
    simp only [outcome,perform,stale,Option.map_some,Option.getD_some,Prod.map,Prod.mk.injEq,id_eq] at result
    exact ⟨.inr (.inl result.2.symm),result.1.symm⟩
  case deferTask lease reason delay =>
    have stale : deferTask db lease reason delay now = (db,false) := by
      simp only [deferTask,ownedRunningTask_unowned unowned]
    simp only [outcome,perform,stale,Option.getD_some,Prod.map,Prod.mk.injEq,id_eq] at result
    exact ⟨.inl result.2.symm,result.1.symm⟩

theorem fenced_of_put {db db₁ db' : Db} {t : Task} (t' : Task) {lease : Lease} {now : Time}
    (tasks : db₁.tasks = db.tasks.put t') (member : t ∈ db.tasks) (owned : t.ownedBy lease now)
    (later : Continuing db₁ db') (same : t'.id = t.id) (version : t'.claimVersion = t.claimVersion)
    (stopped : t'.status ≠ .running) : Fenced lease db' := by
  obtain ⟨id,_,_,claim⟩ := Task.claimedBy?_spec (Task.ownedBy_claimed owned)
  have inside : t' ∈ db₁.tasks := by
    rw [tasks]
    exact Table.mem_put.mpr (.inr ⟨rfl,t,member,same.symm⟩)
  obtain ⟨u,there,same',continues⟩ := later.kept t' inside
  refine ⟨u,there,same'.trans (same.trans id),.inr ⟨?_,fun running => stopped (continues.2 running)⟩⟩
  rw [continues.1,version,claim]

theorem fenced_of_ended {host : Host} {db db' : Db} {call : Call} {lease : Lease}
    (step : OverlappedStep host db call db') (ended : call.Ended lease) : Fenced lease db' := by
  obtain ⟨snap,result⟩ := step
  obtain ⟨op,now,reply⟩ := call
  obtain ⟨shown,success⟩ := ended
  have ok : perform host snap db now op = some (db',reply) := by
    rcases outcome_cases result with ok | ⟨_,_,rfl⟩
    · exact ok
    · rcases success with same | same | same <;> cases same
  cases op <;> simp only [Op.ends?,Option.some.injEq,reduceCtorEq] at shown <;> subst shown <;>
    simp only [perform,Option.map_eq_some_iff,Option.some.injEq,Prod.map,Prod.mk.injEq,Prod.exists,id_eq] at ok
  case completeTask lease o uuid =>
    obtain ⟨_,done,ok,rfl,rfl⟩ := ok
    rcases completeTask_row ok with ⟨rfl,_⟩ | ⟨_,t,member,owned,later⟩
    · rcases success with same | same | same <;> cases same
    · exact fenced_of_put (t.completed now) rfl member owned later rfl rfl nofun
  case failTask lease error delay uuid =>
    obtain ⟨_,result,ok,rfl,rfl⟩ := ok
    rcases failTask_row ok with ⟨rfl,_⟩ | ⟨_,t,member,owned,later⟩
    · rcases success with same | same | same <;> cases same
    · exact fenced_of_put (t.failed error (retryTime delay now) now) rfl member owned later rfl rfl
        (t.failed_stopped error (retryTime delay now) now)
  case deferTask lease reason delay =>
    generalize deferred : deferTask db lease reason delay now = r at ok
    obtain ⟨_,done⟩ := r
    obtain ⟨rfl,rfl⟩ := ok
    rcases deferTask_spec deferred with ⟨rfl,_⟩ | ⟨_,t,member,owned,_,rfl⟩
    · rcases success with same | same | same <;> cases same
    · exact fenced_of_put (t.deferred reason (retryTime delay now)) rfl member owned (.refl _) rfl rfl nofun

theorem fenced_run {host : Host} {db db' : Db} {calls : List Call} {lease : Lease} (fenced : Fenced lease db)
    (run : Run (OverlappedStep host) db calls db') : Fenced lease db' :=
  run.invariant (Fenced lease) (fun _ _ _ fenced step => fenced_step fenced step) fenced

theorem fenced_of_later_claim {host : Host} {start db : Db} {calls : List Call} {earlier later : Call}
    {first second : Task} (run : Run (OverlappedStep host) start calls db)
    (ordered : [earlier,later].Sublist calls) (claim : earlier.claim? = some first)
    (claim' : later.claim? = some second) (same : second.id = first.id) : Fenced first.lease db := by
  obtain ⟨before,after,rfl,here,rest⟩ := List.cons_sublist_iff.mp ordered
  obtain ⟨pre,mid,rfl⟩ := List.mem_iff_append.mp here
  obtain ⟨mid',post,rfl⟩ := List.mem_iff_append.mp (List.singleton_sublist.mp rest)
  obtain ⟨db₁,run₁,run₂⟩ := run.split
  obtain ⟨db₂,_,step₁⟩ := run₁.split
  cases step₁ with
  | cons head tail =>
  obtain ⟨db₃,run₃,step₂⟩ := run₂.split
  cases step₂ with
  | cons head' tail' =>
  have upTo : ClaimedUpTo second.id first.claimVersion db₃ := by
    rw [same]
    exact (tail.append run₃).invariant (ClaimedUpTo first.id first.claimVersion)
      (fun _ _ _ claimed step => claimedUpTo_step claimed step) (claimedUpTo_claim head claim).1
  obtain ⟨⟨t,member,id,version⟩,above⟩ := claimedUpTo_claim head' claim'
  have below := above _ upTo
  exact fenced_run ⟨t,member,id.trans same,.inl (lt_of_lt_of_le below version)⟩ tail'

theorem fenced_of_mem {host : Host} {start db : Db} {calls : List Call} {call : Call} {lease : Lease}
    (run : Run (OverlappedStep host) start calls db) (member : call ∈ calls) (ended : call.Ended lease) :
    Fenced lease db := by
  obtain ⟨before,after,rfl⟩ := List.mem_iff_append.mp member
  obtain ⟨db₁,_,rest⟩ := run.split
  cases rest with
  | cons head tail => exact fenced_run (fenced_of_ended head ended) tail

/-! ### Lease fencing -/

structure LeaseFencing (calls : List Call) (db : Db) (call : Call) (db' : Db) : Prop where
  version : ∀ t ∈ db.tasks, ∃ t' ∈ db'.tasks, t'.id = t.id ∧
    t'.claimVersion = t.claimVersion + if (call.claim?.map Task.id) = some t.id then 1 else 0
  claim : ∀ row, call.claim? = some row → ∃ t ∈ db.tasks, t.id = row.id ∧
    t.status ∉ [.blocked,.cancelled,.completed,.deadLetter] ∧
    (∀ retryAt, t.nextRetryAt = some retryAt → retryAt ≤ call.now) ∧
    (t.status = .running → ∀ expires, t.leaseExpiresAt = some expires → expires ≤ call.now)
  superseded : ∀ earlier later first second, [earlier,later].Sublist calls → earlier.claim? = some first →
    later.claim? = some second → second.id = first.id → call.op.lease? = some first.lease →
    call.Refused ∧ db' = db
  once : ∀ earlier ∈ calls, ∀ lease, earlier.Ended lease → call.op.ends? = some lease →
    call.Refused ∧ db' = db

theorem Task.due_spec {t : Task} {now : Time} (due : t.due now) :
    t.status ∉ [.blocked,.cancelled,.completed,.deadLetter] ∧
      ∀ retryAt, t.nextRetryAt = some retryAt → retryAt ≤ now := by
  simp only [Task.due,Bool.and_eq_true,decide_eq_true_eq] at due
  obtain ⟨⟨⟨⟨blocked,cancelled⟩,completed⟩,dead⟩,past⟩ := due
  refine ⟨by simp [blocked,cancelled,completed,dead],?_⟩
  intro retryAt set
  simpa [set] using past

theorem Task.unleased_spec {t : Task} {now stale : Time} (free : t.unleased now stale)
    (running : t.status = .running) : ∀ expires, t.leaseExpiresAt = some expires → expires ≤ now := by
  intro expires held
  simpa [Task.unleased,running,held] using free

/-- Every call of every run, whichever snapshots its completion statements saw. -/
theorem task_lease_fencing (host : Host) {start db db' : Db} {calls : List Call} {call : Call}
    (run : Run (OverlappedStep host) start calls db) (step : OverlappedStep host db call db') :
    LeaseFencing calls db call db' where
  version t member := by
    obtain ⟨t',there,same,⟨⟨version,_⟩,other⟩ | ⟨claim,next⟩⟩ := overlapped_successor step member
    · refine ⟨t',there,same,?_⟩
      rw [if_neg,version]
      · rfl
      · intro claimed
        obtain ⟨row,claim,id⟩ := Option.map_eq_some_iff.mp claimed
        exact other row claim id
    · exact ⟨t',there,same,by rw [claim,Option.map_some,same,if_pos rfl,next]⟩
  claim row claim := by
    rcases overlapped_cases step with ⟨quiet,_⟩ | ⟨t,member,_,_,_,_,claimed,due,free,_⟩
    · rw [quiet] at claim
      cases claim
    · cases Option.some.inj (claimed.symm.trans claim)
      exact ⟨t,member,rfl,(Task.due_spec due).1,(Task.due_spec due).2,Task.unleased_spec free⟩
  superseded earlier later first second ordered claim claim' same shown :=
    fenced_refused (fenced_of_later_claim run ordered claim claim' same) shown step
  once earlier member lease ended shown := by
    refine fenced_refused (fenced_of_mem run member ended) ?_ step
    revert shown
    cases call.op <;> simp [Op.ends?,Op.lease?]

/-- The first worker's lease runs out and a second worker claims the task. -/
def takeover : List (Time × Op) :=
  [(0,.enqueueTask {taskType := "note",spaceId := "room",idempotencyKey := "k",payload := {}} "task" 0),
    (1,.claimTask "task" "first" "one" 60),(70000,.claimTask "task" "second" "two" 60)]

theorem task_lease_fencing_takeover :
    LeaseFencing (execute asciiHost {} takeover).2 (execute asciiHost {} takeover).1
      ⟨.completeTask ⟨"task","one",1⟩ {} 1,70001,.done false⟩ (execute asciiHost {} takeover).1 :=
  task_lease_fencing asciiHost
    ((run_execute asciiHost {} takeover).imp (fun _ _ _ step => step.overlapped)) ⟨{},rfl⟩

end Suixinji.Dispatch
