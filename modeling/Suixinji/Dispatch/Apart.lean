import Suixinji.Dispatch.Fencing
import Suixinji.Dispatch.Ledger

/-! What the calls about other tasks do to a task: it waits on, its counters stay. -/
namespace Suixinji.Dispatch
open Suixinji.Relational Suixinji.Transition

/-- The task whose claim, or the end of whose lease, the call is about. -/
def Op.task? : Op → Option TaskId
  | .claimTask taskId .. => some taskId
  | op => op.ends?.map Lease.taskId

/-- The rows of a task wait as before. -/
def Apart (taskId : TaskId) (db db' : Db) : Prop :=
  Table.Evolves (fun t t' : Task => t.id = taskId → t.Idles t') (fun _ => True) db.tasks db'.tasks

variable {taskId : TaskId} {db db₁ db' : Db} {t t' : Task}

theorem Idle.apart (idle : Idle db db') : Apart taskId db db' :=
  idle.tasks.mono (fun _ _ _ idles _ => idles) (fun _ _ => trivial)

theorem Apart.of_tasks (same : db'.tasks = db.tasks) : Apart taskId db db' := by
  unfold Apart
  rw [same]
  exact .refl (fun t _ _ => .refl t)

theorem Apart.trans (first : Apart taskId db db₁) (second : Apart taskId db₁ db') : Apart taskId db db' where
  kept t member := by
    obtain ⟨t₁,there,same,idles⟩ := first.kept t member
    obtain ⟨t',inside,same',later⟩ := second.kept t₁ there
    exact ⟨t',inside,same'.trans same,fun ours => (idles ours).trans (later (same.trans ours))⟩
  origin t' inside := .inr trivial

theorem Apart.put (member : t ∈ db.tasks) (other : t.id ≠ taskId) (tasks : db'.tasks = db.tasks.put t') (id : t'.id = t.id) :
    Apart taskId db db' := by
  unfold Apart
  rw [tasks]
  exact .put_of_mem member id (fun ours => absurd ours other) (fun s _ _ _ => .refl s)

theorem Apart.row (apart : Apart taskId db db') (member : t ∈ db.tasks) (ours : t.id = taskId) :
    ∃ t' ∈ db'.tasks, t'.id = taskId ∧ t.Idles t' := by
  obtain ⟨t',inside,same,idles⟩ := apart.kept t member
  exact ⟨t',inside,same.trans ours,idles ours⟩

theorem owner_other {lease : Lease} {now : Time} (owned : t.ownedBy lease now) (other : some lease.taskId ≠ some taskId) :
    t.id ≠ taskId := by
  intro ours
  exact other (congrArg some ((Task.claimedBy?_spec (Task.ownedBy_claimed owned)).1.symm.trans ours))

theorem apart_outcome {host : Host} {snap : Db} {now : Time} {op : Op} {reply : Reply} (other : op.task? ≠ some taskId)
    (result : outcome host snap db now op = (db',reply)) : Apart taskId db db' := by
  rcases outcome_cases result with ok | ⟨_,rfl,_⟩
  swap
  · exact .of_tasks rfl
  cases op <;> simp only [perform,Option.map_eq_some_iff,Option.some.injEq,Prod.map,Prod.mk.injEq,
    Prod.exists,id_eq] at ok
  case receiveCommand =>
    obtain ⟨_,_,ok,rfl,_⟩ := ok
    exact (idle_receive ok).apart
  case enqueueTask =>
    obtain ⟨_,_,_,ok,rfl,_⟩ := ok
    obtain ⟨_,_,ensured,enqueued⟩ := enqueueTask_spec ok
    refine (idle_ensure ensured).apart.trans ?_
    rcases enqueueTaskInSession_spec enqueued with ⟨_,rfl,_⟩ | ⟨_,_,_,_,tasks,outbox,inserted,_,rfl⟩
    · exact .of_tasks rfl
    · exact .insert inserted (fun t _ _ => .refl t) trivial
  case claimTask =>
    obtain ⟨_,_,ok,rfl,_⟩ := ok
    rcases claimTask_spec ok with ⟨_,rfl⟩ | ⟨t,member,same,_,_,_,_,rfl⟩
    · exact .of_tasks rfl
    · exact .put member (fun ours => other (congrArg some (same.symm.trans ours))) rfl rfl
  case renewTaskLease lease leaseSeconds =>
    generalize renewed : renewTaskLease db lease leaseSeconds now = r at ok
    obtain ⟨_,done⟩ := r
    obtain ⟨rfl,_⟩ := ok
    rcases renewTaskLease_spec renewed with ⟨_,rfl⟩ | ⟨_,t,member,_,_,rfl⟩
    · exact .of_tasks rfl
    · exact .put_of_mem member rfl (fun _ => ⟨rfl,rfl,rfl,rfl,.inl rfl⟩) (fun t _ _ _ => .refl t)
  case completeTask =>
    obtain ⟨_,_,ok,rfl,_⟩ := ok
    rcases completeTask_spec ok with ⟨_,rfl⟩ | ⟨_,t,member,owned,path⟩
    · exact .of_tasks rfl
    have completed : Apart taskId db (completeRow db t now) := .put member (owner_other owned other) rfl rfl
    rcases path with ⟨_,_,_,_,_,_,_,progress⟩ | ⟨_,_,rfl⟩ | ⟨_,_,_,activate⟩
    · exact completed.trans (idle_progress progress).apart
    · exact completed
    · exact completed.trans (idle_activateTask activate).apart
  case failTask lease error delay uuid =>
    obtain ⟨_,_,ok,rfl,_⟩ := ok
    rcases failTask_spec ok with ⟨_,rfl⟩ | ⟨t,member,owned,path⟩
    · exact .of_tasks rfl
    have failed : Apart taskId db (failedRow db t error delay now) := .put member (owner_other owned other) rfl rfl
    rcases path with ⟨_,_,rfl⟩ | ⟨_,_,dead⟩
    · exact failed
    · exact failed.trans (idle_deadLettered dead).apart
  case deferTask lease reason delay =>
    generalize deferred : deferTask db lease reason delay now = r at ok
    obtain ⟨_,done⟩ := r
    obtain ⟨rfl,_⟩ := ok
    rcases deferTask_spec deferred with ⟨_,rfl⟩ | ⟨_,t,member,owned,_,rfl⟩
    · exact .of_tasks rfl
    · exact .put member (owner_other owned other) rfl rfl
  case enqueueDueRetries =>
    obtain ⟨_,_,ok,rfl,_⟩ := ok
    obtain ⟨_,_,rfl⟩ := enqueueDueRetries_spec ok
    refine Idle.apart (.of_update rfl rfl (fun t due => ⟨rfl,requeued_idles (.inr (.inr (.inl ?_)))⟩))
    exact (mem_dueRetries (of_decide_eq_true due)).2
  case skipInboxRecord =>
    obtain ⟨_,_,ok,rfl,_⟩ := ok
    exact (idle_skip ok).apart
  case markInboxProcessed =>
    obtain ⟨_,ok,rfl,_⟩ := ok
    exact (idle_stage ok).apart
  case markInboxFailed =>
    obtain ⟨_,ok,rfl,_⟩ := ok
    exact (idle_stage ok).apart

end Suixinji.Dispatch
