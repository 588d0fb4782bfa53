import Mathlib.Logic.Relation
import Suixinji.Dispatch.Marks
import Suixinji.Dispatch.Places

/-! What the transactions do to the messages and the marks of the spaces. -/
namespace Suixinji.Dispatch
open Suixinji.Relational Suixinji.Numbering Suixinji.Transition
open Relation (ReflTransGen)

/-- A later version of a message: its stages only end. -/
structure InboxMessage.Onward (m m' : InboxMessage) : Prop where
  id : m'.id = m.id
  spaceId : m'.spaceId = m.spaceId
  sequenceNo : m'.sequenceNo = m.sequenceNo
  ended : ∀ stage, m.Ended stage → m'.Ended stage

theorem InboxMessage.Onward.refl (m : InboxMessage) : m.Onward m := ⟨rfl,rfl,rfl,fun _ ended => ended⟩

theorem InboxMessage.Onward.trans {m n q : InboxMessage} (first : m.Onward n) (second : n.Onward q) : m.Onward q :=
  ⟨second.id.trans first.id,second.spaceId.trans first.spaceId,second.sequenceNo.trans first.sequenceNo,
    fun stage ended => second.ended stage (first.ended stage ended)⟩

/-- A space is written back with its marks advanced over its messages. -/
def Advanced (db db' : Db) (space : SpaceId) : Prop :=
  ∃ s ∈ db.spaces, s.id = space ∧ ∃ s', s'.id = s.id ∧ db'.spaces = db.spaces.put s' ∧
    ∀ stage, s'.mark stage = advanced (db'.messages s.id) (InboxMessage.stageStatus · stage) (s.mark stage)

/-- The spaces and messages after a part of a transaction that is no completion statement. -/
inductive Shift (db db' : Db) : Prop
  | elsewhere (spaces : db'.spaces = db.spaces) (inbox : db'.inbox = db.inbox)
  | opened {s : Space} (fresh : ∀ stage, s.mark stage = 0) (unused : db.messages s.id = [])
      (spaces : db.spaces.insert s = some db'.spaces) (inbox : db'.inbox = db.inbox)
  | arrived {m : InboxMessage} (number : m.sequenceNo = db.nextSequenceNo m.spaceId)
      (inbox : db.inbox.insert m = some db'.inbox)
      (spaces : (db'.spaces = db.spaces ∧ ∀ stage, ¬ m.Ended stage) ∨ Advanced db db' m.spaceId)
  | ended {m m' : InboxMessage} (member : m ∈ db.inbox) (onward : m.Onward m') (inbox : db'.inbox = db.inbox.put m')
      (spaces : Advanced db db' m.spaceId)

abbrev Shifts : Db → Db → Prop := ReflTransGen Shift

/-- What the statement of an inbox outcome does that started at `snap`. -/
def Progressed (snap db : Db) (o : InboxOutcome) (now : Time) (db' : Db) : Prop :=
  ∃ locked ∈ snap.inbox, ∃ m ∈ db.inbox, m.id = o.inboxId ∧ locked.id = m.id ∧
    db'.inbox = db.inbox.put (o.apply now m) ∧ ∃ seen ∈ snap.spaces, ∃ s ∈ db.spaces, seen.id = s.id ∧
      s.id = m.spaceId ∧ db'.spaces = db.spaces.put (s.progressedTo snap seen o (o.apply now m))

/-! ### Stages only end -/

theorem stageStatus_ended (a : Stages) : a.stageStatus.ended := by
  unfold Stages.stageStatus
  split <;> rfl

theorem endNote_ended (a : Stages) (now : Time) (p : InboxMessage × Space) {stage : Stage}
    (ended : p.1.Ended stage) : (endNote a now p).1.Ended stage := by
  simp only [endNote]
  split
  · cases stage
    · exact stageStatus_ended a
    · exact ended
  · exact ended

theorem endMemory_ended (a : Stages) (now : Time) (p : InboxMessage × Space) {stage : Stage}
    (ended : p.1.Ended stage) : (endMemory a now p).1.Ended stage := by
  simp only [endMemory]
  split
  · cases stage
    · exact ended
    · exact stageStatus_ended a
  · exact ended

theorem finalizeStages_ended (a : Stages) (now : Time) (p : InboxMessage × Space) {stage : Stage}
    (ended : p.1.Ended stage) : (finalizeStages a now p).1.Ended stage := by
  obtain ⟨m,s⟩ := p
  simp only [finalizeStages]
  split
  · split
    · cases stage <;> exact ended
    · split <;> split <;> cases stage <;> first | rfl | exact ended
  · exact ended

theorem staged_onward (a : Stages) (now : Time) (m : InboxMessage) (s : Space) : m.Onward (staged a now m s).1 where
  id := (staged_restaged a now m s).id
  spaceId := (staged_restaged a now m s).spaceId
  sequenceNo := (staged_restaged a now m s).sequenceNo
  ended _ ended := finalizeStages_ended a now _ (endMemory_ended a now _ (endNote_ended a now (m,s) ended))

theorem staged_mark (a : Stages) (now : Time) (m : InboxMessage) (s : Space) (stage : Stage) :
    (staged a now m s).2.mark stage = s.mark stage := by
  cases stage
  · exact (staged_restaged a now m s).noteWatermark
  · exact (staged_restaged a now m s).memoryWatermark

theorem skipped_onward (m : InboxMessage) (finalStatus : InboxStatus) (now : Time) : m.Onward (m.skipped finalStatus now) :=
  ⟨rfl,rfl,rfl,fun stage _ => by cases stage <;> rfl⟩

def InboxOutcome.ends (o : InboxOutcome) : Stage → Bool
  | .note => o.noteCompleted
  | .memory => o.memoryCompleted

theorem apply_ended_iff (o : InboxOutcome) (now : Time) (m : InboxMessage) (stage : Stage) :
    (o.apply now m).Ended stage ↔ m.Ended stage ∨ o.ends stage := by
  cases stage
  · cases given : o.noteCompleted <;>
      simp [InboxMessage.Ended,InboxMessage.stageStatus,InboxOutcome.apply,InboxOutcome.ends,given,StageStatus.ended]
  · cases given : o.memoryCompleted <;>
      simp [InboxMessage.Ended,InboxMessage.stageStatus,InboxOutcome.apply,InboxOutcome.ends,given,StageStatus.ended]

theorem apply_onward (o : InboxOutcome) (now : Time) (m : InboxMessage) : m.Onward (o.apply now m) :=
  ⟨rfl,rfl,rfl,fun stage ended => (apply_ended_iff o now m stage).mpr (.inl ended)⟩

/-! ### The transactions -/

section Transactions
variable {db db' : Db}

theorem advanced_of_advance {s s' : Space} {db₁ : Db} {uuid : TaskId → Nat} {now : Time} (member : s ∈ db.spaces)
    (id : s'.id = s.id) (marks : ∀ stage, s'.mark stage = s.mark stage) (spaces : db₁.spaces.put s' = db.spaces.put s')
    (ok : advanceWatermarksInSession db₁ s' uuid now = some db') : db'.inbox = db₁.inbox ∧ Advanced db db' s.id := by
  obtain ⟨_,_,rfl⟩ := advanceWatermarksInSession_spec ok
  refine ⟨rfl,s,member,rfl,db₁.advancedSpace s',id,?_,?_⟩
  · have same : s'.id = (db₁.advancedSpace s').id := rfl
    dsimp only
    rw [← db₁.spaces.put_put same,spaces,Table.put_put _ same]
  · intro stage
    rw [advancedSpace_mark,marks,id]
    rfl

theorem shift_stage {inboxId : InboxId} {a : Stages} {uuid : TaskId → Nat} {now : Time}
    (ok : completeInboxStageInSession db inboxId a uuid now = some db') : Shift db db' := by
  obtain ⟨m,member,_,s,there,house,advance⟩ := completeInboxStageInSession_spec ok
  obtain ⟨inbox,spaces⟩ := advanced_of_advance there (staged_restaged a now m s).space_id (staged_mark a now m s)
    (Table.put_put _ rfl) advance
  exact .ended member (staged_onward a now m s) inbox (house ▸ spaces)

theorem shift_skip {inboxId : InboxId} {finalStatus : InboxStatus} {cancelRootTask : Bool}
    {uuid : TaskId → Nat} {now : Time} {found : Bool}
    (ok : skipInboxRecord db inboxId finalStatus cancelRootTask uuid now = some (db',found)) : Shift db db' := by
  rcases skipInboxRecord_spec ok with ⟨rfl,_⟩ | ⟨m,member,_,s,there,house,advance⟩
  · exact .elsewhere rfl rfl
  · obtain ⟨inbox,spaces⟩ := advanced_of_advance there rfl (fun _ => rfl) (by rfl) advance
    exact .ended member (skipped_onward m finalStatus now) inbox (house ▸ spaces)

theorem shifts_fail {lease : Lease} {error : String} {delay : Int} {uuid : TaskId → Nat} {now : Time}
    {reply : FailReply} (ok : failTask db lease error delay uuid now = some (db',reply)) : Shifts db db' := by
  rcases failTask_spec ok with ⟨_,rfl⟩ | ⟨t,_,_,⟨_,_,rfl⟩ | ⟨_,_,dead⟩⟩
  · exact .refl
  · exact .single (.elsewhere rfl rfl)
  have first : Shift db (dependentsCancelled (failedRow db t error delay now) t error now) := by
    unfold dependentsCancelled
    split <;> exact .elsewhere rfl rfl
  rcases deadLettered_spec dead with ⟨_,rfl⟩ | ⟨inboxId,_,db₁,⟨_,rfl⟩ | ⟨_,memory⟩,after⟩
  · exact .single first
  · exact ReflTransGen.tail (.single first) (shift_stage after)
  · exact ((ReflTransGen.single first).tail (shift_stage memory)).tail (shift_stage after)

theorem Housed.unused (housed : Housed db) {s : Space} (absent : ∀ q ∈ db.spaces, q.id ≠ s.id) :
    db.messages s.id = [] := by
  rw [List.eq_nil_iff_forall_not_mem]
  intro m inside
  obtain ⟨there,home⟩ := Db.mem_messages.mp inside
  obtain ⟨q,member,same⟩ := housed.messages m there
  exact absent q member ((congrArg Prod.snd same).trans home)

theorem shift_ensure (housed : Housed db) {host : Host} {sourceSpaceId tenantId source : String} {spaceId : SpaceId}
    (ok : ensureTenantSpace host db sourceSpaceId tenantId source = some (db',spaceId)) : Shift db db' := by
  obtain ⟨new,isNew,written⟩ := ensureTenantSpace_spec ok
  rcases withSpace_spec written with ⟨_,rfl⟩ | ⟨s,spaces,rfl,inserted,rfl⟩
  · exact .elsewhere rfl rfl
  · obtain ⟨rfl,_,_⟩ := isNew
    exact .opened (fun stage => by cases stage <;> rfl) (housed.unused (Table.insert_eq_some.mp inserted).1) inserted rfl

theorem enqueued_elsewhere {new : NewTask} {taskId id : TaskId} {uuid : Nat} {now : Time} {created : Bool}
    (ok : enqueueTaskInSession db new taskId uuid now = some (db',id,created)) :
    db'.spaces = db.spaces ∧ db'.inbox = db.inbox := by
  rcases enqueueTaskInSession_spec ok with ⟨_,rfl,_⟩ | ⟨_,_,_,_,_,_,_,_,rfl⟩ <;> exact ⟨rfl,rfl⟩

theorem shifts_receive (housed : Housed db) {host : Host} {c : Command} {draws : Draws} {now : Time}
    {result : DispatchResult} (ok : receiveCommand host db c draws now = some (db',result)) : Shifts db db' := by
  obtain ⟨db₁,spaceId,ensured,received⟩ := receiveCommand_spec ok
  have first := ReflTransGen.single (shift_ensure housed ensured)
  rcases receiveInSpace_spec received with ⟨rfl,_⟩ | ⟨_,m,db₂,rfl,message,rest⟩
  · exact first
  refine first.tail ?_
  obtain ⟨_,inbox,inserted,rfl⟩ := insertMessage_spec message
  obtain ⟨s,member,house,db₃,_,_,enqueued,_,last⟩ := receiveMessage_spec rest
  obtain ⟨spaces,inbox'⟩ := enqueued_elsewhere enqueued
  rcases last with ⟨ingest,rfl⟩ | ⟨_,advance⟩
  · refine .arrived rfl (inserted.trans (congrArg some inbox'.symm)) (.inl ⟨spaces,?_⟩)
    intro stage
    cases stage <;> simp [InboxMessage.Ended,InboxMessage.stageStatus,Command.message,ingest,StageStatus.ended]
  · obtain ⟨inbox'',there⟩ := advanced_of_advance member rfl (fun _ => rfl) (congrArg (Table.put · s) spaces) advance
    exact .arrived rfl (inserted.trans (congrArg some (inbox''.trans inbox').symm)) (.inr (house ▸ there))

theorem progressed_of_progress {snap : Db} {o : InboxOutcome} {t : Task} {now : Time} (housed : Housed db)
    (known : ∃ seen ∈ snap.spaces, ∃ m ∈ db.inbox, m.id = o.inboxId ∧ seen.id = m.spaceId)
    {locked : InboxMessage} (inside : locked ∈ snap.inbox) (same : locked.id = o.inboxId)
    (ok : progressInbox snap (completeRow db t now) o now = some db') : Progressed snap db o now db' := by
  obtain ⟨seen,before,m,member,id,home⟩ := known
  rcases progressInbox_spec ok with ⟨absent,_⟩ | ⟨m',member',id',rest⟩
  · exact absurd id (Table.find?_eq_none.mp absent m member)
  obtain rfl : m' = m := db.inbox.unique member' member (id'.trans id.symm)
  rcases rest with ⟨missing | missing,_⟩ | ⟨seen',before',home',s,there,house,activate⟩
  · exact absurd home (Table.find?_eq_none.mp missing seen before)
  · obtain ⟨s,there,place⟩ := housed.messages m' member
    exact absurd (congrArg Prod.snd place) (Table.find?_eq_none.mp missing s there)
  · obtain ⟨_,_,_,rfl⟩ := activateInStatement_spec activate
    exact ⟨locked,inside,m',member,id,same.trans id.symm,rfl,seen',before',s,there,home'.trans house.symm,house,rfl⟩

end Transactions

/-! ### Later states -/

/-- A state that a run reaches from this one, as far as messages and spaces go. -/
structure Later (db db' : Db) : Prop where
  inbox : ∀ m ∈ db.inbox, ∃ m' ∈ db'.inbox, m.Onward m'
  spaces : ∀ s ∈ db.spaces, ∃ s' ∈ db'.spaces, s'.id = s.id

theorem Later.refl (db : Db) : Later db db := ⟨fun m member => ⟨m,member,.refl m⟩,fun s member => ⟨s,member,rfl⟩⟩

theorem Later.trans {db db₁ db' : Db} (first : Later db db₁) (second : Later db₁ db') : Later db db' := by
  constructor
  · intro m member
    obtain ⟨m₁,between,onward⟩ := first.inbox m member
    obtain ⟨m',inside,onward'⟩ := second.inbox m₁ between
    exact ⟨m',inside,onward.trans onward'⟩
  · intro s member
    obtain ⟨s₁,between,same⟩ := first.spaces s member
    obtain ⟨s',inside,same'⟩ := second.spaces s₁ between
    exact ⟨s',inside,same'.trans same⟩

section
variable {db db' : Db}

theorem kept_put {m m' : InboxMessage} (member : m ∈ db.inbox) (onward : m.Onward m') (inbox : db'.inbox = db.inbox.put m') :
    ∀ n ∈ db.inbox, ∃ n' ∈ db'.inbox, n.Onward n' := by
  intro n inside
  rw [inbox]
  by_cases same : n.id = m.id
  · rw [db.inbox.unique inside member same]
    exact ⟨m',Table.mem_put.mpr (.inr ⟨rfl,m,member,onward.id.symm⟩),onward⟩
  · exact ⟨n,Table.mem_put.mpr (.inl ⟨inside,onward.id ▸ same⟩),.refl n⟩

theorem kept_spaces {s s' : Space} (member : s ∈ db.spaces) (id : s'.id = s.id) (spaces : db'.spaces = db.spaces.put s') :
    ∀ q ∈ db.spaces, ∃ q' ∈ db'.spaces, q'.id = q.id := by
  intro q inside
  rw [spaces]
  by_cases same : q.id = s.id
  · exact ⟨s',Table.mem_put.mpr (.inr ⟨rfl,s,member,id.symm⟩),id.trans same.symm⟩
  · exact ⟨q,Table.mem_put.mpr (.inl ⟨inside,id ▸ same⟩),rfl⟩

theorem Advanced.kept {space : SpaceId} (advanced_ : Advanced db db' space) :
    ∀ q ∈ db.spaces, ∃ q' ∈ db'.spaces, q'.id = q.id := by
  obtain ⟨s,member,_,s',id,spaces,_⟩ := advanced_
  exact kept_spaces member id spaces

theorem Shift.later (shift : Shift db db') : Later db db' := by
  have same : db'.spaces = db.spaces → ∀ s ∈ db.spaces, ∃ s' ∈ db'.spaces, s'.id = s.id :=
    fun spaces s member => ⟨s,spaces ▸ member,rfl⟩
  cases shift with
  | elsewhere spaces inbox => exact ⟨fun m member => ⟨m,inbox ▸ member,.refl m⟩,same spaces⟩
  | opened fresh unused spaces inbox =>
    exact ⟨fun m member => ⟨m,inbox ▸ member,.refl m⟩,fun s member => ⟨s,(Table.mem_insert spaces).mpr (.inl member),rfl⟩⟩
  | arrived number inbox spaces =>
    refine ⟨fun m member => ⟨m,(Table.mem_insert inbox).mpr (.inl member),.refl m⟩,?_⟩
    rcases spaces with ⟨unchanged,_⟩ | advanced_
    · exact same unchanged
    · exact advanced_.kept
  | ended member onward inbox spaces => exact ⟨kept_put member onward inbox,spaces.kept⟩

theorem Shifts.later (shifts : Shifts db db') : Later db db' := by
  induction shifts with
  | refl => exact .refl db
  | tail _ shift before => exact before.trans shift.later

theorem Progressed.later {snap : Db} {o : InboxOutcome} {now : Time} (progressed : Progressed snap db o now db') :
    Later db db' := by
  obtain ⟨_,_,m,member,_,_,inbox,seen,_,s,there,_,_,spaces⟩ := progressed
  exact ⟨kept_put member (apply_onward o now m) inbox,kept_spaces there (by rfl) spaces⟩

end

/-! ### The whole transaction -/

theorem shifts_outcome {host : Host} {snap db db' : Db} {now : Time} {op : Op} {reply : Reply} (housed : Housed db)
    (housed₀ : Housed snap) (later : Later snap db) (result : outcome host snap db now op = (db',reply)) :
    Shifts db db' ∨ ∃ lease o uuid outcome, op = .completeTask lease o uuid ∧ o.inbox = some outcome ∧
      (∃ t ∈ db.tasks, t.ownedBy lease now) ∧ Progressed snap db outcome now db' := by
  rcases outcome_cases result with ok | ⟨_,rfl,_⟩
  swap
  · exact .inl .refl
  cases op <;> simp only [perform,Option.map_eq_some_iff,Option.some.injEq,Prod.map,Prod.mk.injEq,
    Prod.exists,id_eq] at ok
  case receiveCommand =>
    obtain ⟨_,_,ok,rfl,_⟩ := ok
    exact .inl (shifts_receive housed ok)
  case enqueueTask =>
    obtain ⟨_,_,_,ok,rfl,_⟩ := ok
    obtain ⟨db₁,spaceId,ensured,enqueued⟩ := enqueueTask_spec ok
    obtain ⟨spaces,inbox⟩ := enqueued_elsewhere enqueued
    exact .inl ((ReflTransGen.single (shift_ensure housed ensured)).tail (.elsewhere spaces inbox))
  case claimTask =>
    obtain ⟨_,row,ok,rfl,_⟩ := ok
    rcases claimTask_spec ok with ⟨_,rfl⟩ | ⟨_,_,_,_,_,_,_,rfl⟩ <;> exact .inl (.single (.elsewhere rfl rfl))
  case renewTaskLease lease leaseSeconds =>
    generalize renewed : renewTaskLease db lease leaseSeconds now = r at ok
    obtain ⟨_,done⟩ := r
    obtain ⟨rfl,_⟩ := ok
    rcases renewTaskLease_spec renewed with ⟨_,rfl⟩ | ⟨_,_,_,_,_,rfl⟩ <;> exact .inl (.single (.elsewhere rfl rfl))
  case completeTask lease o uuid =>
    obtain ⟨_,_,ok,rfl,_⟩ := ok
    rcases completeTask_spec ok with ⟨_,rfl⟩ | ⟨_,t,member,owned,path⟩
    · exact .inl .refl
    rcases path with ⟨outcome,given,locked,inside,same,_,_,progress⟩ | ⟨_,_,rfl⟩ | ⟨_,_,_,activate⟩
    · obtain ⟨m,there,onward⟩ := later.inbox locked inside
      obtain ⟨seen,before,place⟩ := housed₀.messages locked inside
      have home : seen.id = locked.spaceId := congrArg Prod.snd place
      exact .inr ⟨lease,o,uuid,outcome,rfl,given,⟨t,member,owned⟩,progressed_of_progress housed
        ⟨seen,before,m,there,onward.id.trans same,home.trans onward.spaceId.symm⟩ inside same progress⟩
    · exact .inl (.single (.elsewhere rfl rfl))
    · obtain ⟨_,_,_,⟨_,rfl⟩ | ⟨_,_,_,rfl⟩⟩ := activateTaskInSession_spec activate <;>
        exact .inl (.single (.elsewhere rfl rfl))
  case failTask =>
    obtain ⟨_,_,ok,rfl,_⟩ := ok
    exact .inl (shifts_fail ok)
  case deferTask lease reason delay =>
    generalize deferred : deferTask db lease reason delay now = r at ok
    obtain ⟨_,done⟩ := r
    obtain ⟨rfl,_⟩ := ok
    rcases deferTask_spec deferred with ⟨_,rfl⟩ | ⟨_,_,_,_,_,rfl⟩ <;> exact .inl (.single (.elsewhere rfl rfl))
  case enqueueDueRetries =>
    obtain ⟨_,_,ok,rfl,_⟩ := ok
    obtain ⟨_,_,rfl⟩ := enqueueDueRetries_spec ok
    exact .inl (.single (.elsewhere rfl rfl))
  case skipInboxRecord =>
    obtain ⟨_,_,ok,rfl,_⟩ := ok
    exact .inl (.single (shift_skip ok))
  case markInboxProcessed =>
    obtain ⟨_,ok,rfl,_⟩ := ok
    exact .inl (.single (shift_stage ok))
  case markInboxFailed =>
    obtain ⟨_,ok,rfl,_⟩ := ok
    exact .inl (.single (shift_stage ok))

/-! ### Exact marks -/

structure Marked (db : Db) : Prop where
  numbered : ∀ space, Numbered (db.messages space) InboxMessage.sequenceNo
  exact_ : ∀ s ∈ db.spaces, ∀ stage, db.ExactMark s stage

theorem marked_empty : Marked {} where
  numbered _ := Numbered.nil
  exact_ s member := absurd member (Table.not_mem_empty s)

section Put
variable {db db' : Db} {m m' : InboxMessage} (member : m ∈ db.inbox) (onward : m.Onward m')
  (inbox : db'.inbox = db.inbox.put m')
include member onward inbox

theorem messages_put_other {space : SpaceId} (other : space ≠ m.spaceId) : db'.messages space = db.messages space := by
  rw [messages_put member onward.id onward.spaceId inbox]
  conv_rhs => rw [← List.map_id (db.messages space)]
  apply List.map_congr_left
  intro n inside
  rw [if_neg]
  · rfl
  · intro same
    obtain ⟨there,rfl⟩ := Db.mem_messages.mp inside
    rw [db.inbox.unique there member (same.trans onward.id)] at other
    exact other rfl

theorem mem_messages_put_self : m' ∈ db'.messages m.spaceId := by
  refine Db.mem_messages.mpr ⟨?_,onward.spaceId⟩
  rw [inbox]
  exact Table.mem_put.mpr (.inr ⟨rfl,m,member,onward.id.symm⟩)

omit member in
theorem mem_messages_put_other {space : SpaceId} {n : InboxMessage} (there : n ∈ db.messages space) (other : n.id ≠ m.id) :
    n ∈ db'.messages space := by
  obtain ⟨inside,home⟩ := Db.mem_messages.mp there
  refine Db.mem_messages.mpr ⟨?_,home⟩
  rw [inbox]
  exact Table.mem_put.mpr (.inl ⟨inside,onward.id ▸ other⟩)

theorem numbered_put {space : SpaceId} (numbered : Numbered (db.messages space) InboxMessage.sequenceNo) :
    Numbered (db'.messages space) InboxMessage.sequenceNo := by
  rw [messages_put member onward.id onward.spaceId inbox]
  refine numbered.map ?_
  intro n inside
  split
  · rename_i same
    rw [db.inbox.unique (Db.mem_messages.mp inside).1 member (same.trans onward.id),onward.sequenceNo]
  · rfl

theorem clear_put {s : Space} {stage : Stage} (clear : db.ClearMark s stage) : db'.ClearMark s stage := by
  obtain ⟨bound,before⟩ := clear
  refine ⟨by rwa [messages_put member onward.id onward.spaceId inbox,List.length_map],?_⟩
  intro n there low
  rcases mem_messages_put member onward.id onward.spaceId inbox there with ⟨old,_⟩ | ⟨rfl,old⟩
  · exact before n old low
  · exact onward.ended stage (before m old (onward.sequenceNo ▸ low))

end Put

namespace Marked
variable {db db' : Db} (marked : Marked db)
include marked

theorem of_put {s s' : Space} (id : s'.id = s.id) (spaces : db'.spaces = db.spaces.put s')
    (numbered : ∀ space, Numbered (db'.messages space) InboxMessage.sequenceNo)
    (others : ∀ space, space ≠ s.id → db'.messages space = db.messages space)
    (here : ∀ stage, db'.ExactMark s' stage) : Marked db' := by
  refine ⟨numbered,?_⟩
  intro q inside stage
  rw [spaces] at inside
  rcases Table.mem_put.mp inside with ⟨before,other⟩ | ⟨rfl,_⟩
  · rw [Db.ExactMark,others q.id (id ▸ other)]
    exact marked.exact_ q before stage
  · exact here stage

theorem of_advanced {space : SpaceId} (advanced_ : Advanced db db' space)
    (numbered : ∀ space, Numbered (db'.messages space) InboxMessage.sequenceNo)
    (others : ∀ other, other ≠ space → db'.messages other = db.messages other)
    (clear : ∀ s ∈ db.spaces, s.id = space → ∀ stage, db'.ClearMark s stage) : Marked db' := by
  obtain ⟨s,member,rfl,s',id,spaces,marks⟩ := advanced_
  refine marked.of_put id spaces numbered others ?_
  intro stage
  obtain ⟨bound,done⟩ := clear s member rfl stage
  rw [Db.ExactMark,id,marks]
  exact advanced_isWatermark (numbered s.id) bound done

theorem arrived {m : InboxMessage} (number : m.sequenceNo = db.nextSequenceNo m.spaceId)
    (inbox : db.inbox.insert m = some db'.inbox)
    (spaces : (db'.spaces = db.spaces ∧ ∀ stage, ¬ m.Ended stage) ∨ Advanced db db' m.spaceId) : Marked db' := by
  have next := number.trans (nextSequenceNo_eq (marked.numbered m.spaceId))
  have rows : ∀ space, db'.messages space = db.messages space ++ if m.spaceId = space then [m] else [] :=
    messages_append (Table.insert_eq_some.mp inbox).2
  have here : db'.messages m.spaceId = db.messages m.spaceId ++ [m] := by
    rw [rows,if_pos rfl]
  have others : ∀ space, space ≠ m.spaceId → db'.messages space = db.messages space := by
    intro space other
    rw [rows,if_neg other.symm,List.append_nil]
  have numbered : ∀ space, Numbered (db'.messages space) InboxMessage.sequenceNo := by
    intro space
    by_cases home : space = m.spaceId
    · rw [home,here]
      exact (marked.numbered _).append next
    · rw [others space home]
      exact marked.numbered space
  have clear : ∀ s ∈ db.spaces, s.id = m.spaceId → ∀ stage, db'.ClearMark s stage := by
    intro s inside home stage
    obtain ⟨bound,before⟩ := (marked.exact_ s inside stage).clear
    rw [home] at bound before
    rw [Db.ClearMark,home,here]
    refine ⟨by rw [List.length_append]; omega,?_⟩
    intro n there low
    rcases List.mem_append.mp there with old | new
    · exact before n old low
    · rw [List.mem_singleton.mp new,next] at low
      omega
  rcases spaces with ⟨same,open_⟩ | advanced_
  · refine ⟨numbered,?_⟩
    rw [same]
    intro s inside stage
    have before := marked.exact_ s inside stage
    by_cases home : s.id = m.spaceId
    · have above := (clear s inside home stage).2
      -- the mark stops below the new message, or below one that was open before
      by_cases full : s.mark stage = (db.messages s.id).length
      · refine isWatermark_of_open (numbered s.id) above (i := m) ?_ ?_ (open_ stage)
        · rw [home,here]
          exact List.mem_append_right _ (List.mem_singleton_self m)
        · rw [full,next,home]
      · obtain ⟨n,there,at_,stillOpen⟩ := before.next_open (marked.numbered s.id) (lt_of_le_of_ne before.1.1 full)
        refine isWatermark_of_open (numbered s.id) above ?_ at_ stillOpen
        rw [rows]
        exact List.mem_append_left _ there
    · rw [Db.ExactMark,others s.id home]
      exact before
  · exact marked.of_advanced advanced_ numbered others clear

theorem shift (shift : Shift db db') : Marked db' := by
  cases shift with
  | elsewhere spaces inbox =>
    have messages : db'.messages = db.messages := by
      funext space
      simp only [Db.messages,inbox]
    exact ⟨messages ▸ marked.numbered,by simpa only [spaces,Db.ExactMark,messages] using marked.exact_⟩
  | @opened s fresh unused spaces inbox =>
    have messages : db'.messages = db.messages := by
      funext space
      simp only [Db.messages,inbox]
    refine ⟨messages ▸ marked.numbered,?_⟩
    intro q inside stage
    rw [Db.ExactMark,messages]
    rcases (Table.mem_insert spaces).mp inside with before | rfl
    · exact marked.exact_ q before stage
    · rw [unused,fresh]
      exact isWatermark_zero _
  | arrived number inbox spaces => exact marked.arrived number inbox spaces
  | ended member onward inbox spaces =>
    exact marked.of_advanced spaces (fun space => numbered_put member onward inbox (marked.numbered space))
      (fun _ other => messages_put_other member onward inbox other)
      (fun s inside _ stage => clear_put member onward inbox (marked.exact_ s inside stage).clear)

theorem shifts (shifts : Shifts db db') : Marked db' := by
  induction shifts with
  | refl => exact marked
  | tail _ shift before => exact before.shift shift

end Marked

/-! ### The statement of an inbox outcome -/

/-- Each message whose stage others have ended since the snapshot was taken still
has an open message before it, once the outcome has ended its own. -/
def Undisturbed (snap db : Db) (o : InboxOutcome) (stage : Stage) : Prop :=
  ∀ m ∈ db.inbox, m.id = o.inboxId → ∀ n ∈ db.messages m.spaceId, n.id ≠ m.id → n.Ended stage →
    (∃ n₀ ∈ snap.inbox, n₀.id = n.id ∧ n₀.Ended stage) ∨
      ∃ k ∈ db.messages m.spaceId, k.sequenceNo < n.sequenceNo ∧ ¬ k.Ended stage ∧ ¬ (k.id = m.id ∧ o.ends stage)

theorem undisturbed_self (db : Db) (o : InboxOutcome) (stage : Stage) : Undisturbed db db o stage :=
  fun _ _ _ n inside _ ended => .inl ⟨n,(Db.mem_messages.mp inside).1,rfl,ended⟩

theorem progressedTo_mark (s : Space) (snap : Db) (seen : Space) (o : InboxOutcome) (m : InboxMessage) (stage : Stage) :
    (s.progressedTo snap seen o m).mark stage =
      progressMark (snap.messages seen.id) m (InboxMessage.stageStatus · stage) (seen.mark stage) := by
  cases stage <;> rfl

section Statement
variable {snap db db' : Db} (marked₀ : Marked snap) (marked : Marked db) (later : Later snap db)
include marked₀ marked later

theorem progressed_exact_iff {o : InboxOutcome} {now : Time} {locked m : InboxMessage} {seen s : Space} (stage : Stage)
    (inside : locked ∈ snap.inbox) (member : m ∈ db.inbox) (id : m.id = o.inboxId) (same : locked.id = m.id)
    (inbox : db'.inbox = db.inbox.put (o.apply now m)) (before : seen ∈ snap.spaces) (home : seen.id = s.id)
    (house : s.id = m.spaceId) :
    db'.ExactMark (s.progressedTo snap seen o (o.apply now m)) stage ↔ Undisturbed snap db o stage := by
  have here : ∀ {n₀ n : InboxMessage}, n₀ ∈ snap.inbox → n ∈ db.inbox → n₀.id = n.id → n₀.Onward n := by
    intro n₀ n old new equal
    obtain ⟨n',there,onward⟩ := later.inbox n₀ old
    rwa [db.inbox.unique there new (onward.id.trans equal)] at onward
  have onward : m.Onward (o.apply now m) := apply_onward o now m
  have locked' : locked.Onward (o.apply now m) := (here inside member same).trans onward
  have distinct : ∀ {n : InboxMessage}, n ∈ db.messages m.spaceId → n.sequenceNo = m.sequenceNo → n = m :=
    fun there equal => List.inj_on_of_nodup_map (marked.numbered m.spaceId).nodup there
      (Db.mem_messages.mpr ⟨member,rfl⟩) equal
  -- the snapshot as the statement sees it, with the updated message in its place
  generalize view : ({snap with inbox := snap.inbox.put (o.apply now m)} : Db) = snap'
  have inbox' : snap'.inbox = snap.inbox.put (o.apply now m) := by rw [← view]
  have space : locked.spaceId = m.spaceId := (here inside member same).spaceId.symm
  have self : o.apply now m ∈ snap'.messages m.spaceId := space ▸ mem_messages_put_self inside locked' inbox'
  have numbered := numbered_put inside locked' inbox' (marked₀.numbered m.spaceId)
  obtain ⟨bound,clear⟩ := clear_put inside locked' inbox' (marked₀.exact_ seen before stage).clear
  rw [home,house] at bound clear
  have mark : (s.progressedTo snap seen o (o.apply now m)).mark stage =
      advanced (snap'.messages m.spaceId) (InboxMessage.stageStatus · stage) (seen.mark stage) := by
    rw [progressedTo_mark,progressMark_eq_advanced,home,house,messages_put inside locked'.id locked'.spaceId inbox']
    intro n there equal
    rw [snap.inbox.unique (Db.mem_messages.mp there).1 inside (equal.trans same.symm)]
    exact locked'.sequenceNo.symm
  have watermark := advanced_isWatermark numbered bound clear
  rw [← mark] at watermark
  have kept : ∀ n ∈ snap'.messages m.spaceId, ∃ n' ∈ db'.messages m.spaceId,
      n'.sequenceNo = n.sequenceNo ∧ (n.Ended stage → n'.Ended stage) := by
    intro n there
    rcases mem_messages_put inside locked'.id locked'.spaceId inbox' there with ⟨old,other⟩ | ⟨rfl,_⟩
    · obtain ⟨held,place⟩ := Db.mem_messages.mp old
      obtain ⟨n',new,later'⟩ := later.inbox n held
      refine ⟨n',mem_messages_put_other onward inbox (Db.mem_messages.mpr ⟨new,later'.spaceId.trans place⟩) ?_,
        later'.sequenceNo,later'.ended stage⟩
      rw [later'.id,← same]
      exact other
    · exact ⟨_,mem_messages_put_self member onward inbox,rfl,fun ended => ended⟩
  have iff := watermark.iff_undisturbed numbered (numbered_put member onward inbox (marked.numbered m.spaceId)) kept
  have place : (s.progressedTo snap seen o (o.apply now m)).id = m.spaceId := house
  rw [Db.ExactMark,place]
  refine iff.trans ⟨?_,?_⟩
  · rintro undisturbed m₁ member₁ id₁ n there other ended
    obtain rfl : m₁ = m := db.inbox.unique member₁ member (id₁.trans id.symm)
    rcases undisturbed n (mem_messages_put_other onward inbox there other) ended with
      ⟨i,old,number,done⟩ | ⟨j,new,earlier,open_⟩
    · rcases mem_messages_put inside locked'.id locked'.spaceId inbox' old with ⟨held,apart⟩ | ⟨rfl,_⟩
      · obtain ⟨k,there',onward'⟩ := later.inbox i (Db.mem_messages.mp held).1
        have isMessage : k ∈ db.messages m₁.spaceId :=
          Db.mem_messages.mpr ⟨there',onward'.spaceId.trans (Db.mem_messages.mp held).2⟩
        have equal : k = n := List.inj_on_of_nodup_map (marked.numbered m₁.spaceId).nodup isMessage there
          (onward'.sequenceNo.trans number)
        exact .inl ⟨i,(Db.mem_messages.mp held).1,onward'.id.symm.trans (congrArg InboxMessage.id equal),done⟩
      · exact absurd (congrArg InboxMessage.id (distinct there number.symm)) other
    · rcases mem_messages_put member onward.id onward.spaceId inbox new with ⟨held,apart⟩ | ⟨rfl,held⟩
      · exact .inr ⟨j,held,earlier,open_,fun own => apart own.1⟩
      · rw [apply_ended_iff,not_or] at open_
        exact .inr ⟨m₁,held,earlier,open_.1,fun own => open_.2 own.2⟩
  · intro undisturbed i new ended
    rcases mem_messages_put member onward.id onward.spaceId inbox new with ⟨there,other⟩ | ⟨rfl,_⟩
    · rcases undisturbed m member id i there other ended with ⟨n₀,held,equal,done⟩ | ⟨k,there',earlier,open_,own⟩
      · have onward₀ := here held (Db.mem_messages.mp there).1 equal
        have old : n₀ ∈ snap.messages m.spaceId :=
          Db.mem_messages.mpr ⟨held,onward₀.spaceId.symm.trans (Db.mem_messages.mp there).2⟩
        refine .inl ⟨n₀,mem_messages_put_other locked' inbox' old ?_,onward₀.sequenceNo.symm,done⟩
        rw [equal,same]
        exact other
      · by_cases mine : k.id = m.id
        · obtain rfl : k = m := db.inbox.unique (Db.mem_messages.mp there').1 member mine
          refine .inr ⟨o.apply now k,mem_messages_put_self member onward inbox,earlier,?_⟩
          rw [apply_ended_iff,not_or]
          exact ⟨open_,fun ends => own ⟨rfl,ends⟩⟩
        · exact .inr ⟨k,mem_messages_put_other onward inbox there' mine,earlier,open_⟩
    · exact .inl ⟨_,self,rfl,ended⟩

theorem Marked.progressed {o : InboxOutcome} {now : Time} (undisturbed : ∀ stage, Undisturbed snap db o stage)
    (progressed : Progressed snap db o now db') : Marked db' := by
  obtain ⟨locked,inside,m,member,id,same,inbox,seen,before,s,there,home,house,spaces⟩ := progressed
  have onward : m.Onward (o.apply now m) := apply_onward o now m
  refine marked.of_put (s := s) (by rfl) spaces (fun space => numbered_put member onward inbox (marked.numbered space)) ?_ ?_
  · intro space other
    exact messages_put_other member onward inbox (house ▸ other)
  · intro stage
    exact (progressed_exact_iff marked₀ marked later stage inside member id same inbox before home house).mpr (undisturbed stage)

end Statement

/-- A transaction that runs alone. -/
theorem marked_step {host : Host} {db db' : Db} {call : Call} (marked : Marked db) (housed : Housed db)
    (step : Step host db call db') : Marked db' := by
  rcases shifts_outcome housed housed (.refl db) step with shifts | ⟨_,_,_,outcome,_,_,_,progressed⟩
  · exact marked.shifts shifts
  · exact marked.progressed marked (.refl db) (undisturbed_self db outcome) progressed

end Suixinji.Dispatch
