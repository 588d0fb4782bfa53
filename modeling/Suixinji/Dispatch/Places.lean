import Suixinji.Dispatch.Effects

/-! Which tenant and space a row belongs to, and which of them a transaction writes. -/
namespace Suixinji.Dispatch
open Suixinji.Relational Suixinji.Transition

abbrev Place := TenantId × SpaceId

def Space.place (s : Space) : Place := (s.tenantId,s.id)
def InboxMessage.place (m : InboxMessage) : Place := (m.tenantId,m.spaceId)
def Task.place (t : Task) : Place := (t.tenantId,t.spaceId)

/-- Every message and task lies in a space of its own tenant. -/
structure Housed (db : Db) : Prop where
  messages : ∀ m ∈ db.inbox, ∃ s ∈ db.spaces, s.place = m.place
  tasks : ∀ t ∈ db.tasks, ∃ s ∈ db.spaces, s.place = t.place

/-- Rows stay in their places, and only rows in `P` change or are new. -/
structure Within (P : Place → Prop) (db db' : Db) : Prop where
  spaces : Table.Evolves (fun s s' => s'.place = s.place ∧ (s' = s ∨ P s.place)) (fun s => P s.place)
    db.spaces db'.spaces
  inbox : Table.Evolves (fun m m' => m'.place = m.place ∧ (m' = m ∨ P m.place))
    (fun m => P m.place ∧ ∃ s ∈ db'.spaces, s.place = m.place) db.inbox db'.inbox
  tasks : Table.Evolves (fun t t' => t'.place = t.place ∧ (t' = t ∨ P t.place))
    (fun t => P t.place ∧ ∃ s ∈ db'.spaces, s.place = t.place) db.tasks db'.tasks

theorem housed_empty : Housed {} where
  messages m member := absurd member (Table.not_mem_empty m)
  tasks t member := absurd member (Table.not_mem_empty t)

namespace Within
variable {P : Place → Prop} {db db₁ db' : Db}

theorem refl (P : Place → Prop) (db : Db) : Within P db db :=
  ⟨.refl (fun _ _ => ⟨rfl,.inl rfl⟩),.refl (fun _ _ => ⟨rfl,.inl rfl⟩),.refl (fun _ _ => ⟨rfl,.inl rfl⟩)⟩

theorem space (within : Within P db db') {place : Place} (there : ∃ s ∈ db.spaces, s.place = place) :
    ∃ s ∈ db'.spaces, s.place = place := by
  obtain ⟨s,member,same⟩ := there
  obtain ⟨s',inside,_,same',_⟩ := within.spaces.kept s member
  exact ⟨s',inside,same'.trans same⟩

theorem housed (within : Within P db db') (housed : Housed db) : Housed db' where
  messages m' inside := by
    rcases within.inbox.origin m' inside with ⟨m,member,_,same,_⟩ | ⟨_,there⟩
    · exact same ▸ within.space (housed.messages m member)
    · exact there
  tasks t' inside := by
    rcases within.tasks.origin t' inside with ⟨t,member,_,same,_⟩ | ⟨_,there⟩
    · exact same ▸ within.space (housed.tasks t member)
    · exact there

theorem trans (first : Within P db db₁) (second : Within P db₁ db') : Within P db db' := by
  have join : ∀ {ρ : Type} {place : ρ → Place} {r s q : ρ}, place s = place r ∧ (s = r ∨ P (place r)) →
      place q = place s ∧ (q = s ∨ P (place s)) → place q = place r ∧ (q = r ∨ P (place r)) := by
    rintro ρ place r s q ⟨same,rfl | allowed⟩ ⟨same',later⟩
    · exact ⟨same',later⟩
    · exact ⟨same'.trans same,.inr allowed⟩
  constructor
  · exact first.spaces.trans second.spaces join (fun _ allowed related => related.1 ▸ allowed)
  · refine Table.Evolves.trans
      (first.inbox.mono (fun _ _ _ related => related) (fun m new => ⟨new.1,second.space new.2⟩)) second.inbox join ?_
    exact fun _ new related => related.1 ▸ new
  · refine Table.Evolves.trans
      (first.tasks.mono (fun _ _ _ related => related) (fun t new => ⟨new.1,second.space new.2⟩)) second.tasks join ?_
    exact fun _ new related => related.1 ▸ new

theorem of_writes (inbox : db'.inbox = db.inbox ∨ ∃ m ∈ db.inbox, ∃ m', P m.place ∧ m'.id = m.id ∧
      m'.place = m.place ∧ db'.inbox = db.inbox.put m')
    (spaces : db'.spaces = db.spaces ∨ ∃ s ∈ db.spaces, ∃ s', P s.place ∧ s'.place = s.place ∧
      db'.spaces = db.spaces.put s')
    (tasks : ∃ (p : Task → Bool) (f : Task → Task), (∀ t ∈ db.tasks, p t → P t.place) ∧
      (∀ t, (f t).id = t.id ∧ (f t).place = t.place) ∧
      db'.tasks.rows = db.tasks.rows.map (fun t => if p t then f t else t)) : Within P db db' := by
  constructor
  · rcases spaces with same | ⟨s,member,s',allowed,same,put⟩
    · rw [same]
      exact .refl (fun _ _ => ⟨rfl,.inl rfl⟩)
    · rw [put]
      exact .put_of_mem member (congrArg Prod.snd same) ⟨same,.inr allowed⟩ (fun _ _ _ => ⟨rfl,.inl rfl⟩)
  · rcases inbox with same | ⟨m,member,m',allowed,id,same,put⟩
    · rw [same]
      exact .refl (fun _ _ => ⟨rfl,.inl rfl⟩)
    · rw [put]
      exact .put_of_mem member id ⟨same,.inr allowed⟩ (fun _ _ _ => ⟨rfl,.inl rfl⟩)
  · obtain ⟨p,f,allowed,same,rows⟩ := tasks
    exact .of_updateWhere rows (fun t member chosen => ⟨(same t).1,(same t).2,.inr (allowed t member chosen)⟩)
      (fun _ _ _ => ⟨rfl,.inl rfl⟩)

theorem of_put {t : Task} (t' : Task) (member : t ∈ db.tasks) (allowed : P t.place) (id : t'.id = t.id)
    (same : t'.place = t.place) (spaces : db'.spaces = db.spaces) (inbox : db'.inbox = db.inbox)
    (tasks : db'.tasks = db.tasks.put t') : Within P db db' := by
  constructor
  · rw [spaces]
    exact .refl (fun _ _ => ⟨rfl,.inl rfl⟩)
  · rw [inbox]
    exact .refl (fun _ _ => ⟨rfl,.inl rfl⟩)
  · rw [tasks]
    exact .put_of_mem member id ⟨same,.inr allowed⟩ (fun _ _ _ => ⟨rfl,.inl rfl⟩)

theorem of_same (within : Within P db db₁) (inbox : db'.inbox = db₁.inbox) (spaces : db'.spaces = db₁.spaces)
    (tasks : db'.tasks = db₁.tasks) : Within P db db' where
  spaces := spaces ▸ within.spaces
  inbox := by rw [inbox,spaces]; exact within.inbox
  tasks := by rw [tasks,spaces]; exact within.tasks

end Within

/-! ### The transactions -/

/-- Ending stages writes the statuses of the message and the progress of the space. -/
structure Restaged (p q : InboxMessage × Space) : Prop where
  message : q.1 = {p.1 with
    status := q.1.status
    noteStatus := q.1.noteStatus
    memoryStatus := q.1.memoryStatus
    noteCompletedAt := q.1.noteCompletedAt
    memoryCompletedAt := q.1.memoryCompletedAt}
  space : q.2 = {p.2 with
    processedSequenceNo := q.2.processedSequenceNo
    memoryGapSequenceNo := q.2.memoryGapSequenceNo
    lastNoteGap := q.2.lastNoteGap
    lastMemoryGap := q.2.lastMemoryGap}

theorem Restaged.trans {p q r : InboxMessage × Space} (first : Restaged p q) (second : Restaged q r) :
    Restaged p r where
  message := by rw [second.message,first.message]
  space := by rw [second.space,first.space]

theorem endNote_restaged (a : Stages) (now : Time) (p : InboxMessage × Space) : Restaged p (endNote a now p) := by
  simp only [endNote]
  split
  · split <;> exact ⟨rfl,rfl⟩
  · exact ⟨rfl,rfl⟩

theorem endMemory_restaged (a : Stages) (now : Time) (p : InboxMessage × Space) :
    Restaged p (endMemory a now p) := by
  simp only [endMemory]
  split
  · split <;> exact ⟨rfl,rfl⟩
  · exact ⟨rfl,rfl⟩

theorem finalizeStages_restaged (a : Stages) (now : Time) (p : InboxMessage × Space) :
    Restaged p (finalizeStages a now p) := by
  simp only [finalizeStages]
  split
  · split
    · exact ⟨rfl,rfl⟩
    · split <;> split <;> exact ⟨rfl,rfl⟩
  · exact ⟨rfl,rfl⟩

theorem staged_restaged (a : Stages) (now : Time) (m : InboxMessage) (s : Space) :
    Restaged (m,s) (staged a now m s) :=
  (endNote_restaged a now _).trans ((endMemory_restaged a now _).trans (finalizeStages_restaged a now _))

namespace Restaged
variable {p q : InboxMessage × Space} (restaged : Restaged p q)
include restaged

theorem id : q.1.id = p.1.id := by rw [restaged.message]
theorem place : q.1.place = p.1.place := by rw [restaged.message]; rfl
theorem spaceId : q.1.spaceId = p.1.spaceId := by rw [restaged.message]
theorem sequenceNo : q.1.sequenceNo = p.1.sequenceNo := by rw [restaged.message]
theorem space_place : q.2.place = p.2.place := by rw [restaged.space]; rfl
theorem space_id : q.2.id = p.2.id := by rw [restaged.space]
theorem noteWatermark : q.2.noteWatermark = p.2.noteWatermark := by rw [restaged.space]
theorem memoryWatermark : q.2.memoryWatermark = p.2.memoryWatermark := by rw [restaged.space]

end Restaged

/-- The failure of `t` has nothing more to end: the message is final, the marks of its space
stand where its messages put them, and no task waits there for a mark that is reached. -/
structure Task.Spent (t : Task) (db : Db) (error : String) (now : Time) (m : InboxMessage) : Prop where
  final : m.status.finalized
  failed : t.taskType = "memory" → m.memoryStatus = .failed ∧ m.memoryCompletedAt = some now
  gap : t.taskType = "memory" → ∀ s ∈ db.spaces, s.id = m.spaceId →
    s.withMemoryGap (Stages.memoryGap {memory := true,success := false,error := some error} m) = s
  marks : ∀ s ∈ db.spaces, s.id = m.spaceId → db.advancedSpace s = s
  calm : ∀ s ∈ db.spaces, s.id = m.spaceId → ∀ u ∈ db.tasks, s.releases u = false

namespace Task.Spent
variable {t : Task} {db db' : Db} {error : String} {now : Time} {m : InboxMessage} {s : Space}

theorem memory_still (spent : t.Spent db error now m) (memory : t.taskType = "memory") (member : s ∈ db.spaces)
    (house : s.id = m.spaceId) : staged {memory := true,success := false,error := some error} now m s = (m,s) := by
  obtain ⟨failed,completed⟩ := spent.failed memory
  have same : {m with memoryStatus := StageStatus.failed,memoryCompletedAt := some now} = m := by rw [← failed,← completed]
  simp [staged,endNote,endMemory,finalizeStages,Stages.stageStatus,same,spent.gap memory s member house]

theorem final_still (spent : t.Spent db error now m) (s : Space) :
    staged {finalize := true,success := false,error := some error} now m s = (m,s) := by
  simp [staged,endNote,endMemory,finalizeStages,spent.final]

theorem of_same (spent : t.Spent db error now m) (inbox : db'.inbox = db.inbox) (spaces : db'.spaces = db.spaces)
    (tasks : ∀ u ∈ db'.tasks, u ∈ db.tasks ∨ u.status ≠ .blocked) : t.Spent db' error now m where
  final := spent.final
  failed := spent.failed
  gap memory s member := spent.gap memory s (spaces ▸ member)
  marks s member house := by
    have stands := spent.marks s (spaces ▸ member) house
    rwa [Db.advancedSpace,Db.messages,inbox]
  calm s member house u inside := by
    rcases tasks u inside with before | other
    · exact spent.calm s (spaces ▸ member) house u before
    · exact Bool.eq_false_iff.mpr (fun chosen => other (Space.releases_blocked chosen).2)

end Task.Spent

theorem stage_still {db db' : Db} {inboxId : InboxId} {a : Stages} {uuid : TaskId → Nat} {now : Time}
    (still : ∀ m ∈ db.inbox, m.id = inboxId → ∀ s ∈ db.spaces, s.id = m.spaceId → staged a now m s = (m,s) ∧
      db.advancedSpace s = s ∧ ∀ u ∈ db.tasks, s.releases u = false)
    (ok : completeInboxStageInSession db inboxId a uuid now = some db') :
    db'.inbox = db.inbox ∧ db'.spaces = db.spaces ∧ db'.tasks = db.tasks := by
  obtain ⟨m,inside,same,s,member,house,advance⟩ := completeInboxStageInSession_spec ok
  obtain ⟨alone,stands,calm⟩ := still m inside same s member house
  rw [alone,Table.put_self inside,Table.put_self member] at advance
  obtain ⟨_,_,rfl⟩ := advanceWatermarksInSession_spec advance
  exact ⟨rfl,(congrArg db.spaces.put stands).trans (Table.put_self member),
    @Table.updateWhere_of_none _ _ _ _ _ _ Task.requeued_id (fun u there => (congrArg (Space.releases · u) stands).trans (calm u there))⟩

theorem mem_dependentsCancelled {db : Db} {t u : Task} {error : String} {delay : Int} {now : Time}
    (inside : u ∈ (dependentsCancelled (failedRow db t error delay now) t error now).tasks) :
    u ∈ db.tasks ∨ u.status ≠ .blocked := by
  have failed : ∀ u ∈ (failedRow db t error delay now).tasks, u ∈ db.tasks ∨ u.status ≠ .blocked := by
    intro u there
    rcases Table.mem_put.mp there with ⟨before,_⟩ | ⟨rfl,_⟩
    · exact .inl before
    · right
      simp only [Task.failed]
      split <;> simp
  unfold dependentsCancelled at inside
  split at inside
  · obtain ⟨old,there,rfl⟩ := List.mem_map.mp inside
    split
    · exact .inr (by simp [Task.cancelled])
    · exact failed old there
  · exact failed u inside

section Transactions
variable {P : Place → Prop} {db db' : Db} (housed : Housed db)
include housed

theorem Housed.space_of {s : Space} (member : s ∈ db.spaces) {t : Task} (inside : t ∈ db.tasks)
    (same : t.spaceId = s.id) : t.place = s.place := by
  obtain ⟨s',there,place⟩ := housed.tasks t inside
  have equal : s' = s := db.spaces.unique there member ((congrArg Prod.snd place).trans same)
  rw [← place,equal]

theorem Housed.space_of_message {s : Space} (member : s ∈ db.spaces) {m : InboxMessage} (inside : m ∈ db.inbox)
    (same : s.id = m.spaceId) : s.place = m.place := by
  obtain ⟨s',there,place⟩ := housed.messages m inside
  have equal : s' = s := db.spaces.unique there member ((congrArg Prod.snd place).trans same.symm)
  rw [← place,equal]

theorem within_advance {s : Space} {uuid : TaskId → Nat} {now : Time} (member : s ∈ db.spaces)
    (allowed : P s.place) (ok : advanceWatermarksInSession db s uuid now = some db') : Within P db db' := by
  obtain ⟨_,_,rfl⟩ := advanceWatermarksInSession_spec ok
  refine .of_writes (.inl rfl) (.inr ⟨s,member,db.advancedSpace s,allowed,rfl,rfl⟩)
    ⟨_,Task.requeued,?_,fun t => ⟨rfl,rfl⟩,rfl⟩
  intro t inside chosen
  rw [housed.space_of member inside (Space.releases_blocked chosen).1]
  exact allowed

theorem within_stage {inboxId : InboxId} {a : Stages} {uuid : TaskId → Nat} {now : Time}
    (allowed : ∀ m ∈ db.inbox, m.id = inboxId → P m.place)
    (ok : completeInboxStageInSession db inboxId a uuid now = some db') : Within P db db' := by
  obtain ⟨m,inside,same,s,member,house,advance⟩ := completeInboxStageInSession_spec ok
  have restaged := staged_restaged a now m s
  generalize staged a now m s = q at restaged advance
  obtain ⟨m',s'⟩ := q
  have here : s.place = m.place := housed.space_of_message member inside house
  have allowed : P m.place := allowed m inside same
  have allowed' : P s.place := by rwa [here]
  have first : Within P db {db with inbox := db.inbox.put m',spaces := db.spaces.put s'} := by
    refine .of_writes (.inr ⟨m,inside,m',allowed,restaged.id,restaged.place,rfl⟩)
      (.inr ⟨s,member,s',allowed',restaged.space_place,rfl⟩)
      ⟨fun _ => false,Task.requeued,fun t _ chosen => absurd chosen Bool.false_ne_true,fun t => ⟨rfl,rfl⟩,?_⟩
    simp
  refine first.trans (within_advance (first.housed housed) ?_ ?_ advance)
  · exact Table.mem_put.mpr (.inr ⟨rfl,s,member,restaged.space_id.symm⟩)
  · rw [restaged.space_place,here]
    exact allowed

theorem within_skip {inboxId : InboxId} {finalStatus : InboxStatus} {cancelRootTask : Bool}
    {uuid : TaskId → Nat} {now : Time} {found : Bool} (allowed : ∀ m ∈ db.inbox, m.id = inboxId → P m.place)
    (cancelled : cancelRootTask → ∀ m ∈ db.inbox, m.id = inboxId → ∀ t ∈ db.tasks,
      t.sourceMessageId = some m.sourceMessageId → t.waitingIngest → P t.place)
    (ok : skipInboxRecord db inboxId finalStatus cancelRootTask uuid now = some (db',found)) :
    Within P db db' := by
  rcases skipInboxRecord_spec ok with ⟨rfl,_⟩ | ⟨m,inside,same,s,member,house,advance⟩
  · exact .refl P _
  have here : s.place = m.place := housed.space_of_message member inside house
  have first : Within P db {db with
      inbox := db.inbox.put (m.skipped finalStatus now)
      tasks := if cancelRootTask then cancelRoot db.tasks m finalStatus now else db.tasks} := by
    refine .of_writes (.inr ⟨m,inside,m.skipped finalStatus now,allowed m inside same,rfl,rfl,rfl⟩) (.inl rfl)
      ⟨fun t => cancelRootTask && (t.sourceMessageId = some m.sourceMessageId && t.waitingIngest),
        (Task.cancelled · finalStatus.text now),?_,fun t => ⟨rfl,rfl⟩,?_⟩
    · intro t member' chosen
      simp only [Bool.and_eq_true,decide_eq_true_eq] at chosen
      exact cancelled chosen.1 m inside same t member' chosen.2.1 chosen.2.2
    · cases cancelRootTask
      · simp
      · rfl
  exact first.trans (within_advance (first.housed housed) member (here ▸ allowed m inside same) advance)

theorem within_activateTask {taskId : TaskId} {uuid : Nat} {now : Time}
    (allowed : ∀ t ∈ db.tasks, t.id = taskId → t.status = .blocked → P t.place)
    (ok : activateTaskInSession db taskId uuid now = some db') : Within P db db' := by
  obtain ⟨t,member,same,⟨_,rfl⟩ | ⟨blocked,_,_,rfl⟩⟩ := activateTaskInSession_spec ok
  · exact .refl P _
  · exact .of_put t.requeued member (allowed t member same blocked) rfl rfl rfl rfl rfl

theorem within_progress {seen : Db} {o : InboxOutcome} {now : Time} (allowed : ∀ m ∈ db.inbox, m.id = o.inboxId → P m.place)
    (ok : progressInbox seen db o now = some db') : Within P db db' := by
  rcases progressInbox_spec ok with ⟨_,rfl⟩ | ⟨m,inside,id,rest⟩
  · exact .refl P _
  have allowed : P m.place := allowed m inside id
  rcases rest with ⟨_,rfl⟩ | ⟨s₀,_,_,s,member,house,activate⟩
  · refine .of_writes (.inr ⟨m,inside,o.apply now m,allowed,rfl,rfl,rfl⟩) (.inl rfl)
      ⟨fun _ => false,Task.requeued,fun t _ chosen => absurd chosen Bool.false_ne_true,fun t => ⟨rfl,rfl⟩,?_⟩
    simp
  · have here : s.place = m.place := housed.space_of_message member inside house
    have allowed' : P s.place := by rwa [here]
    obtain ⟨_,hit,releases,rfl⟩ := activateInStatement_spec activate
    refine .of_writes (.inr ⟨m,inside,o.apply now m,allowed,rfl,rfl,rfl⟩)
      (.inr ⟨s,member,s.progressedTo seen s₀ o (o.apply now m),allowed',rfl,rfl⟩)
      ⟨hit,Task.requeued,?_,fun t => ⟨rfl,rfl⟩,rfl⟩
    intro t there chosen
    rw [releases,Bool.and_eq_true] at chosen
    rw [housed.space_of member there (Space.releasesInStatement_blocked chosen.2).1]
    exact allowed'

omit housed in
theorem within_completeRow {t : Task} (member : t ∈ db.tasks) (allowed : P t.place) (now : Time) :
    Within P db (completeRow db t now) :=
  .of_put (t.completed now) member allowed rfl rfl rfl rfl rfl

theorem within_complete {lease : Lease} {o : Outcomes} {uuid : Nat} {now : Time} {done : Bool}
    (allowed : ∀ t ∈ db.tasks, t.id = lease.taskId → P t.place)
    (activated : ∀ t ∈ db.tasks, t.ownedBy lease now → ∀ taskId, o.inbox = none → truthy o.activateTaskId = some taskId →
      ∀ u ∈ db.tasks, u.id = taskId → u.status = .blocked → P u.place)
    (ok : completeTask db db lease o uuid now = some (db',done)) : Within P db db' := by
  rcases completeTask_spec ok with ⟨_,rfl⟩ | ⟨_,t,member,owned,path⟩
  · exact .refl P _
  have mine : P t.place := allowed t member (Task.claimedBy?_spec (Task.ownedBy_claimed owned)).1
  have first : Within P db (completeRow db t now) := within_completeRow member mine now
  refine first.trans ?_
  rcases path with ⟨outcome,_,locked,inside,id,tenant,space,progress⟩ | ⟨_,_,rfl⟩ | ⟨taskId,none_,named,activate⟩
  · refine within_progress (first.housed housed) ?_ progress
    intro m there same
    have equal : m = locked := db.inbox.unique there inside (same.trans id.symm)
    have place : t.place = locked.place := by rw [Task.place,InboxMessage.place,tenant,space]
    rw [equal,← place]
    exact mine
  · exact .refl P _
  · refine within_activateTask (first.housed housed) ?_ activate
    intro u there same blocked
    rcases Table.mem_put.mp there with ⟨before,_⟩ | ⟨rfl,_⟩
    · exact activated t member owned taskId none_ named u before same blocked
    · cases blocked

theorem within_fail {lease : Lease} {error : String} {delay : Int} {uuid : TaskId → Nat} {now : Time}
    {reply : FailReply} (allowed : ∀ t ∈ db.tasks, t.id = lease.taskId → P t.place)
    (dependents : ∀ t ∈ db.tasks, t.ownedBy lease now → t.exhausted → (truthy t.payload.inboxId).isSome →
      ∀ u ∈ db.tasks, u.status = .blocked → u.payload.parentTaskId = some t.id → P u.place)
    (barrier : ∀ t ∈ db.tasks, t.ownedBy lease now → t.exhausted →
      ∀ m ∈ db.inbox, barrierInboxId t = some m.id → P m.place ∨ t.Spent db error now m)
    (ok : failTask db lease error delay uuid now = some (db',reply)) : Within P db db' := by
  rcases failTask_spec ok with ⟨_,rfl⟩ | ⟨t,member,owned,result⟩
  · exact .refl P _
  have id : t.id = lease.taskId := (Task.claimedBy?_spec (Task.ownedBy_claimed owned)).1
  have first : Within P db (failedRow db t error delay now) :=
    .of_put (t.failed error (retryTime delay now) now) member (allowed t member id) rfl rfl rfl rfl rfl
  rcases result with ⟨_,_,rfl⟩ | ⟨_,exhausted,dead⟩
  · exact first
  have second : Within P (failedRow db t error delay now)
      (dependentsCancelled (failedRow db t error delay now) t error now) := by
    unfold dependentsCancelled
    split
    · rename_i stands
      refine .of_writes (.inl rfl) (.inl rfl)
        ⟨_,(Task.cancelled · (firstChars 2000 ("parent task failed: " ++ error)) now),?_,fun t => ⟨rfl,rfl⟩,rfl⟩
      intro u there chosen
      simp only [Bool.and_eq_true,decide_eq_true_eq] at chosen
      rcases Table.mem_put.mp there with ⟨before,_⟩ | ⟨rfl,_⟩
      · exact dependents t member owned exhausted stands u before chosen.1 chosen.2
      · exact allowed t member id
    · exact .refl P _
  have inbox : (dependentsCancelled (failedRow db t error delay now) t error now).inbox = db.inbox := by
    unfold dependentsCancelled
    split <;> rfl
  have spaces : (dependentsCancelled (failedRow db t error delay now) t error now).spaces = db.spaces := by
    unfold dependentsCancelled
    split <;> rfl
  have upTo := first.trans second
  have tasks := fun u => @mem_dependentsCancelled db t u error delay now
  rcases deadLettered_spec dead with ⟨_,rfl⟩ | ⟨inboxId,named,db₁,before,after⟩
  · exact upTo
  generalize dependentsCancelled (failedRow db t error delay now) t error now = db₀ at upTo inbox spaces tasks before
  have there : ∃ m ∈ db.inbox, m.id = inboxId := by
    rcases before with ⟨_,rfl⟩ | ⟨_,memory⟩
    · obtain ⟨m,inside,same,_⟩ := completeInboxStageInSession_spec after
      exact ⟨m,inbox ▸ inside,same⟩
    · obtain ⟨m,inside,same,_⟩ := completeInboxStageInSession_spec memory
      exact ⟨m,inbox ▸ inside,same⟩
  obtain ⟨m,inside,rfl⟩ := there
  rcases barrier t member owned exhausted m inside named with here | spent
  · have here : ∀ n ∈ db₀.inbox, n.id = m.id → P n.place := fun n there same =>
      db.inbox.unique (inbox ▸ there) inside same ▸ here
    have third : Within P db db₁ ∧ ∀ n ∈ db₁.inbox, n.id = m.id → P n.place := by
      rcases before with ⟨_,rfl⟩ | ⟨_,memory⟩
      · exact ⟨upTo,here⟩
      · have stage := within_stage (upTo.housed housed) here memory
        refine ⟨upTo.trans stage,fun n there same => ?_⟩
        rcases (upTo.trans stage).inbox.origin n there with ⟨n₀,before,sameId,place,_⟩ | ⟨allowed,_⟩
        · rw [place]
          exact here n₀ (inbox ▸ before) (sameId.symm.trans same)
        · exact allowed
    exact third.1.trans (within_stage (third.1.housed housed) third.2 after)
  · have spent₀ := spent.of_same inbox spaces tasks
    have third : db₁.inbox = db₀.inbox ∧ db₁.spaces = db₀.spaces ∧ db₁.tasks = db₀.tasks := by
      rcases before with ⟨_,rfl⟩ | ⟨kind,memory⟩
      · exact ⟨rfl,rfl,rfl⟩
      · refine stage_still (fun n there same s space house => ?_) memory
        obtain rfl := db₀.inbox.unique there (inbox ▸ inside) same
        exact ⟨spent₀.memory_still kind space house,spent₀.marks s space house,spent₀.calm s space house⟩
    have spent₁ := spent₀.of_same third.1 third.2.1 (fun u there => .inl (third.2.2 ▸ there))
    have fourth := stage_still (fun n there same s space house => by
      obtain rfl := db₁.inbox.unique there (third.1 ▸ inbox ▸ inside) same
      exact ⟨spent₁.final_still s,spent₁.marks s space house,spent₁.calm s space house⟩) after
    exact upTo.of_same (fourth.1.trans third.1) (fourth.2.1.trans third.2.1) (fourth.2.2.trans third.2.2)

end Transactions

section Intake
variable {P : Place → Prop} {db db' : Db}

theorem within_ensure {host : Host} {sourceSpaceId tenantId source : String} {spaceId : SpaceId}
    (allowed : P (tenantId,spaceId))
    (ok : ensureTenantSpace host db sourceSpaceId tenantId source = some (db',spaceId)) :
    Within P db db' ∧ ∃ s ∈ db'.spaces, s.place = (tenantId,spaceId) := by
  obtain ⟨new,ensured,written⟩ := ensureTenantSpace_spec ok
  obtain ⟨s,member,id,tenant⟩ := ensured.housed written
  refine ⟨?_,s,member,by rw [Space.place,id,tenant]⟩
  rcases withSpace_spec written with ⟨_,rfl⟩ | ⟨s,spaces,rfl,inserted,rfl⟩
  · exact .refl P _
  · obtain ⟨rfl,_,_⟩ := ensured
    exact ⟨.insert inserted (fun _ _ => ⟨rfl,.inl rfl⟩) allowed,.refl (fun _ _ => ⟨rfl,.inl rfl⟩),
      .refl (fun _ _ => ⟨rfl,.inl rfl⟩)⟩

theorem within_insertMessage {m : InboxMessage} (allowed : P m.place) (there : ∃ s ∈ db.spaces, s.place = m.place)
    (ok : db.insertMessage m = some db') : Within P db db' := by
  obtain ⟨_,inbox,inserted,rfl⟩ := insertMessage_spec ok
  exact ⟨.refl (fun _ _ => ⟨rfl,.inl rfl⟩),.insert inserted (fun _ _ => ⟨rfl,.inl rfl⟩) ⟨allowed,there⟩,
    .refl (fun _ _ => ⟨rfl,.inl rfl⟩)⟩

theorem within_enqueueInSession {new : NewTask} {taskId id : TaskId} {uuid : Nat} {now : Time} {created : Bool}
    (allowed : P (new.tenantId,new.spaceId)) (there : ∃ s ∈ db.spaces, s.place = (new.tenantId,new.spaceId))
    (ok : enqueueTaskInSession db new taskId uuid now = some (db',id,created)) : Within P db db' := by
  rcases enqueueTaskInSession_spec ok with ⟨_,rfl,_⟩ | ⟨_,_,_,_,_,_,inserted,_,rfl⟩
  · exact .refl P _
  · exact ⟨.refl (fun _ _ => ⟨rfl,.inl rfl⟩),.refl (fun _ _ => ⟨rfl,.inl rfl⟩),
      .insert inserted (fun _ _ => ⟨rfl,.inl rfl⟩) ⟨allowed,there⟩⟩

theorem within_receive (housed : Housed db) {host : Host} {c : Command} {draws : Draws} {now : Time}
    {result : DispatchResult}
    (allowed : ∀ db₁ spaceId, ensureTenantSpace host db c.spaceId c.tenant c.source = some (db₁,spaceId) →
      P (c.tenant,spaceId))
    (ok : receiveCommand host db c draws now = some (db',result)) : Within P db db' := by
  obtain ⟨db₁,spaceId,ensured,received⟩ := receiveCommand_spec ok
  have allowed := allowed db₁ spaceId ensured
  obtain ⟨first,there⟩ := within_ensure allowed ensured
  refine first.trans ?_
  rcases receiveInSpace_spec received with ⟨rfl,_⟩ | ⟨_,m,db₂,rfl,message,rest⟩
  · exact .refl P _
  have second := within_insertMessage allowed there message
  obtain ⟨s,member,house,db₃,_,_,enqueued,_,last⟩ := receiveMessage_spec rest
  have third := within_enqueueInSession allowed (second.space there) enqueued
  refine second.trans (third.trans ?_)
  rcases last with ⟨_,rfl⟩ | ⟨_,advance⟩
  · exact .refl P _
  have spaces : db₃.spaces = db₂.spaces := by
    rcases enqueueTaskInSession_spec enqueued with ⟨_,rfl,_⟩ | ⟨_,_,_,_,_,_,_,_,rfl⟩ <;> rfl
  have place : s.place = (c.tenant,spaceId) := by
    obtain ⟨s',inside,same⟩ := second.space there
    rw [← same,db₂.spaces.unique inside member ((congrArg Prod.snd same).trans house.symm)]
  have housed₃ := third.housed (second.housed (first.housed housed))
  exact within_advance housed₃ (spaces ▸ member) (place ▸ allowed) advance

theorem within_enqueueTask {host : Host} {new : NewTask} {taskId id : TaskId} {uuid : Nat} {now : Time}
    {created : Bool}
    (allowed : ∀ db₁ spaceId, ensureTenantSpace host db new.spaceId new.tenantId "feishu" = some (db₁,spaceId) →
      P (new.tenantId,spaceId))
    (ok : enqueueTask host db new taskId uuid now = some (db',id,created)) : Within P db db' := by
  obtain ⟨db₁,spaceId,ensured,enqueued⟩ := enqueueTask_spec ok
  obtain ⟨first,there⟩ := within_ensure (allowed db₁ spaceId ensured) ensured
  exact first.trans (within_enqueueInSession (allowed db₁ spaceId ensured) there enqueued)

end Intake

/-! ### All steps -/

/-- `P` covers every place the operation may write. -/
def Covered (host : Host) (P : Place → Prop) (db : Db) (now : Time) : Op → Prop
  | .receiveCommand c _ => ∀ db₁ spaceId,
      ensureTenantSpace host db c.spaceId c.tenant c.source = some (db₁,spaceId) → P (c.tenant,spaceId)
  | .enqueueTask new _ _ => ∀ db₁ spaceId,
      ensureTenantSpace host db new.spaceId new.tenantId "feishu" = some (db₁,spaceId) → P (new.tenantId,spaceId)
  | .claimTask taskId .. => ∀ t ∈ db.tasks, t.id = taskId → P t.place
  | .renewTaskLease lease _ | .deferTask lease .. => ∀ t ∈ db.tasks, t.id = lease.taskId → P t.place
  | .completeTask lease o _ => (∀ t ∈ db.tasks, t.id = lease.taskId → P t.place) ∧
      (o.count ≤ 1 → ∀ t ∈ db.tasks, t.ownedBy lease now → ∀ taskId, o.inbox = none →
        truthy o.activateTaskId = some taskId → ∀ u ∈ db.tasks, u.id = taskId → u.status = .blocked → P u.place)
  | .failTask lease error _ _ => (∀ t ∈ db.tasks, t.id = lease.taskId → P t.place) ∧
      ∀ t ∈ db.tasks, t.ownedBy lease now → t.exhausted →
        ((truthy t.payload.inboxId).isSome → ∀ u ∈ db.tasks, u.status = .blocked →
          u.payload.parentTaskId = some t.id → P u.place) ∧
        ∀ m ∈ db.inbox, barrierInboxId t = some m.id → P m.place ∨ t.Spent db error now m
  | .enqueueDueRetries .. => ∀ t ∈ db.tasks, t.status = .retry → P t.place
  | .skipInboxRecord inboxId _ cancelRootTask _ => ∀ m ∈ db.inbox, m.id = inboxId → P m.place ∧
      (cancelRootTask → ∀ t ∈ db.tasks, t.sourceMessageId = some m.sourceMessageId → t.waitingIngest → P t.place)
  | .markInboxProcessed inboxId _ | .markInboxFailed inboxId .. => ∀ m ∈ db.inbox, m.id = inboxId → P m.place

theorem within_step {host : Host} {P : Place → Prop} {db db' : Db} {call : Call} (housed : Housed db)
    (covered : Covered host P db call.now call.op) (step : Step host db call db') : Within P db db' := by
  obtain ⟨op,now,reply⟩ := call
  rcases outcome_cases step with ok | ⟨_,rfl,_⟩
  swap
  · exact .refl P _
  cases op <;> simp only [perform,Option.map_eq_some_iff,Option.some.injEq,Prod.map,Prod.mk.injEq,
    Prod.exists,id_eq] at ok
  case receiveCommand =>
    obtain ⟨_,_,ok,rfl,_⟩ := ok
    exact within_receive housed covered ok
  case enqueueTask =>
    obtain ⟨_,_,_,ok,rfl,_⟩ := ok
    exact within_enqueueTask covered ok
  case claimTask =>
    obtain ⟨_,row,ok,rfl,_⟩ := ok
    rcases claimTask_spec ok with ⟨_,rfl⟩ | ⟨t,member,same,_,_,_,_,rfl⟩
    · exact .refl P _
    · exact .of_put (t.claimed _ _ _ _) member (covered t member same) rfl rfl rfl rfl rfl
  case renewTaskLease lease leaseSeconds =>
    generalize renewed : renewTaskLease db lease leaseSeconds now = r at ok
    obtain ⟨_,done⟩ := r
    obtain ⟨rfl,_⟩ := ok
    rcases renewTaskLease_spec renewed with ⟨_,rfl⟩ | ⟨_,t,member,claimed,expires,rfl⟩
    · exact .refl P _
    · exact .of_put {t with leaseExpiresAt := some expires} member
        (covered t member (Task.claimedBy?_spec claimed).1) rfl rfl rfl rfl rfl
  case completeTask =>
    obtain ⟨_,_,ok,rfl,_⟩ := ok
    exact within_complete housed covered.1 (covered.2 (completeTask_count ok)) ok
  case failTask =>
    obtain ⟨_,_,ok,rfl,_⟩ := ok
    exact within_fail housed covered.1 (fun t member owned exhausted => (covered.2 t member owned exhausted).1)
      (fun t member owned exhausted => (covered.2 t member owned exhausted).2) ok
  case deferTask lease reason delay =>
    generalize deferred : deferTask db lease reason delay now = r at ok
    obtain ⟨_,done⟩ := r
    obtain ⟨rfl,_⟩ := ok
    rcases deferTask_spec deferred with ⟨_,rfl⟩ | ⟨_,t,member,owned,_,rfl⟩
    · exact .refl P _
    · exact .of_put (t.deferred reason (retryTime delay now)) member
        (covered t member (Task.claimedBy?_spec (Task.ownedBy_claimed owned)).1) rfl rfl rfl rfl rfl
  case enqueueDueRetries =>
    obtain ⟨_,_,ok,rfl,_⟩ := ok
    obtain ⟨_,_,rfl⟩ := enqueueDueRetries_spec ok
    refine .of_writes (.inl rfl) (.inl rfl) ⟨_,Task.requeued,?_,fun t => ⟨rfl,rfl⟩,rfl⟩
    intro t member chosen
    exact covered t member (mem_dueRetries (of_decide_eq_true chosen)).2
  case skipInboxRecord =>
    obtain ⟨_,_,ok,rfl,_⟩ := ok
    exact within_skip housed (fun m member same => (covered m member same).1)
      (fun cancel m member same => (covered m member same).2 cancel) ok
  case markInboxProcessed =>
    obtain ⟨_,ok,rfl,_⟩ := ok
    exact within_stage housed covered ok
  case markInboxFailed =>
    obtain ⟨_,ok,rfl,_⟩ := ok
    exact within_stage housed covered ok

theorem covered_all (host : Host) (db : Db) (now : Time) (op : Op) : Covered host (fun _ => True) db now op := by
  cases op <;> simp [Covered]

theorem housed_run {host : Host} {start db : Db} {calls : List Call} (housed : Housed start)
    (run : Run (Step host) start calls db) : Housed db :=
  run.invariant Housed (fun db call _ housed step =>
    (within_step housed (covered_all host db call.now call.op) step).housed housed) housed

end Suixinji.Dispatch
