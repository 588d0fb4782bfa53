import Suixinji.Dispatch.Marks
import Suixinji.Dispatch.Places

/-! Space isolation: a call on one tenant and space leaves the rows of all others. -/
namespace Suixinji.Dispatch
open Suixinji.Relational Suixinji.Transition

/-- The operation acts on a message or task of the place. -/
def Acts (host : Host) (db : Db) (place : Place) : Op → Prop
  | .receiveCommand c _ => c.tenant = place.1 ∧
      ∃ db₁, ensureTenantSpace host db c.spaceId c.tenant c.source = some (db₁,place.2)
  | .completeTask lease .. | .failTask lease .. => ∃ t ∈ db.tasks, t.id = lease.taskId ∧ t.place = place
  | .skipInboxRecord inboxId .. | .markInboxFailed inboxId .. => ∃ m ∈ db.inbox, m.id = inboxId ∧ m.place = place
  | _ => False

/-- The rows an operation selects without looking at their tenant and space are in
the place it acts on, or there is nothing left to change in them. -/
def Local (db : Db) (place : Place) (now : Time) : Op → Prop
  | .completeTask lease o _ => o.count ≤ 1 → ∀ t ∈ db.tasks, t.ownedBy lease now → ∀ taskId, o.inbox = none →
      truthy o.activateTaskId = some taskId → ∀ u ∈ db.tasks, u.id = taskId → u.status = .blocked → u.place = place
  | .failTask lease error _ _ => ∀ t ∈ db.tasks, t.ownedBy lease now → t.exhausted →
      ((truthy t.payload.inboxId).isSome → ∀ u ∈ db.tasks, u.status = .blocked →
        u.payload.parentTaskId = some t.id → u.place = place) ∧
      ∀ m ∈ db.inbox, barrierInboxId t = some m.id → m.place = place ∨ t.Spent db error now m
  | .skipInboxRecord inboxId _ cancelRootTask _ => cancelRootTask → ∀ m ∈ db.inbox, m.id = inboxId →
      ∀ t ∈ db.tasks, t.sourceMessageId = some m.sourceMessageId → t.waitingIngest → t.place = place
  | _ => True

/-- The rows outside the place are the same before and after. -/
structure Isolated (place : Place) (db db' : Db) : Prop where
  tasks : ∀ t : Task, t.place ≠ place → (t ∈ db'.tasks ↔ t ∈ db.tasks)
  inbox : ∀ m : InboxMessage, m.place ≠ place → (m ∈ db'.inbox ↔ m ∈ db.inbox)
  spaces : ∀ s : Space, s.place ≠ place → (s ∈ db'.spaces ↔ s ∈ db.spaces)

theorem unchanged_outside {ρ κ : Type} {key : ρ → κ} {where_ : ρ → Place} {place : Place} {N : ρ → Prop}
    {t u : Table key} (evolves : Table.Evolves (fun r s => where_ s = where_ r ∧ (s = r ∨ where_ r = place)) N t u)
    (new : ∀ r, N r → where_ r = place) {r : ρ} (outside : where_ r ≠ place) : r ∈ u ↔ r ∈ t := by
  constructor
  · intro member
    rcases evolves.origin r member with ⟨s,before,_,same,rfl | here⟩ | fresh
    · exact before
    · exact absurd (same.trans here) outside
    · exact absurd (new r fresh) outside
  · intro member
    obtain ⟨s,inside,_,_,rfl | here⟩ := evolves.kept r member
    · exact inside
    · exact absurd here outside

theorem Within.isolated {place : Place} {db db' : Db} (within : Within (· = place) db db') :
    Isolated place db db' where
  tasks _ outside := unchanged_outside within.tasks (fun _ new => new.1) outside
  inbox _ outside := unchanged_outside within.inbox (fun _ new => new.1) outside
  spaces _ outside := unchanged_outside within.spaces (fun _ new => new) outside

theorem covered_of_acts {host : Host} {db : Db} {place : Place} {now : Time} {op : Op} (acts : Acts host db place op)
    (local_ : Local db place now op) : Covered host (· = place) db now op := by
  have row : ∀ {id : TaskId}, (∃ t ∈ db.tasks, t.id = id ∧ t.place = place) →
      ∀ t ∈ db.tasks, t.id = id → t.place = place := by
    rintro id ⟨t,member,same,here⟩ u inside same'
    rw [db.tasks.unique inside member (same'.trans same.symm)]
    exact here
  have message : ∀ {id : InboxId}, (∃ m ∈ db.inbox, m.id = id ∧ m.place = place) →
      ∀ m ∈ db.inbox, m.id = id → m.place = place := by
    rintro id ⟨m,member,same,here⟩ n inside same'
    rw [db.inbox.unique inside member (same'.trans same.symm)]
    exact here
  cases op <;> simp only [Acts] at acts
  case receiveCommand c draws =>
    obtain ⟨tenant,db₁,ensured⟩ := acts
    intro db₂ spaceId again
    have same : spaceId = place.2 := congrArg Prod.snd (Option.some.inj (again.symm.trans ensured))
    rw [same,tenant]
  case completeTask => exact ⟨row acts,local_⟩
  case failTask => exact ⟨row acts,local_⟩
  case skipInboxRecord =>
    exact fun m member same => ⟨message acts m member same,fun cancel => local_ cancel m member same⟩
  case markInboxFailed => exact message acts

section Elsewhere
variable {host : Host} {db db' : Db} {place : Place} {t u : Task} {m : InboxMessage} {s : Space}

theorem Isolated.task (isolated : Isolated place db db') (member : u ∈ db.tasks) (outside : u.place ≠ place)
    (inside : t ∈ db'.tasks) (same : t.id = u.id) : t = u :=
  db'.tasks.unique inside ((isolated.tasks u outside).mpr member) same

theorem Isolated.message {n : InboxMessage} (isolated : Isolated place db db') (member : m ∈ db.inbox)
    (outside : m.place ≠ place) (inside : n ∈ db'.inbox) (same : n.id = m.id) : n = m :=
  db'.inbox.unique inside ((isolated.inbox m outside).mpr member) same

theorem Isolated.space {r : Space} (isolated : Isolated place db db') (member : s ∈ db.spaces)
    (outside : s.place ≠ place) (inside : r ∈ db'.spaces) (same : r.id = s.id) : r = s :=
  db'.spaces.unique inside ((isolated.spaces s outside).mpr member) same

theorem advance_keeps {uuid : TaskId → Nat} {now : Time} (ok : advanceWatermarksInSession db s uuid now = some db')
    (inside : u ∈ db.tasks) (other : u.status ≠ .blocked) : u ∈ db'.tasks := by
  obtain ⟨_,_,rfl⟩ := advanceWatermarksInSession_spec ok
  refine List.mem_map.mpr ⟨u,inside,if_neg (fun chosen => other (Space.releases_blocked chosen).2)⟩

theorem advance_releases {uuid : TaskId → Nat} {now : Time} (ok : advanceWatermarksInSession db s uuid now = some db')
    (inside : u ∈ db.tasks) (chosen : (db.advancedSpace s).releases u) : u.requeued ∈ db'.tasks := by
  obtain ⟨_,_,rfl⟩ := advanceWatermarksInSession_spec ok
  exact List.mem_map.mpr ⟨u,inside,if_pos chosen⟩

theorem stage_keeps {inboxId : InboxId} {a : Stages} {uuid : TaskId → Nat} {now : Time}
    (ok : completeInboxStageInSession db inboxId a uuid now = some db') (inside : u ∈ db.tasks)
    (other : u.status ≠ .blocked) : u ∈ db'.tasks := by
  obtain ⟨m,_,_,s,_,_,advance⟩ := completeInboxStageInSession_spec ok
  exact advance_keeps (u := u) advance inside other

theorem stage_leaves {a : Stages} {uuid : TaskId → Nat} {now : Time} (member : m ∈ db.inbox) (inside : s ∈ db.spaces)
    (house : s.id = m.spaceId) (ok : completeInboxStageInSession db m.id a uuid now = some db') :
    (staged a now m s).1 ∈ db'.inbox ∧
      Db.advancedSpace {db with inbox := db.inbox.put (staged a now m s).1} (staged a now m s).2 ∈ db'.spaces ∧
      ∀ u ∈ db.tasks, (Db.advancedSpace {db with inbox := db.inbox.put (staged a now m s).1} (staged a now m s).2).releases u →
        u.requeued ∈ db'.tasks := by
  obtain ⟨n,there,same,r,known,housed,advance⟩ := completeInboxStageInSession_spec ok
  obtain rfl := db.inbox.unique there member same
  obtain rfl := db.spaces.unique known inside (housed.trans house.symm)
  have restaged := staged_restaged a now n r
  refine ⟨?_,?_,fun u blocked chosen => advance_releases (u := u) advance blocked chosen⟩
  all_goals obtain ⟨_,_,rfl⟩ := advanceWatermarksInSession_spec advance
  · exact Table.mem_put.mpr (.inr ⟨rfl,n,there,restaged.id.symm⟩)
  · refine Table.mem_put.mpr (.inr ⟨rfl,_,Table.mem_put.mpr (.inr ⟨rfl,r,known,restaged.space_id.symm⟩),rfl⟩)

theorem ownedRunningTask_of {lease : Lease} {now : Time} (member : t ∈ db.tasks) (owned : t.ownedBy lease now) :
    ownedRunningTask db lease now = some t :=
  Option.filter_eq_some_iff.mpr
    ⟨Table.find?_eq_some.mpr ⟨member,(Task.claimedBy?_spec (Task.ownedBy_claimed owned)).1⟩,owned⟩

theorem ne_of_blocked {lease : Lease} {now : Time} (owned : t.ownedBy lease now) (blocked : u.status = .blocked)
    (member : t ∈ db.tasks) (inside : u ∈ db.tasks) : u.id ≠ t.id := by
  intro same
  rw [db.tasks.unique inside member same,(Task.claimedBy?_spec (Task.ownedBy_claimed owned)).2.1] at blocked
  cases blocked

theorem local_complete {lease : Lease} {o : Outcomes} {uuid : Nat} {now : Time} {done : Bool}
    (ok : completeTask db db lease o uuid now = some (db',done)) (isolated : Isolated place db db') :
    Local db place now (.completeTask lease o uuid) := by
  intro single t member owned taskId none_ named u inside same blocked
  by_contra outside
  simp only [completeTask,if_neg (Nat.not_lt.mpr single),none_,ownedRunningTask_of member owned,named,
    Option.map_eq_some_iff,Prod.mk.injEq] at ok
  obtain ⟨_,activate,rfl,_⟩ := ok
  have there : u ∈ (completeRow db t now).tasks :=
    Table.mem_put.mpr (.inl ⟨inside,ne_of_blocked (t := t) owned blocked member inside⟩)
  obtain ⟨v,known,id,⟨other,_⟩ | ⟨_,_,_,rfl⟩⟩ := activateTaskInSession_spec activate
  all_goals obtain rfl := (completeRow db t now).tasks.unique known there (id.trans same.symm)
  · exact other blocked
  · have left : v.requeued = v :=
      isolated.task inside outside (Table.mem_put.mpr (.inr ⟨rfl,v,there,rfl⟩)) rfl
    rw [← left] at blocked
    cases blocked

theorem local_skip {inboxId : InboxId} {finalStatus : InboxStatus} {cancelRootTask : Bool} {uuid : TaskId → Nat}
    {now : Time} {found : Bool} (ok : skipInboxRecord db inboxId finalStatus cancelRootTask uuid now = some (db',found))
    (isolated : Isolated place db db') : Local db place now (.skipInboxRecord inboxId finalStatus cancelRootTask uuid) := by
  intro cancel m member same t inside source waiting
  by_contra outside
  rcases skipInboxRecord_spec ok with ⟨_,rfl⟩ | ⟨n,there,named,s,_,_,advance⟩
  · have present : db.inbox.find? inboxId = some m := Table.find?_eq_some.mpr ⟨member,same⟩
    simp [skipInboxRecord,present,Option.bind_eq_some_iff] at ok
  obtain rfl := db.inbox.unique there member (named.trans same.symm)
  have cancelled : t.cancelled finalStatus.text now ∈ db'.tasks := by
    refine advance_keeps advance ?_ (by simp [Task.cancelled])
    rw [if_pos cancel]
    exact List.mem_map.mpr ⟨t,inside,if_pos (by simp [source,waiting])⟩
  have left := isolated.task inside outside cancelled rfl
  rw [← left] at waiting
  simp [Task.waitingIngest,Task.cancelled] at waiting

theorem failTask_last {lease : Lease} {error : String} {delay : Int} {uuid : TaskId → Nat} {now : Time} {reply : FailReply}
    (ok : failTask db lease error delay uuid now = some (db',reply)) (member : t ∈ db.tasks) (owned : t.ownedBy lease now)
    (exhausted : t.exhausted) : deadLettered (failedRow db t error delay now) t error uuid now = some db' := by
  simp only [failTask,ownedRunningTask_of member owned,exhausted,if_true,Option.map_eq_some_iff,Prod.mk.injEq] at ok
  obtain ⟨_,dead,rfl,_⟩ := ok
  rw [failedRow,exhausted]
  exact dead

theorem mem_failedRow {lease : Lease} {error : String} {delay : Int} {now : Time} (member : t ∈ db.tasks)
    (owned : t.ownedBy lease now) (inside : u ∈ db.tasks) (blocked : u.status = .blocked) :
    u ∈ (failedRow db t error delay now).tasks :=
  Table.mem_put.mpr (.inl ⟨inside,ne_of_blocked (t := t) owned blocked member inside⟩)

theorem local_dependents {lease : Lease} {error : String} {delay : Int} {uuid : TaskId → Nat} {now : Time}
    (dead : deadLettered (failedRow db t error delay now) t error uuid now = some db') (isolated : Isolated place db db')
    (member : t ∈ db.tasks) (owned : t.ownedBy lease now) (stands : (truthy t.payload.inboxId).isSome)
    (inside : u ∈ db.tasks) (blocked : u.status = .blocked) (parent : u.payload.parentTaskId = some t.id) :
    u.place = place := by
  by_contra outside
  have cancelled : u.cancelled (firstChars 2000 ("parent task failed: " ++ error)) now ∈
      (dependentsCancelled (failedRow db t error delay now) t error now).tasks := by
    rw [dependentsCancelled,if_pos stands]
    exact List.mem_map.mpr ⟨u,mem_failedRow member owned inside blocked,if_pos (by simp [blocked,parent])⟩
  have stays : u.cancelled (firstChars 2000 ("parent task failed: " ++ error)) now ∈ db'.tasks := by
    have other : (u.cancelled (firstChars 2000 ("parent task failed: " ++ error)) now).status ≠ .blocked := by
      simp [Task.cancelled]
    rcases deadLettered_spec dead with ⟨_,rfl⟩ | ⟨_,_,db₁,⟨_,rfl⟩ | ⟨_,memory⟩,after⟩
    · exact cancelled
    · exact stage_keeps after cancelled other
    · exact stage_keeps after (stage_keeps memory cancelled other) other
  have left := isolated.task inside outside stays rfl
  rw [← left] at blocked
  cases blocked

theorem mem_dependentsCancelled_of_blocked {lease : Lease} {error : String} {delay : Int} {now : Time}
    (member : t ∈ db.tasks) (owned : t.ownedBy lease now) (inside : u ∈ db.tasks) (blocked : u.status = .blocked)
    (apart : (truthy t.payload.inboxId).isSome → u.payload.parentTaskId ≠ some t.id) :
    u ∈ (dependentsCancelled (failedRow db t error delay now) t error now).tasks := by
  have there : u ∈ (failedRow db t error delay now).tasks := mem_failedRow member owned inside blocked
  unfold dependentsCancelled
  split
  · rename_i stands
    exact List.mem_map.mpr ⟨u,there,if_neg (by simp [apart stands])⟩
  · exact there

theorem withMemoryGap_of {gap : Gap} (sequence : s.memoryGapSequenceNo = some gap.sequenceNo)
    (last : s.lastMemoryGap = some gap) : s.withMemoryGap gap = s := by
  rw [Space.withMemoryGap,← sequence,← last]

theorem staged_memory (error : String) (now : Time) (m : InboxMessage) (s : Space) :
    staged {memory := true,success := false,error := some error} now m s =
      ({m with memoryStatus := .failed,memoryCompletedAt := some now},
        s.withMemoryGap (Stages.memoryGap {memory := true,success := false,error := some error} m)) := by
  simp [staged,endNote,endMemory,finalizeStages,Stages.stageStatus]

theorem staged_final {error : String} {now : Time} {n : InboxMessage}
    (same : (staged {finalize := true,success := false,error := some error} now n s).1.status = m.status) (known : n.status = m.status) :
    m.status.finalized ∧ staged {finalize := true,success := false,error := some error} now n s = (n,s) := by
  cases final : m.status.finalized with
  | true => exact ⟨rfl,by simp [staged,endNote,endMemory,finalizeStages,known,final]⟩
  | false =>
    exfalso
    have unended : n.status.finalized = false := known ▸ final
    have failed : (staged {finalize := true,success := false,error := some error} now n s).1.status = .failed := by
      simp [staged,endNote,endMemory,finalizeStages,unended]
      split <;> split <;> rfl
    rw [← same,failed] at final
    cases final

theorem advancedSpace_stays {db₁ : Db} (back : db₁.advancedSpace (db.advancedSpace s) = s) : db.advancedSpace s = s := by
  have note := le_advanced (db.messages s.id) InboxMessage.noteStatus s.noteWatermark
  have memory := le_advanced (db.messages s.id) InboxMessage.memoryStatus s.memoryWatermark
  have note' := le_advanced (db₁.messages s.id) InboxMessage.noteStatus (db.advancedSpace s).noteWatermark
  have memory' := le_advanced (db₁.messages s.id) InboxMessage.memoryStatus (db.advancedSpace s).memoryWatermark
  have noteBack : advanced (db₁.messages s.id) InboxMessage.noteStatus (db.advancedSpace s).noteWatermark = s.noteWatermark :=
    congrArg Space.noteWatermark back
  have memoryBack : advanced (db₁.messages s.id) InboxMessage.memoryStatus (db.advancedSpace s).memoryWatermark =
      s.memoryWatermark := congrArg Space.memoryWatermark back
  rw [noteBack] at note'
  rw [memoryBack] at memory'
  have first : (db.advancedSpace s).noteWatermark = s.noteWatermark := le_antisymm note' note
  have second : (db.advancedSpace s).memoryWatermark = s.memoryWatermark := le_antisymm memory' memory
  calc db.advancedSpace s = {s with
        noteWatermark := (db.advancedSpace s).noteWatermark,memoryWatermark := (db.advancedSpace s).memoryWatermark} := rfl
    _ = s := by rw [first,second]

theorem spent_of_isolated {lease : Lease} {error : String} {delay : Int} {uuid : TaskId → Nat} {now : Time}
    (dead : deadLettered (failedRow db t error delay now) t error uuid now = some db') (isolated : Isolated place db db')
    (housed : Housed db) (member : t ∈ db.tasks) (owned : t.ownedBy lease now) (inside : m ∈ db.inbox)
    (named : barrierInboxId t = some m.id) (outside : m.place ≠ place) : t.Spent db error now m := by
  have dependents := fun u stands => local_dependents (u := u) dead isolated member owned stands
  obtain ⟨s,known,here⟩ := housed.messages m inside
  have house : s.id = m.spaceId := congrArg Prod.snd here
  have apart : s.place ≠ place := here ▸ outside
  have single : ∀ r ∈ db.spaces, r.id = m.spaceId → r = s := fun r there same =>
    db.spaces.unique there known (same.trans house.symm)
  -- a blocked task of the space is still there, and stays blocked
  have blocked_there : ∀ u ∈ db.tasks, s.releases u → u.status = .blocked ∧ u.place ≠ place ∧
      u ∈ (dependentsCancelled (failedRow db t error delay now) t error now).tasks := by
    intro u there chosen
    obtain ⟨same,blocked⟩ := Space.releases_blocked chosen
    have elsewhere : u.place ≠ place := housed.space_of known there same ▸ apart
    exact ⟨blocked,elsewhere,mem_dependentsCancelled_of_blocked member owned there blocked
      (fun stands parent => elsewhere (dependents u stands there blocked parent))⟩
  have inbox : (dependentsCancelled (failedRow db t error delay now) t error now).inbox = db.inbox := by
    unfold dependentsCancelled
    split <;> rfl
  have spaces : (dependentsCancelled (failedRow db t error delay now) t error now).spaces = db.spaces := by
    unfold dependentsCancelled
    split <;> rfl
  have calm_of : (∀ u ∈ db.tasks, s.releases u → u.requeued ∈ db'.tasks) → ∀ u ∈ db.tasks, s.releases u = false := by
    intro released u there
    refine Bool.eq_false_iff.mpr (fun chosen => ?_)
    obtain ⟨blocked,elsewhere,_⟩ := blocked_there u there chosen
    have left := isolated.task there elsewhere (released u there chosen) rfl
    rw [← left] at blocked
    cases blocked
  rcases deadLettered_spec dead with ⟨none_,_⟩ | ⟨inboxId,same,db₁,before,after⟩
  · rw [none_] at named
    cases named
  obtain rfl : inboxId = m.id := Option.some.inj (same.symm.trans named)
  generalize dependentsCancelled (failedRow db t error delay now) t error now = db₀ at inbox spaces blocked_there before
  rcases before with ⟨other,rfl⟩ | ⟨memory,first⟩
  · obtain ⟨message,space,released⟩ := stage_leaves (inbox ▸ inside) (spaces ▸ known) house after
    have stays := isolated.message inside outside message (staged_restaged _ _ _ _).id
    obtain ⟨final,still⟩ := staged_final (m := m) (congrArg InboxMessage.status stays) rfl
    rw [still] at space released
    simp only [inbox,Table.put_self inside] at space released
    have stands : db.advancedSpace s = s := isolated.space known apart space rfl
    refine ⟨final,fun kind => absurd kind other,fun kind => absurd kind other,?_,?_⟩
    · exact fun r there at_ => single r there at_ ▸ stands
    · intro r there at_
      rw [single r there at_]
      exact calm_of (fun u there chosen => released u (blocked_there u there chosen).2.2 (stands.symm ▸ chosen))
  · obtain ⟨message₁,space₁,released₁⟩ := stage_leaves (inbox ▸ inside) (spaces ▸ known) house first
    rw [staged_memory] at message₁
    rw [staged_memory,inbox] at space₁ released₁
    obtain ⟨message,space,_⟩ := stage_leaves message₁ space₁ house after
    have stays := isolated.message inside outside message (staged_restaged _ _ _ _).id
    obtain ⟨final,still⟩ := staged_final (m := m) (congrArg InboxMessage.status stays) rfl
    rw [still] at stays space
    dsimp only at stays space₁ released₁ space
    have back := isolated.space known apart space rfl
    have gap : s.withMemoryGap (Stages.memoryGap {memory := true,success := false,error := some error} m) = s :=
      withMemoryGap_of (congrArg Space.memoryGapSequenceNo back).symm (congrArg Space.lastMemoryGap back).symm
    rw [gap] at back released₁
    have stands := advancedSpace_stays back
    rw [stays,Table.put_self inside] at stands
    rw [stays,Table.put_self inside,stands] at released₁
    refine ⟨final,fun _ => ⟨(congrArg InboxMessage.memoryStatus stays).symm,
      (congrArg InboxMessage.memoryCompletedAt stays).symm⟩,?_,?_,?_⟩
    · exact fun _ r there at_ => single r there at_ ▸ gap
    · exact fun r there at_ => single r there at_ ▸ stands
    · intro r there at_
      rw [single r there at_]
      refine calm_of (fun u there chosen => ?_)
      exact stage_keeps after (released₁ u (blocked_there u there chosen).2.2 chosen) (by simp [Task.requeued])

theorem local_fail {lease : Lease} {error : String} {delay : Int} {uuid : TaskId → Nat} {now : Time} {reply : FailReply}
    (ok : failTask db lease error delay uuid now = some (db',reply)) (housed : Housed db)
    (isolated : Isolated place db db') : Local db place now (.failTask lease error delay uuid) := by
  intro t member owned exhausted
  have dead := failTask_last ok member owned exhausted
  refine ⟨fun stands u => local_dependents dead isolated member owned stands,fun m inside named => ?_⟩
  by_cases here : m.place = place
  · exact .inl here
  · exact .inr (spent_of_isolated dead isolated housed member owned inside named here)

theorem local_of_isolated {now : Time} {op : Op} {reply : Reply} (ok : perform host db db now op = some (db',reply))
    (housed : Housed db) (isolated : Isolated place db db') : Local db place now op := by
  cases op <;> simp only [perform,Option.map_eq_some_iff,Prod.map,Prod.mk.injEq,Prod.exists,id_eq] at ok
  case completeTask =>
    obtain ⟨_,_,ok,rfl,_⟩ := ok
    exact local_complete ok isolated
  case failTask =>
    obtain ⟨_,_,ok,rfl,_⟩ := ok
    exact local_fail ok housed isolated
  case skipInboxRecord =>
    obtain ⟨_,_,ok,rfl,_⟩ := ok
    exact local_skip ok isolated
  all_goals trivial

/-- Only the rollback answers with an exception. -/
theorem perform_replies (host : Host) (snap db : Db) (now : Time) (op : Op) (db' : Db) :
    perform host snap db now op ≠ some (db',.raised) := by
  cases op <;> simp [perform,Prod.map]

end Elsewhere

/-- Two tenants whose platforms number messages alike. -/
def sameMessageId (tenant : TenantId) : Command where
  source := "feishu"
  sourceMessageId := "om_1"
  tenantId := tenant
  spaceId := "chat_" ++ tenant
  textValue := "/unknown"
  receivedAt := 0
  taskType := "ingest"

def twoTenants : List (Time × Op) :=
  [(0,.receiveCommand (sameMessageId "a") ⟨"inbox_a","task_a",0,fun _ => 0⟩),
    (1,.receiveCommand (sameMessageId "b") ⟨"inbox_b","task_b",1,fun _ => 0⟩)]

def crowded : Db := (execute asciiHost {} twoTenants).1

def skipFirst (cancelRootTask : Bool) : Op :=
  .skipInboxRecord "inbox_a" .skippedCommand cancelRootTask (fun _ => 2)

theorem skipFirst_acts (cancelRootTask : Bool) : Acts asciiHost crowded ("a","chat_a") (skipFirst cancelRootTask) :=
  ⟨_,List.Mem.head _,rfl,rfl⟩

/-- Cancelling the root task of the first tenant's message cancels the second's. -/
theorem space_not_isolated : ¬ ∀ (host : Host) (calls : List Call) (db db' : Db) (call : Call) (place : Place),
    Run (Step host) {} calls db → Acts host db place call.op → Step host db call db' → Isolated place db db' := by
  intro isolated
  have apart := (isolated asciiHost _ crowded _ _ _ (run_execute asciiHost {} twoTenants) (skipFirst_acts true)
    (step_after asciiHost crowded 2 (skipFirst true))).tasks
  have kept := (apart _ (by decide)).mpr (List.Mem.tail _ (List.Mem.head _))
  revert kept
  decide

/-- In every reachable state a call that raises changes nothing, and one that commits leaves the
rows of all other places alone exactly when it is local. -/
theorem space_isolation (host : Host) {calls : List Call} {db db' : Db} {call : Call} {place : Place}
    (run : Run (Step host) {} calls db) (acts : Acts host db place call.op) (step : Step host db call db') :
    (call.reply = .raised → db' = db) ∧
      (call.reply ≠ .raised → (Isolated place db db' ↔ Local db place call.now call.op)) := by
  have housed := housed_run housed_empty run
  refine ⟨fun raised => ?_,fun committed => ⟨fun isolated => ?_,fun local_ => ?_⟩⟩
  · rcases outcome_cases step with ok | ⟨_,same,_⟩
    · rw [raised] at ok
      exact absurd ok (perform_replies host db db call.now call.op db')
    · exact same
  · rcases outcome_cases step with ok | ⟨_,_,raised⟩
    · exact local_of_isolated ok housed isolated
    · exact absurd raised committed
  · exact (within_step housed (covered_of_acts acts local_) step).isolated

/-- The same skip when no task is cancelled. -/
theorem space_isolation_skip : Isolated ("a","chat_a") crowded (crowded.after asciiHost 2 (skipFirst false)) := by
  have local_ : Local crowded ("a","chat_a") 2 (skipFirst false) := fun cancel => absurd cancel Bool.false_ne_true
  have run : Run (Step asciiHost) {} _ crowded := run_execute asciiHost {} twoTenants
  exact ((space_isolation asciiHost run (skipFirst_acts false)
    (step_after asciiHost crowded 2 (skipFirst false))).2 (by decide)).mpr local_

end Suixinji.Dispatch
