import Suixinji.Dispatch.Progress

/-! The causal barrier: a root task waits exactly until the stage it needs has
ended for all earlier messages of its space. -/
namespace Suixinji.Dispatch
open Suixinji.Relational Suixinji.Numbering Suixinji.Transition

/-- The payload of a task that waits for a stage of the first `k` messages. -/
def Payload.Waits (p : Payload) (stage : Stage) (k : Nat) : Prop :=
  p.consistency = some stage.text ∧ p.requiredWatermark = some (.number k)

/-- Past the barrier: queued, running, in retry, completed or dead. -/
def TaskStatus.released (status : TaskStatus) : Prop := status ≠ .blocked ∧ status ≠ .cancelled

def Task.RootOf (t : Task) (m : InboxMessage) : Prop :=
  t.payload.inboxId = some m.id ∧ m.spaceId = t.spaceId ∧
    t.payload.requiredWatermark = some (.number (m.sequenceNo - 1 : Nat))

instance (t : Task) (m : InboxMessage) : Decidable (t.RootOf m) := inferInstanceAs (Decidable (_ ∧ _ ∧ _))

/-- The tasks on both sides of their marks. -/
structure Causal (db : Db) : Prop where
  rooted : ∀ t ∈ db.tasks, ∃ m ∈ db.inbox, t.RootOf m
  passed : ∀ t ∈ db.tasks, t.status.released → ∀ stage k, t.payload.Waits stage k →
    ∀ s ∈ db.spaces, s.id = t.spaceId → k ≤ s.mark stage
  held : ∀ t ∈ db.tasks, t.status = .blocked → ∀ stage k, t.payload.Waits stage k →
    ∀ s ∈ db.spaces, s.id = t.spaceId → s.mark stage < k

theorem Task.RootOf.onward {t : Task} {m m' : InboxMessage} (root : t.RootOf m) (onward : m.Onward m') : t.RootOf m' :=
  ⟨by rw [onward.id]; exact root.1,onward.spaceId.trans root.2.1,by rw [onward.sequenceNo]; exact root.2.2⟩

theorem castSigned_number (bits : Nat) (n : Int) :
    castSigned bits (some (.number n)) = .value n ∨ castSigned bits (some (.number n)) = .raised := by
  unfold castSigned
  dsimp only
  split
  · exact .inl rfl
  · exact .inr rfl

theorem atMost_castSigned {bits mark k : Nat} (calm : (castSigned bits (some (.number k))).atMost mark ≠ .raised) :
    (castSigned bits (some (.number k))).atMost mark = .yes ↔ k ≤ mark := by
  rcases castSigned_number bits k with value | raised
  · rw [value]
    by_cases ready : k ≤ mark <;> simp [Cast.atMost,Truth.ofBool,ready]
  · rw [raised] at calm
    exact absurd rfl calm

theorem readyInSession_waits {p : Payload} {stage : Stage} {k : Nat} (waits : p.Waits stage k) (s : Space) :
    readyInSession s.noteWatermark s.memoryWatermark p =
      (castSigned 32 (some (.number k))).atMost (s.mark stage) := by
  rw [readyInSession_of waits.1,waits.2,castInteger]

theorem readyInStatement_waits {p : Payload} {stage : Stage} {k : Nat} (waits : p.Waits stage k) (s : Space) :
    readyInStatement s.noteWatermark s.memoryWatermark p =
      (castSigned 64 (some (.number k))).atMost (s.mark stage) := by
  rw [readyInStatement_of waits.1,waits.2,castBigint,if_neg (by simp)]
  rcases castSigned_number 64 k with value | raised
  · rw [value,Cast.coalesce]
    exact nofun
  · rw [raised,Cast.coalesce]
    exact nofun

namespace Causal
variable {db db' : Db} (causal : Causal db)
include causal

theorem of_tasks (spaces : db'.spaces = db.spaces) (inbox : db'.inbox = db.inbox)
    (tasks : Table.Evolves (fun t t' => t'.payload = t.payload ∧ t'.spaceId = t.spaceId ∧
        (t'.status.released → t.status.released) ∧ (t'.status = .blocked → t.status = .blocked))
      (fun _ => False) db.tasks db'.tasks) : Causal db' where
  rooted := by
    rw [inbox]
    refine tasks.forall_mem causal.rooted ?_ (fun _ new => new.elim)
    rintro t _ t' ⟨m,inside,root⟩ ⟨payload,house,_⟩
    exact ⟨m,inside,by rw [payload]; exact root.1,by rw [house]; exact root.2.1,by rw [payload]; exact root.2.2⟩
  passed := by
    rw [spaces]
    refine tasks.forall_mem causal.passed ?_ (fun _ new => new.elim)
    rintro t _ t' before ⟨payload,house,released,_⟩ now
    rw [payload,house]
    exact before (released now)
  held := by
    rw [spaces]
    refine tasks.forall_mem causal.held ?_ (fun _ new => new.elim)
    rintro t _ t' before ⟨payload,house,_,blocked⟩ now
    rw [payload,house]
    exact before (blocked now)

theorem of_put {t : Task} (t' : Task) (member : t ∈ db.tasks) (id : t'.id = t.id)
    (payload : t'.payload = t.payload) (house : t'.spaceId = t.spaceId) (released : t.status.released)
    (open_ : t'.status ≠ .blocked) (spaces : db'.spaces = db.spaces) (inbox : db'.inbox = db.inbox)
    (tasks : db'.tasks = db.tasks.put t') : Causal db' := by
  apply causal.of_tasks spaces inbox
  rw [tasks]
  exact .put_of_mem member id ⟨payload,house,fun _ => released,fun blocked => absurd blocked open_⟩
    (fun _ _ _ => ⟨rfl,rfl,fun r => r,fun b => b⟩)

/-- Messages go on or arrive. -/
theorem of_inbox (spaces : db'.spaces = db.spaces) (inbox : ∀ m ∈ db.inbox, ∃ m' ∈ db'.inbox, m.Onward m')
    (tasks : db'.tasks = db.tasks) : Causal db' where
  rooted := by
    rw [tasks]
    intro t there
    obtain ⟨m,member,root⟩ := causal.rooted t there
    obtain ⟨m',inside,onward⟩ := inbox m member
    exact ⟨m',inside,root.onward onward⟩
  passed := by
    rw [spaces,tasks]
    exact causal.passed
  held := by
    rw [spaces,tasks]
    exact causal.held

/-- A space gets higher marks, and of its blocked tasks those are released whose
wait is over. -/
theorem settle {s : Space} (s' : Space) (member : s ∈ db.spaces) (id : s'.id = s.id)
    (higher : ∀ stage, s.mark stage ≤ s'.mark stage) (spaces : db'.spaces = db.spaces.put s')
    (inbox : ∀ m ∈ db.inbox, ∃ m' ∈ db'.inbox, m.Onward m') {hit : Task → Bool}
    (tasks : db'.tasks.rows = db.tasks.rows.map (fun t => if hit t then t.requeued else t))
    (chosen : ∀ t, hit t → t.spaceId = s.id ∧ t.status = .blocked)
    (ready : ∀ t ∈ db.tasks, t.spaceId = s.id → t.status = .blocked → ∀ stage k, t.payload.Waits stage k →
      (hit t ↔ k ≤ s'.mark stage)) : Causal db' := by
  have old : ∀ q ∈ db'.spaces, q = s' ∨ (q ∈ db.spaces ∧ q.id ≠ s.id) := by
    intro q inside
    rw [spaces] at inside
    rcases Table.mem_put.mp inside with ⟨before,other⟩ | ⟨rfl,_⟩
    · exact .inr ⟨before,id ▸ other⟩
    · exact .inl rfl
  have rows : ∀ t' ∈ db'.tasks, ∃ t ∈ db.tasks, t' = if hit t then t.requeued else t := by
    intro t' inside
    rw [Table.mem_def,tasks] at inside
    obtain ⟨t,there,rfl⟩ := List.mem_map.mp inside
    exact ⟨t,there,rfl⟩
  constructor
  · intro t' inside
    obtain ⟨t,there,rfl⟩ := rows t' inside
    obtain ⟨m,present,root⟩ := causal.rooted t there
    obtain ⟨m',after,onward⟩ := inbox m present
    have root' := root.onward onward
    refine ⟨m',after,?_⟩
    split <;> exact root'
  · intro t' inside released stage k waits q there house
    obtain ⟨t,before,rfl⟩ := rows t' inside
    by_cases due : hit t
    · rw [if_pos due] at waits house
      obtain ⟨home,blocked⟩ := chosen t due
      have here : q.id = s.id := house.trans home
      rcases old q there with rfl | ⟨_,other⟩
      · exact (ready t before home blocked stage k waits).mp due
      · exact absurd here other
    · rw [if_neg due] at released waits house
      rcases old q there with rfl | ⟨there,_⟩
      · exact le_trans (causal.passed t before released stage k waits s member (id.symm.trans house)) (higher stage)
      · exact causal.passed t before released stage k waits q there house
  · intro t' inside blocked stage k waits q there house
    obtain ⟨t,before,rfl⟩ := rows t' inside
    by_cases due : hit t
    · rw [if_pos due] at blocked
      cases blocked
    · rw [if_neg due] at blocked waits house
      rcases old q there with rfl | ⟨there,_⟩
      · have home : t.spaceId = s.id := house.symm.trans id
        by_contra passed
        exact due ((ready t before home blocked stage k waits).mpr (Nat.le_of_not_lt passed))
      · exact causal.held t before blocked stage k waits q there house

/-- An advance at the end of a transaction that has written messages and the other
columns of the space. -/
theorem advance {db₁ : Db} {s s' : Space} {uuid : TaskId → Nat} {now : Time} (member : s ∈ db.spaces)
    (id : s'.id = s.id) (marks : ∀ stage, s'.mark stage = s.mark stage) (spaces : db₁.spaces.put s' = db.spaces.put s')
    (inbox : ∀ m ∈ db.inbox, ∃ m' ∈ db₁.inbox, m.Onward m') (tasks : db₁.tasks = db.tasks)
    (ok : advanceWatermarksInSession db₁ s' uuid now = some db') : Causal db' := by
  have calm := advanceWatermarksInSession_calm ok
  obtain ⟨_,_,rfl⟩ := advanceWatermarksInSession_spec ok
  have chosen : ∀ t, (db₁.advancedSpace s').releases t → t.spaceId = s.id ∧ t.status = .blocked := by
    intro t due
    have blocked := Space.releases_blocked due
    exact ⟨blocked.1.trans id,blocked.2⟩
  have same : s'.id = (db₁.advancedSpace s').id := rfl
  refine causal.settle (db₁.advancedSpace s') member id ?_ ?_ inbox (by rw [tasks]; rfl) chosen ?_
  · intro stage
    rw [advancedSpace_mark,← marks]
    exact le_advanced _ _ _
  · dsimp only
    rw [← db₁.spaces.put_put same,spaces,Table.put_put _ same]
  intro t there home blocked stage k waits
  have here : t.blockedIn (db₁.advancedSpace s').id := by
    simp only [Task.blockedIn,home,blocked,← same,id,Bool.and_eq_true,decide_eq_true_eq]
    exact ⟨trivial,trivial⟩
  have comparison := readyInSession_waits waits (db₁.advancedSpace s')
  have quiet := calm t (tasks ▸ there) here
  rw [comparison] at quiet
  rw [← atMost_castSigned quiet,← comparison,Space.releases,here,Bool.true_and,decide_eq_true_eq]

theorem withSpace (housed : Housed db) {s : Space} {spaces : Table Space.id}
    (inserted : db.spaces.insert s = some spaces) : Causal {db with spaces} := by
  have noTasks : ∀ t ∈ db.tasks, s.id ≠ t.spaceId := by
    intro t there same
    obtain ⟨q,member,place⟩ := housed.tasks t there
    exact (Table.insert_eq_some.mp inserted).1 q member ((congrArg Prod.snd place).trans same.symm)
  refine ⟨causal.rooted,?_,?_⟩
  · intro t there released stage k waits q inside house
    rcases (Table.mem_insert inserted).mp inside with before | rfl
    · exact causal.passed t there released stage k waits q before house
    · exact absurd house (noTasks t there)
  · intro t there blocked stage k waits q inside house
    rcases (Table.mem_insert inserted).mp inside with before | rfl
    · exact causal.held t there blocked stage k waits q before house
    · exact absurd house (noTasks t there)

end Causal

theorem consistency_of_text {c : Consistency} {stage : Stage} (same : c.text = stage.text) :
    c = match stage with
      | .note => .note
      | .memory => .memory := by
  cases c <;> cases stage <;> first | rfl | exact absurd same (by decide)

section Transactions
variable {db db' : Db} (causal : Causal db)
include causal

theorem causal_stage {inboxId : InboxId} {a : Stages} {uuid : TaskId → Nat} {now : Time}
    (ok : completeInboxStageInSession db inboxId a uuid now = some db') : Causal db' := by
  obtain ⟨m,inside,_,s,member,house,advance⟩ := completeInboxStageInSession_spec ok
  exact causal.advance member (staged_restaged a now m s).space_id (staged_mark a now m s) (Table.put_put _ rfl)
    (kept_put inside (staged_onward a now m s) (by rfl)) (by rfl) advance

theorem causal_skip {inboxId : InboxId} {finalStatus : InboxStatus} {cancelRootTask : Bool}
    {uuid : TaskId → Nat} {now : Time} {found : Bool}
    (ok : skipInboxRecord db inboxId finalStatus cancelRootTask uuid now = some (db',found)) : Causal db' := by
  rcases skipInboxRecord_spec ok with ⟨rfl,_⟩ | ⟨m,inside,_,s,member,house,advance⟩
  · exact causal
  have cancelled : Causal {db with
      tasks := if cancelRootTask then cancelRoot db.tasks m finalStatus now else db.tasks} := by
    cases cancelRootTask
    · exact causal
    · refine causal.of_tasks rfl rfl (.of_updateWhere rfl (fun t _ _ => ⟨rfl,rfl,rfl,?_,?_⟩)
        (fun _ _ _ => ⟨rfl,rfl,fun r => r,fun b => b⟩))
      · exact fun released => absurd rfl released.2
      · exact fun blocked => nomatch blocked
  exact cancelled.advance member rfl (fun _ => rfl) (by rfl)
    (kept_put inside (skipped_onward m finalStatus now) (by rfl)) (by rfl) advance

theorem causal_completeRow {t : Task} (member : t ∈ db.tasks) (running : t.status = .running) (now : Time) :
    Causal (completeRow db t now) :=
  causal.of_put (t.completed now) member rfl rfl rfl ⟨by rw [running]; decide,by rw [running]; decide⟩ nofun
    rfl rfl rfl

/-- The statement of an inbox outcome, when its snapshot shows the spaces and the
blocked tasks there are. -/
theorem causal_progress (seen : Db) {o : InboxOutcome} {now : Time} (spaces : seen.spaces = db.spaces)
    (blocked : ∀ t ∈ db.tasks, t.status = .blocked → t ∈ seen.tasks)
    (ok : progressInbox seen db o now = some db') : Causal db' := by
  rcases progressInbox_spec ok with ⟨_,rfl⟩ | ⟨m,inside,_,rest⟩
  · exact causal
  let noted : Db := {db with inbox := db.inbox.put (o.apply now m)}
  have kept : ∀ n ∈ db.inbox, ∃ n' ∈ noted.inbox, n.Onward n' := kept_put inside (apply_onward o now m) rfl
  rcases rest with ⟨_,rfl⟩ | ⟨s₀,before,house₀,s,member,house,activate⟩
  · exact causal.of_inbox rfl kept rfl
  obtain rfl : s₀ = s := db.spaces.unique (spaces ▸ before) member (house₀.trans house.symm)
  obtain ⟨calm,hit,releases,rfl⟩ := activateInStatement_spec activate
  have higher : ∀ stage, s₀.mark stage ≤ (s₀.progressedTo seen s₀ o (o.apply now m)).mark stage := by
    intro stage
    rw [progressedTo_mark]
    exact le_max_left _ _
  generalize moved : s₀.progressedTo seen s₀ o (o.apply now m) = s' at *
  have id : s'.id = s₀.id := by
    rw [← moved]
    rfl
  refine causal.settle s' member id higher rfl kept rfl ?_ ?_
  · intro t due
    rw [releases,Bool.and_eq_true] at due
    have waiting := Space.releasesInStatement_blocked due.2
    rwa [id] at waiting
  · intro t there home isBlocked stage k waits
    have here : t.blockedIn s'.id := by
      simp only [Task.blockedIn,home,isBlocked,id,Bool.and_eq_true,decide_eq_true_eq]
      exact ⟨trivial,trivial⟩
    have comparison := readyInStatement_waits waits s'
    have quiet := calm t (blocked t there isBlocked) here
    rw [comparison] at quiet
    rw [← atMost_castSigned quiet,← comparison,releases,Table.find?_mem (blocked t there isBlocked),Option.any_some,
      Bool.and_self,Space.releasesInStatement,here,Bool.true_and,decide_eq_true_eq]

theorem causal_complete {lease : Lease} {o : Outcomes} {uuid : Nat} {now : Time} {done : Bool}
    (inPlace : truthy o.activateTaskId = none)
    (ok : completeTask db db lease o uuid now = some (db',done)) : Causal db' := by
  rcases completeTask_spec ok with ⟨_,rfl⟩ | ⟨_,t,member,owned,path⟩
  · exact causal
  have running := (Task.claimedBy?_spec (Task.ownedBy_claimed owned)).2.1
  have first := causal_completeRow causal member running now
  rcases path with ⟨outcome,_,_,_,_,_,_,progress⟩ | ⟨_,_,rfl⟩ | ⟨_,_,named,_⟩
  · refine causal_progress first db rfl ?_ progress
    intro u there blocked
    rcases Table.mem_put.mp there with ⟨before,_⟩ | ⟨rfl,_⟩
    · exact before
    · cases blocked
  · exact first
  · rw [inPlace] at named
    cases named

theorem causal_fail {lease : Lease} {error : String} {delay : Int} {uuid : TaskId → Nat} {now : Time}
    {reply : FailReply} (ok : failTask db lease error delay uuid now = some (db',reply)) : Causal db' := by
  rcases failTask_spec ok with ⟨_,rfl⟩ | ⟨t,member,owned,result⟩
  · exact causal
  have running := (Task.claimedBy?_spec (Task.ownedBy_claimed owned)).2.1
  have first : Causal (failedRow db t error delay now) := by
    refine causal.of_put (t.failed error (retryTime delay now) now) member rfl rfl rfl
      ⟨by rw [running]; decide,by rw [running]; decide⟩ ?_ rfl rfl rfl
    simp only [Task.failed]
    split <;> decide
  rcases result with ⟨_,_,rfl⟩ | ⟨_,_,dead⟩
  · exact first
  have second : Causal (dependentsCancelled (failedRow db t error delay now) t error now) := by
    unfold dependentsCancelled
    split
    · refine first.of_tasks rfl rfl (.of_updateWhere rfl (fun u _ _ => ⟨rfl,rfl,rfl,?_,?_⟩)
        (fun _ _ _ => ⟨rfl,rfl,fun r => r,fun b => b⟩))
      · exact fun released => absurd rfl released.2
      · intro blocked
        cases blocked
    · exact first
  rcases deadLettered_spec dead with ⟨_,rfl⟩ | ⟨inboxId,_,db₁,before,after⟩
  · exact second
  have third : Causal db₁ := by
    rcases before with ⟨_,rfl⟩ | ⟨_,memory⟩
    · exact second
    · exact causal_stage second memory
  exact causal_stage third after

theorem Causal.enqueueRoot {host : Host} {c : Command} {m : InboxMessage} {s : Space}
    {taskId id : TaskId} {uuid : Nat} {now : Time} {created : Bool} (inside : m ∈ db.inbox) (member : s ∈ db.spaces)
    (house : s.id = m.spaceId)
    (ok : enqueueTaskInSession db (c.rootTask host s m) taskId uuid now = some (db',id,created)) : Causal db' := by
  rcases enqueueTaskInSession_spec ok with ⟨_,rfl,_⟩ | ⟨_,_,_,_,tasks,outbox,inserted,_,rfl⟩
  · exact causal
  have blocked : ∀ stage k, ((c.rootTask host s m).row taskId now).payload.Waits stage k →
      (((c.rootTask host s m).row taskId now).status = .blocked ↔ s.mark stage < k) := by
    rintro stage k ⟨consistency,required⟩
    have named := consistency_of_text (Option.some.inj consistency)
    obtain rfl : m.sequenceNo - 1 = k := by
      have same := WatermarkText.number.inj (Option.some.inj required)
      exact_mod_cast same
    cases stage <;> simp only at named <;> simp [Command.rootTask,NewTask.row,named,Space.mark] <;> omega
  have here : ∀ q ∈ db.spaces, q.id = ((c.rootTask host s m).row taskId now).spaceId → q = s :=
    fun q there same => db.spaces.unique there member (same.trans house.symm)
  refine ⟨?_,?_,?_⟩
  · intro t there
    rcases (Table.mem_insert inserted).mp there with before | rfl
    · exact causal.rooted t before
    · exact ⟨m,inside,rfl,rfl,rfl⟩
  · intro t there released stage k waits q isSpace same
    rcases (Table.mem_insert inserted).mp there with before | rfl
    · exact causal.passed t before released stage k waits q isSpace same
    · rw [here q isSpace same]
      by_contra short
      exact released.1 ((blocked stage k waits).mpr (Nat.lt_of_not_le short))
  · intro t there isBlocked stage k waits q isSpace same
    rcases (Table.mem_insert inserted).mp there with before | rfl
    · exact causal.held t before isBlocked stage k waits q isSpace same
    · rw [here q isSpace same]
      exact (blocked stage k waits).mp isBlocked

theorem causal_receive (housed : Housed db) {host : Host} {c : Command} {draws : Draws}
    {now : Time} {result : DispatchResult} (ok : receiveCommand host db c draws now = some (db',result)) :
    Causal db' := by
  obtain ⟨db₁,spaceId,ensured,received⟩ := receiveCommand_spec ok
  obtain ⟨new,_,written⟩ := ensureTenantSpace_spec ensured
  have first : Causal db₁ := by
    rcases withSpace_spec written with ⟨_,rfl⟩ | ⟨s,spaces,rfl,inserted,rfl⟩
    · exact causal
    · exact causal.withSpace housed inserted
  rcases receiveInSpace_spec received with ⟨rfl,_⟩ | ⟨_,m,db₂,rfl,message,rest⟩
  · exact first
  obtain ⟨_,inbox,inserted,rfl⟩ := insertMessage_spec message
  obtain ⟨s,member,house,db₃,_,_,enqueued,_,last⟩ := receiveMessage_spec rest
  have second : Causal {db₁ with inbox} :=
    first.of_inbox rfl (fun n there => ⟨n,(Table.mem_insert inserted).mpr (.inl there),.refl n⟩) rfl
  have third := second.enqueueRoot ((Table.mem_insert inserted).mpr (.inr rfl)) member house enqueued
  rcases last with ⟨_,rfl⟩ | ⟨_,advance⟩
  · exact third
  · have there : s ∈ db₃.spaces := by
      rw [(enqueued_elsewhere enqueued).1]
      exact member
    exact third.advance there rfl (fun _ => rfl) rfl (fun n inside => ⟨n,inside,.refl n⟩) rfl advance

end Transactions

/-- No task is activated by name, and none is enqueued but with a message. -/
def Op.ordered : Op → Prop
  | .enqueueTask .. => False
  | .completeTask _ o _ => truthy o.activateTaskId = none
  | _ => True

theorem causal_empty : Causal {} where
  rooted t member := absurd member (Table.not_mem_empty t)
  passed t member := absurd member (Table.not_mem_empty t)
  held t member := absurd member (Table.not_mem_empty t)

theorem causal_step {host : Host} {db db' : Db} {call : Call} (causal : Causal db) (housed : Housed db)
    (ordered : call.op.ordered) (step : Step host db call db') : Causal db' := by
  obtain ⟨op,now,reply⟩ := call
  rcases outcome_cases step with ok | ⟨_,rfl,_⟩
  swap
  · exact causal
  have running : ∀ {t : Task} {lease : Lease}, t.claimedBy? lease → t.status.released := by
    intro t lease claimed
    rw [(Task.claimedBy?_spec claimed).2.1]
    exact ⟨by decide,by decide⟩
  cases op <;> simp only [perform,Option.map_eq_some_iff,Option.some.injEq,Prod.map,Prod.mk.injEq,
    Prod.exists,id_eq] at ok
  case receiveCommand =>
    obtain ⟨_,_,ok,rfl,_⟩ := ok
    exact causal_receive causal housed ok
  case enqueueTask => exact ordered.elim
  case claimTask =>
    obtain ⟨_,row,ok,rfl,_⟩ := ok
    rcases claimTask_spec ok with ⟨_,rfl⟩ | ⟨t,member,_,due,_,_,_,rfl⟩
    · exact causal
    · simp only [Task.due,Bool.and_eq_true,decide_eq_true_eq] at due
      exact causal.of_put (t.claimed _ _ _ _) member rfl rfl rfl ⟨due.1.1.1.1,due.1.1.1.2⟩ (fun blocked => by cases blocked) rfl rfl rfl
  case renewTaskLease lease leaseSeconds =>
    generalize renewed : renewTaskLease db lease leaseSeconds now = r at ok
    obtain ⟨_,done⟩ := r
    obtain ⟨rfl,_⟩ := ok
    rcases renewTaskLease_spec renewed with ⟨_,rfl⟩ | ⟨_,t,member,claimed,expires,rfl⟩
    · exact causal
    · exact causal.of_put {t with leaseExpiresAt := some expires} member rfl rfl rfl (running claimed)
        (running claimed).1 rfl rfl rfl
  case completeTask =>
    obtain ⟨_,_,ok,rfl,_⟩ := ok
    exact causal_complete causal ordered ok
  case failTask =>
    obtain ⟨_,_,ok,rfl,_⟩ := ok
    exact causal_fail causal ok
  case deferTask lease reason delay =>
    generalize deferred : deferTask db lease reason delay now = r at ok
    obtain ⟨_,done⟩ := r
    obtain ⟨rfl,_⟩ := ok
    rcases deferTask_spec deferred with ⟨_,rfl⟩ | ⟨_,t,member,owned,_,rfl⟩
    · exact causal
    · exact causal.of_put (t.deferred reason (retryTime delay now)) member rfl rfl rfl
        (running (Task.ownedBy_claimed owned)) (fun blocked => by cases blocked) rfl rfl rfl
  case enqueueDueRetries =>
    obtain ⟨_,_,ok,rfl,_⟩ := ok
    obtain ⟨_,_,rfl⟩ := enqueueDueRetries_spec ok
    refine causal.of_tasks rfl rfl (.of_updateWhere rfl (fun t _ chosen => ⟨rfl,rfl,rfl,?_,?_⟩)
      (fun _ _ _ => ⟨rfl,rfl,fun r => r,fun b => b⟩))
    · rw [(mem_dueRetries (of_decide_eq_true chosen)).2]
      exact fun _ => ⟨by decide,by decide⟩
    · intro blocked
      cases blocked
  case skipInboxRecord =>
    obtain ⟨_,_,ok,rfl,_⟩ := ok
    exact causal_skip causal ok
  case markInboxProcessed =>
    obtain ⟨_,ok,rfl,_⟩ := ok
    exact causal_stage causal ok
  case markInboxFailed =>
    obtain ⟨_,ok,rfl,_⟩ := ok
    exact causal_stage causal ok

end Suixinji.Dispatch
