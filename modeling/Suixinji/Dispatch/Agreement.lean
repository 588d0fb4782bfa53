import Suixinji.Dispatch.Marks
import Suixinji.Dispatch.Places
import Suixinji.Dispatch.Writes

/-! The statement that finishes a task against the step-by-step path: when the two
leave the same stages, marks, queued tasks and requests behind. -/
namespace Suixinji.Dispatch
open Suixinji.Relational Suixinji.Transition

/-! ### Payloads -/

/-- The payload says whether it waits, and for what. -/
def Payload.Explicit (p : Payload) : Prop :=
  ∃ text, p.consistency = some text ∧
    (text = "note" ∨ text = "memory" → ∃ n, castInteger p.requiredWatermark = .value n)

/-- Neither path can read what the payload waits for. -/
def Payload.Unreadable (p : Payload) : Prop :=
  ∃ stage : Stage, p.consistency = some stage.text ∧ castBigint p.requiredWatermark = .raised

theorem castBigint_of_castInteger {text : Option WatermarkText} {n : Int} (value : castInteger text = .value n) :
    castBigint text = .value n := by
  cases text with
  | none => cases value
  | some text =>
    cases text with
    | empty => cases value
    | malformed => cases value
    | number k =>
      simp only [castInteger,castSigned] at value
      split at value
      · rename_i fits
        cases value
        have wider : -2^(64-1) ≤ n ∧ n < 2^(64-1) := by omega
        simp only [castBigint,castSigned,reduceCtorEq,Option.some.injEq,if_false,if_pos wider]
      · cases value

theorem castInteger_raised {text : Option WatermarkText} (raised : castBigint text = .raised) :
    castInteger text = .raised := by
  cases value : castInteger text with
  | raised => rfl
  | value n => exact nomatch (castBigint_of_castInteger value).symm.trans raised
  | null =>
    cases text with
    | none => cases raised
    | some text =>
      cases text with
      | empty => cases value
      | malformed => cases value
      | number k =>
        simp only [castInteger,castSigned] at value
        split at value <;> cases value

theorem ready_of_other {p : Payload} {text : String} (given : p.consistency = some text)
    (note : text ≠ "note") (memory : text ≠ "memory") (s : Space) :
    readyInSession s.noteWatermark s.memoryWatermark p = .yes ∧
      readyInStatement s.noteWatermark s.memoryWatermark p = .yes := by
  have open_ : consistencyGuarded (some text) = .no := by
    simp [consistencyGuarded,Truth.ofOption,Truth.ofBool,note,memory]
  simp only [readyInSession,readyInStatement,given,Option.getD_some,open_]
  exact ⟨rfl,rfl⟩

theorem ready_of_explicit {p : Payload} (explicit : p.Explicit) (s : Space) :
    readyInSession s.noteWatermark s.memoryWatermark p = readyInStatement s.noteWatermark s.memoryWatermark p ∧
      readyInSession s.noteWatermark s.memoryWatermark p ≠ .raised := by
  obtain ⟨text,given,readable⟩ := explicit
  have waiting : ∀ stage : Stage, p.consistency = some stage.text →
      (∃ n, castInteger p.requiredWatermark = .value n) →
      readyInSession s.noteWatermark s.memoryWatermark p = readyInStatement s.noteWatermark s.memoryWatermark p ∧
        readyInSession s.noteWatermark s.memoryWatermark p ≠ .raised := by
    rintro stage consistency ⟨n,value⟩
    rw [readyInSession_of consistency,readyInStatement_of consistency,value,castBigint_of_castInteger value]
    refine ⟨rfl,?_⟩
    by_cases le : n ≤ s.mark stage <;> simp [Cast.atMost,Truth.ofBool,le]
  by_cases note : text = "note"
  · exact waiting .note (given.trans (congrArg some note)) (readable (.inl note))
  by_cases memory : text = "memory"
  · exact waiting .memory (given.trans (congrArg some memory)) (readable (.inr memory))
  obtain ⟨session,statement⟩ := ready_of_other given note memory s
  rw [session,statement]
  exact ⟨rfl,nofun⟩

theorem ready_of_unreadable {p : Payload} (unreadable : p.Unreadable) (s : Space) :
    readyInSession s.noteWatermark s.memoryWatermark p = .raised ∧
      readyInStatement s.noteWatermark s.memoryWatermark p = .raised := by
  obtain ⟨stage,consistency,raised⟩ := unreadable
  rw [readyInSession_of consistency,readyInStatement_of consistency,raised,castInteger_raised raised]
  exact ⟨rfl,rfl⟩

/-- Otherwise the statement goes on, and the step-by-step path raises or leaves the
task where the statement releases it. -/
theorem ready_of_neither {p : Payload} (explicit : ¬ p.Explicit) (unreadable : ¬ p.Unreadable) (s : Space) :
    readyInStatement s.noteWatermark s.memoryWatermark p ≠ .raised ∧
      (readyInSession s.noteWatermark s.memoryWatermark p = .raised ∨
        (readyInSession s.noteWatermark s.memoryWatermark p ≠ .yes ∧
          readyInStatement s.noteWatermark s.memoryWatermark p = .yes)) := by
  cases given : p.consistency with
  | none =>
    have statement : readyInStatement s.noteWatermark s.memoryWatermark p = .yes := by
      rw [readyInStatement,given]
      rfl
    have null (a b : Truth) : Truth.or (consistencyGuarded none).not
        (.or (.and (consistencyIs "note" none) a) (.and (consistencyIs "memory" none) b)) ≠ .yes := by
      cases a <;> cases b <;> decide
    refine ⟨by rw [statement]; decide,.inr ⟨?_,statement⟩⟩
    rw [readyInSession,given]
    exact null _ _
  | some text =>
    have waits : text = "note" ∨ text = "memory" := by
      by_contra other
      exact explicit ⟨text,given,fun named => absurd named other⟩
    obtain ⟨stage,rfl⟩ : ∃ stage : Stage, text = stage.text := by
      rcases waits with rfl | rfl
      · exact ⟨.note,rfl⟩
      · exact ⟨.memory,rfl⟩
    have readable : castBigint p.requiredWatermark ≠ .raised := fun raised => unreadable ⟨stage,given,raised⟩
    have noValue : ∀ n, castInteger p.requiredWatermark ≠ .value n :=
      fun n value => explicit ⟨stage.text,given,fun _ => ⟨n,value⟩⟩
    rw [readyInSession_of given,readyInStatement_of given]
    constructor
    · cases cast : castBigint p.requiredWatermark with
      | raised => exact absurd cast readable
      | null => simp [Cast.coalesce,Cast.atMost,Truth.ofBool]
      | value n =>
        rw [Cast.coalesce,Cast.atMost]
        · unfold Truth.ofBool
          split <;> decide
        · simp
    · cases cast : castInteger p.requiredWatermark with
      | raised => exact .inl rfl
      | value n => exact absurd cast (noValue n)
      | null =>
        have absent : p.requiredWatermark = none := by
          cases text : p.requiredWatermark with
          | none => rfl
          | some t =>
            rw [text] at cast
            cases t with
            | empty => cases cast
            | malformed => cases cast
            | number k =>
              simp only [castInteger,castSigned] at cast
              split at cast <;> cases cast
        rw [absent]
        exact .inr ⟨by simp [Cast.atMost],by simp [castBigint,castSigned,Cast.coalesce,Cast.atMost,Truth.ofBool]⟩

/-! ### What is compared -/

/-- The same outcome for `complete_inbox_stage_in_session`. -/
def InboxOutcome.stages (o : InboxOutcome) : Stages where
  note := o.noteCompleted
  memory := o.memoryCompleted
  finalize := o.finalize

/-- The branches of `complete_task` behind its statements: the row of the task, then
the stages of the message. -/
def completeStepByStep (db : Db) (t : Task) (o : InboxOutcome) (uuid : TaskId → Nat) (now : Time) : Option Db :=
  completeInboxStageInSession (completeRow db t now) o.inboxId o.stages uuid now

def InboxMessage.statuses (m : InboxMessage) : InboxId × InboxStatus × StageStatus × StageStatus :=
  (m.id,m.status,m.noteStatus,m.memoryStatus)

def Space.progress (s : Space) : SpaceId × Nat × Nat × Nat :=
  (s.id,s.noteWatermark,s.memoryWatermark,s.processedSequenceNo)

def Db.releasedBy (db db' : Db) : List Task :=
  db.tasks.rows.filter (fun t => t.status = .blocked && db'.tasks.rows.any (fun u => u.id = t.id && u.status = .queued))

def Db.requestsBy (db db' : Db) : List (TaskId × String × Nat) :=
  (db'.outbox.rows.filter (fun e => decide (e ∉ db.outbox))).map (fun e => (e.aggregateId,e.eventType,e.attempt))

def Task.request (t : Task) : TaskId × String × Nat := (t.id,"task.requested",t.attemptCount + 1)

structure EndsAlike (db fast slow : Db) : Prop where
  inbox : fast.inbox.rows.map InboxMessage.statuses = slow.inbox.rows.map InboxMessage.statuses
  spaces : fast.spaces.rows.map Space.progress = slow.spaces.rows.map Space.progress
  released : db.releasedBy fast = db.releasedBy slow
  requests : db.requestsBy fast = (db.releasedBy fast).map Task.request ∧
    db.requestsBy slow = (db.releasedBy slow).map Task.request

/-- Both roll back, or both complete the task and end alike. -/
def Agree (db : Db) : Option (Db × Bool) → Option Db → Prop
  | none,none => True
  | some (fast,done),some slow => done = true ∧ EndsAlike db fast slow
  | _,_ => False

/-- What the two paths must find in the space of the message to agree. -/
def Comparable (db : Db) (m : InboxMessage) (o : InboxOutcome) : Prop :=
  (∃ u ∈ db.tasks, u.blockedIn m.spaceId ∧ u.payload.Unreadable) ∨
    ((∀ u ∈ db.tasks, u.blockedIn m.spaceId → u.payload.Explicit) ∧
      (o.finalize → m.status.finalized → ∀ s ∈ db.spaces, s.id = m.spaceId → m.sequenceNo ≤ s.processedSequenceNo))

/-! ### What both paths leave behind -/

def Space.counted (s : Space) (o : InboxOutcome) (m : InboxMessage) : Space :=
  {s with processedSequenceNo :=
    if o.finalize ∧ !m.status.finalized then max s.processedSequenceNo m.sequenceNo else s.processedSequenceNo}

/-- The step-by-step path sets the message as the statement does. -/
theorem staged_eq (o : InboxOutcome) (now : Time) (m : InboxMessage) (s : Space) :
    staged o.stages now m s = (o.apply now m,s.counted o m) := by
  obtain ⟨inboxId,note,memory,finalize⟩ := o
  obtain ⟨id,source,sourceMessageId,tenantId,spaceId,text,receivedAt,status,_⟩ := m
  cases finalize with
  | false => cases note <;> cases memory <;> rfl
  | true =>
    cases counted : status.finalized <;> cases note <;> cases memory <;>
      simp [staged,finalizeStages,endMemory,endNote,InboxOutcome.stages,InboxOutcome.apply,Stages.stageStatus,
        Space.counted,counted]

/-- The tasks afterwards: one completed, some released. -/
structure Finished (db : Db) (t : Task) (now : Time) (chosen : Task → Bool) (db' : Db) : Prop where
  tasks : db'.tasks.rows = (db.tasks.put (t.completed now)).rows.map (fun u => if chosen u then u.requeued else u)
  events : ∃ id : Task → EventId, db'.outbox.rows = db.outbox.rows ++
    ((db.tasks.put (t.completed now)).rows.filter chosen).map
      (fun u => requested (id u) u (u.attemptCount + 1) now)

section Finished
variable {db db' : Db} {t : Task} {now : Time} {chosen : Task → Bool} (member : t ∈ db.tasks)
  (running : t.status = .running) (blocked : ∀ u, chosen u → u.status = .blocked)
include member running blocked

theorem filter_completed (now : Time) : (db.tasks.put (t.completed now)).rows.filter chosen = db.tasks.rows.filter chosen := by
  have ended : chosen (t.completed now) = false := by
    by_contra due
    have waiting := blocked (t.completed now) (by simpa using due)
    cases waiting
  have self : chosen t = false := by
    by_contra due
    have waiting := running.symm.trans (blocked t (by simpa using due))
    cases waiting
  rw [Table.rows_put,List.filter_map]
  have same : ∀ u ∈ db.tasks.rows, chosen (if u.id = (t.completed now).id then t.completed now else u) = chosen u := by
    intro u inside
    split
    · rename_i equal
      rw [db.tasks.unique inside member equal,ended,self]
    · rfl
  have filtered : db.tasks.rows.filter (chosen ∘ fun u => if u.id = (t.completed now).id then t.completed now else u) =
      db.tasks.rows.filter chosen := List.filter_congr same
  rw [filtered]
  conv_rhs => rw [← List.map_id (db.tasks.rows.filter chosen)]
  apply List.map_congr_left
  intro u inside
  obtain ⟨there,due⟩ := List.mem_filter.mp inside
  rw [if_neg]
  · rfl
  · intro equal
    rw [db.tasks.unique there member equal,self] at due
    cases due

theorem Finished.releasedBy (finished : Finished db t now chosen db') :
    db.releasedBy db' = db.tasks.rows.filter chosen := by
  apply List.filter_congr
  intro u inside
  rw [Bool.eq_iff_iff,Bool.and_eq_true,decide_eq_true_eq,List.any_eq_true]
  have other : u.status = .blocked → u.id ≠ (t.completed now).id := by
    intro waiting equal
    rw [db.tasks.unique inside member equal,running] at waiting
    cases waiting
  constructor
  · rintro ⟨waiting,v,after,queued⟩
    rw [Bool.and_eq_true,decide_eq_true_eq,decide_eq_true_eq] at queued
    rw [finished.tasks] at after
    obtain ⟨w,before,rfl⟩ := List.mem_map.mp after
    have id : (if chosen w then w.requeued else w).id = w.id := by split <;> rfl
    rcases Table.mem_put.mp before with ⟨there,_⟩ | ⟨rfl,_⟩
    · have equal : w = u := db.tasks.unique there inside (id.symm.trans queued.1)
      subst equal
      by_contra rest
      rw [if_neg rest,waiting] at queued
      exact nomatch queued.2
    · exact absurd (id.symm.trans queued.1).symm (other waiting)
  · intro due
    have waiting := blocked u due
    refine ⟨waiting,u.requeued,?_,by simp [Task.requeued]⟩
    rw [finished.tasks]
    refine List.mem_map.mpr ⟨u,Table.mem_put.mpr (.inl ⟨inside,other waiting⟩),?_⟩
    rw [if_pos due]

theorem Finished.requestsBy (finished : Finished db t now chosen db') :
    db.requestsBy db' = (db.releasedBy db').map Task.request := by
  obtain ⟨id,events⟩ := finished.events
  rw [finished.releasedBy member running blocked,← filter_completed member running blocked now]
  generalize (db.tasks.put (t.completed now)).rows.filter chosen = rows at events
  have distinct := db'.outbox.keyed
  rw [events,List.map_append,List.nodup_append] at distinct
  have new : ∀ e ∈ rows.map (fun u => requested (id u) u (u.attemptCount + 1) now), decide (e ∉ db.outbox) = true := by
    intro e isNew
    rw [decide_eq_true_eq]
    exact fun old => distinct.2.2 _ (List.mem_map_of_mem old) _ (List.mem_map_of_mem isNew) rfl
  have old : ∀ e ∈ db.outbox.rows, ¬ decide (e ∉ db.outbox) = true := by
    intro e there
    rw [decide_eq_true_eq,Classical.not_not]
    exact there
  rw [Db.requestsBy,events,List.filter_append,List.filter_eq_nil_iff.mpr old,List.nil_append,
    List.filter_eq_self.mpr new,List.map_map]
  rfl

end Finished

/-! ### The two paths -/

/-- The ids drawn for events are new. -/
structure Drawn (db : Db) (uuid : TaskId → Nat) : Prop where
  fresh : ∀ e ∈ db.outbox, ∀ id, e.id ≠ .random (uuid id)
  distinct : ∀ t ∈ db.tasks, ∀ u ∈ db.tasks, uuid t.id = uuid u.id → t.id = u.id

/-- The database of the statement before it releases tasks. -/
def progressedDb (db : Db) (t : Task) (m : InboxMessage) (s : Space) (now : Time) : Db :=
  {completeRow db t now with inbox := db.inbox.put m,spaces := db.spaces.put s}

section Paths
variable {db : Db} {t : Task} {lease : Lease} {m : InboxMessage} {s : Space} {o : InboxOutcome} {now : Time}
  (inside : m ∈ db.inbox) (named : m.id = o.inboxId) (there : s ∈ db.spaces) (house : s.id = m.spaceId)
include inside named there house

theorem fast_eq (member : t ∈ db.tasks) (owned : t.ownedBy lease now) (tenant : t.tenantId = m.tenantId)
    (home : t.spaceId = m.spaceId) :
    completeTaskWithInboxOutcome db db lease o now =
      (activateInStatement db (progressedDb db t (o.apply now m) (s.progressedTo db s o (o.apply now m)) now)
        (s.progressedTo db s o (o.apply now m)) now).map (·,true) := by
  have message : db.inbox.find? o.inboxId = some m := Table.find?_eq_some.mpr ⟨inside,named⟩
  have space : db.spaces.find? (o.apply now m).spaceId = some s := Table.find?_eq_some.mpr ⟨there,house⟩
  have task : db.tasks.find? lease.taskId = some t :=
    Table.find?_eq_some.mpr ⟨member,(Task.claimedBy?_spec (Task.ownedBy_claimed owned)).1⟩
  have unchanged : (completeRow db t now).inbox = db.inbox ∧ (completeRow db t now).spaces = db.spaces := ⟨rfl,rfl⟩
  simp only [completeTaskWithInboxOutcome,message,task,Option.filter_some,owned,tenant,home,decide_true,
    Bool.and_self,if_true,progressInbox,unchanged.1,unchanged.2,space]
  rfl

theorem slow_eq (uuid : TaskId → Nat) : completeStepByStep db t o uuid now =
    advanceWatermarksInSession (progressedDb db t (o.apply now m) (s.counted o m) now) (s.counted o m) uuid now := by
  have message : (completeRow db t now).inbox.find? o.inboxId = some m := Table.find?_eq_some.mpr ⟨inside,named⟩
  have space : (completeRow db t now).spaces.find? m.spaceId = some s := Table.find?_eq_some.mpr ⟨there,house⟩
  simp only [completeStepByStep,completeInboxStageInSession,message,space,Option.bind_eq_bind,Option.bind_some,staged_eq]
  rfl

omit named there house in
/-- Both paths store the same marks. -/
theorem advancedSpace_counted (t : Task) (now : Time) :
    (progressedDb db t (o.apply now m) (s.counted o m) now).advancedSpace (s.counted o m) =
    {s.progressedTo db s o (o.apply now m) with processedSequenceNo := (s.counted o m).processedSequenceNo} := by
  have rows : (progressedDb db t (o.apply now m) (s.counted o m) now).messages s.id =
      (db.messages s.id).map (fun n => if n.id = (o.apply now m).id then o.apply now m else n) := by
    have id : (o.apply now m).id = m.id := rfl
    exact messages_put inside id rfl rfl s.id
  have number : ∀ n ∈ db.messages s.id, n.id = (o.apply now m).id → n.sequenceNo = (o.apply now m).sequenceNo := by
    intro n isMessage same
    rw [db.inbox.unique (Db.mem_messages.mp isMessage).1 inside same]
    rfl
  have mark (stage : InboxMessage → StageStatus) (current : Nat) :=
    progressMark_eq_advanced (db.messages s.id) (o.apply now m) stage current number
  simp only [Db.advancedSpace,Space.progressedTo,Space.progressed,mark,← rows]
  rfl

end Paths

section Release
variable {db : Db} {t : Task} {m : InboxMessage} {s : Space} {now : Time} (member : t ∈ db.tasks)
  (running : t.status = .running)
include member running

theorem blocked_completed (now : Time) {u : Task} (blocked : u.status = .blocked) :
    u ∈ db.tasks.put (t.completed now) ↔ u ∈ db.tasks := by
  constructor
  · intro inside
    rcases Table.mem_put.mp inside with ⟨before,_⟩ | ⟨rfl,_⟩
    · exact before
    · cases blocked
  · intro inside
    refine Table.mem_put.mpr (.inl ⟨inside,fun same => ?_⟩)
    rw [db.tasks.unique inside member same,running] at blocked
    cases blocked

theorem activate_cases (m : InboxMessage) (s : Space) (now : Time) (spent : DigestsSpent db) :
    (activateInStatement db (progressedDb db t m s now) s now = none ∧ ∃ u ∈ db.tasks, u.blockedIn s.id ∧
        readyInStatement s.noteWatermark s.memoryWatermark u.payload = .raised) ∨
      ((∀ u ∈ db.tasks, u.blockedIn s.id → readyInStatement s.noteWatermark s.memoryWatermark u.payload ≠ .raised) ∧
        ∃ db', activateInStatement db (progressedDb db t m s now) s now = some db' ∧
          Finished db t now s.releasesInStatement db' ∧ db'.inbox = db.inbox.put m ∧
          db'.spaces = db.spaces.put s) := by
  by_cases calm : ∀ u ∈ db.tasks, u.blockedIn s.id →
      readyInStatement s.noteWatermark s.memoryWatermark u.payload ≠ .raised
  swap
  · push Not at calm
    obtain ⟨u,inside,blocked,raised⟩ := calm
    have any : db.tasks.rows.any (fun t => t.blockedIn s.id &&
        readyInStatement s.noteWatermark s.memoryWatermark t.payload = .raised) = true :=
      List.any_eq_true.mpr ⟨u,inside,by simp [blocked,raised]⟩
    refine .inl ⟨?_,u,inside,blocked,raised⟩
    simp only [activateInStatement,released,any,if_true,Option.bind_eq_bind,Option.bind_none]
  obtain ⟨db',ok⟩ : ∃ db', activateInStatement db (progressedDb db t m s now) s now = some db' := by
    rw [activateInStatement,released_of_calm calm]
    exact ⟨_,rfl⟩
  refine .inr ⟨calm,db',ok,?_⟩
  obtain ⟨_,chosen,releases,rfl⟩ := activateInStatement_spec ok
  refine ⟨?_,rfl,rfl⟩
  -- a row the statement still finds blocked is blocked in its snapshot
  have hit : ∀ u ∈ db.tasks.put (t.completed now), chosen u = s.releasesInStatement u := by
    intro u inside
    rw [releases]
    cases due : s.releasesInStatement u with
    | false => exact Bool.and_false _
    | true =>
      have blocked := (Space.releasesInStatement_blocked due).2
      rw [Table.find?_mem ((blocked_completed member running now blocked).mp inside),Option.any_some,due]
      rfl
  constructor
  · exact List.map_congr_left (fun u inside => congrArg (fun b => if b = true then u.requeued else u) (hit u inside))
  · refine ⟨fun u => .digest u.id (u.attemptCount + 1),?_⟩
    have same := List.filter_congr hit
    have waiting : ∀ u ∈ (db.tasks.put (t.completed now)).rows.filter s.releasesInStatement,
        u ∈ db.tasks ∧ u.status = .blocked := by
      intro u chosen
      obtain ⟨inside,due⟩ := List.mem_filter.mp chosen
      have blocked := (Space.releasesInStatement_blocked due).2
      exact ⟨(blocked_completed member running now blocked).mp inside,blocked⟩
    have distinct : (((db.tasks.put (t.completed now)).rows.filter s.releasesInStatement).map Task.id).Nodup :=
      (db.tasks.put (t.completed now)).keyed.sublist (List.filter_sublist.map _)
    rw [← spent.insertNew _ waiting distinct,← same]
    rfl

theorem advance_cases {uuid : TaskId → Nat} (drawn : Drawn db uuid) {s₂ : Space}
    (marks : (progressedDb db t m s now).advancedSpace s = s₂) :
    (advanceWatermarksInSession (progressedDb db t m s now) s uuid now = none ∧
        ∃ u ∈ db.tasks, u.blockedIn s₂.id ∧ readyInSession s₂.noteWatermark s₂.memoryWatermark u.payload = .raised) ∨
      ((∀ u ∈ db.tasks, u.blockedIn s₂.id →
          readyInSession s₂.noteWatermark s₂.memoryWatermark u.payload ≠ .raised) ∧
        ∃ db', advanceWatermarksInSession (progressedDb db t m s now) s uuid now = some db' ∧
          Finished db t now s₂.releases db' ∧ db'.inbox = db.inbox.put m ∧ db'.spaces = db.spaces.put s₂) := by
  have blockedOf {u : Task} (blocked : u.blockedIn s₂.id) : u.status = .blocked := by
    simp only [Task.blockedIn,Bool.and_eq_true,decide_eq_true_eq] at blocked
    exact blocked.2
  by_cases calm : ∀ u ∈ db.tasks, u.blockedIn s₂.id →
      readyInSession s₂.noteWatermark s₂.memoryWatermark u.payload ≠ .raised
  swap
  · push Not at calm
    obtain ⟨u,inside,blocked,raised⟩ := calm
    have after := (blocked_completed member running now (blockedOf blocked)).mpr inside
    have any : (db.tasks.put (t.completed now)).rows.any (fun t => t.blockedIn s₂.id &&
        readyInSession s₂.noteWatermark s₂.memoryWatermark t.payload = .raised) = true :=
      List.any_eq_true.mpr ⟨u,after,by simp [blocked,raised]⟩
    have raises : released (progressedDb db t m s now).tasks s₂.id
        (readyInSession s₂.noteWatermark s₂.memoryWatermark) = none := if_pos any
    refine .inl ⟨?_,u,inside,blocked,raised⟩
    rw [advanceWatermarksInSession,marks,activateReadyTasksInSession]
    simp only [raises,Option.bind_eq_bind,Option.bind_none]
  have calm' : ∀ u ∈ (progressedDb db t m s now).tasks, u.blockedIn s₂.id →
      readyInSession s₂.noteWatermark s₂.memoryWatermark u.payload ≠ .raised :=
    fun u after blocked => calm u ((blocked_completed member running now (blockedOf blocked)).mp after) blocked
  obtain ⟨outbox,inserted⟩ := db.outbox.insertAll_of_fresh
    (((db.tasks.put (t.completed now)).rows.filter s₂.releases).map
      (fun u => requested (.random (uuid u.id)) u (u.attemptCount + 1) now)) (by
    rw [List.map_map]
    refine List.Nodup.map_on ?_ ((List.Nodup.of_map _ (db.tasks.put (t.completed now)).keyed).filter _)
    have waiting : ∀ u ∈ (db.tasks.put (t.completed now)).rows.filter s₂.releases, u ∈ db.tasks := by
      intro u chosen
      obtain ⟨after,due⟩ := List.mem_filter.mp chosen
      exact (blocked_completed member running now (Space.releases_blocked due).2).mp after
    intro u inside v there same
    have id := drawn.distinct u (waiting u inside) v (waiting v there) (EventId.random.inj same)
    exact db.tasks.unique (waiting u inside) (waiting v there) id) (by
    intro e isNew e₀ old
    obtain ⟨u,_,rfl⟩ := List.mem_map.mp isNew
    exact drawn.fresh e₀ old u.id)
  have id : s.id = s₂.id := by rw [← marks]; rfl
  refine .inr ⟨calm,{progressedDb db t m s now with
    spaces := (db.spaces.put s).put s₂
    tasks := (db.tasks.put (t.completed now)).updateWhere s₂.releases Task.requeued
    outbox},?_,?_,rfl,db.spaces.put_put id⟩
  · rw [advanceWatermarksInSession,marks,activateReadyTasksInSession,released_of_calm calm']
    exact Option.bind_eq_some_iff.mpr ⟨_,rfl,Option.bind_eq_some_iff.mpr ⟨outbox,inserted,rfl⟩⟩
  · exact ⟨rfl,fun u => .random (uuid u.id),Table.rows_insertAll inserted⟩

end Release

/-! ### Agreement -/

theorem unreadable_of_raised {p : Payload} {s : Space}
    (raised : readyInStatement s.noteWatermark s.memoryWatermark p = .raised) : p.Unreadable := by
  by_contra readable
  by_cases explicit : p.Explicit
  · obtain ⟨same,calm⟩ := ready_of_explicit explicit s
    exact calm (same.trans raised)
  · exact (ready_of_neither explicit readable s).1 raised

theorem map_progress_put {spaces : Table Space.id} {s a b : Space} (there : s ∈ spaces) (left : a.id = s.id)
    (right : b.id = s.id) :
    (spaces.put a).rows.map Space.progress = (spaces.put b).rows.map Space.progress ↔ a.progress = b.progress := by
  simp only [Table.rows_put,List.map_map,List.map_inj_left,Function.comp_apply,left,right]
  constructor
  · intro all
    have here := all s there
    rwa [if_pos rfl,if_pos rfl] at here
  · intro same q _
    split
    · exact same
    · rfl

/-- Two paths that both commit end alike when they release the same tasks and count
the same messages. -/
theorem endsAlike_iff {db fast slow : Db} {t : Task} {m' : InboxMessage} {s a b : Space} {now : Time}
    (member : t ∈ db.tasks) (running : t.status = .running) (there : s ∈ db.spaces) (left : a.id = s.id)
    (right : b.id = s.id) (fastDone : Finished db t now a.releasesInStatement fast)
    (slowDone : Finished db t now b.releases slow) (fastInbox : fast.inbox = db.inbox.put m')
    (slowInbox : slow.inbox = db.inbox.put m') (fastSpaces : fast.spaces = db.spaces.put a)
    (slowSpaces : slow.spaces = db.spaces.put b) :
    EndsAlike db fast slow ↔ a.progress = b.progress ∧
      ∀ u ∈ db.tasks, a.releasesInStatement u = b.releases u := by
  have fastBlocked : ∀ u, a.releasesInStatement u → u.status = .blocked :=
    fun u due => (Space.releasesInStatement_blocked due).2
  have slowBlocked : ∀ u, b.releases u → u.status = .blocked := fun u due => (Space.releases_blocked due).2
  have fastReleased := fastDone.releasedBy member running fastBlocked
  have slowReleased := slowDone.releasedBy member running slowBlocked
  constructor
  · intro alike
    refine ⟨?_,?_⟩
    · have spaces := alike.spaces
      rw [fastSpaces,slowSpaces] at spaces
      exact (map_progress_put there left right).mp spaces
    · have released := alike.released
      rw [fastReleased,slowReleased] at released
      intro u inside
      have same := congrArg (u ∈ ·) released
      simp only [List.mem_filter,eq_iff_iff] at same
      exact Bool.eq_iff_iff.mpr ⟨fun due => (same.mp ⟨inside,due⟩).2,fun due => (same.mpr ⟨inside,due⟩).2⟩
  · rintro ⟨progress,same⟩
    refine ⟨by rw [fastInbox,slowInbox],?_,?_,fastDone.requestsBy member running fastBlocked,
      slowDone.requestsBy member running slowBlocked⟩
    · rw [fastSpaces,slowSpaces]
      exact (map_progress_put there left right).mpr progress
    · rw [fastReleased,slowReleased]
      exact List.filter_congr same

theorem counted_iff (s : Space) (snap : Db) (seen : Space) (o : InboxOutcome) (m : InboxMessage) (now : Time) :
    (s.progressedTo snap seen o (o.apply now m)).processedSequenceNo = (s.counted o m).processedSequenceNo ↔
      (o.finalize → m.status.finalized → m.sequenceNo ≤ s.processedSequenceNo) := by
  have number : (o.apply now m).sequenceNo = m.sequenceNo := rfl
  simp only [Space.progressedTo,Space.progressed,Space.counted,number]
  cases o.finalize <;> cases m.status.finalized <;> simp

/-- In every reachable state, finishing a task in one statement agrees with
finishing it step by step exactly when the space is comparable. -/
theorem finish_paths_agree (host : Host) {calls : List Call} {db : Db} (run : Run (Step host) {} calls db)
    {t : Task} {lease : Lease} {m : InboxMessage} {o : InboxOutcome} {uuid : TaskId → Nat} {now : Time}
    (member : t ∈ db.tasks) (owned : t.ownedBy lease now) (inside : m ∈ db.inbox) (named : m.id = o.inboxId)
    (tenant : t.tenantId = m.tenantId) (home : t.spaceId = m.spaceId) (drawn : Drawn db uuid) :
    Agree db (completeTaskWithInboxOutcome db db lease o now) (completeStepByStep db t o uuid now) ↔
      Comparable db m o := by
  have spent := digestsSpent_run run
  have running := Task.ownedBy_running owned
  obtain ⟨s,there,place⟩ := (housed_run housed_empty run).messages m inside
  have house : s.id = m.spaceId := congrArg Prod.snd place
  have left : (s.progressedTo db s o (o.apply now m)).id = s.id := rfl
  have marks := @advancedSpace_counted db m s o inside t now
  rw [fast_eq inside named there house member owned tenant home,slow_eq inside named there house]
  have counted := counted_iff s db s o m now
  generalize s.progressedTo db s o (o.apply now m) = a at marks counted left
  generalize stepped : {a with processedSequenceNo := (s.counted o m).processedSequenceNo} = b at marks
  have right : b.id = s.id := by rw [← stepped]; exact left
  have session (p : Payload) : readyInSession b.noteWatermark b.memoryWatermark p =
      readyInSession a.noteWatermark a.memoryWatermark p := by rw [← stepped]
  have progress : a.progress = b.progress ↔ (o.finalize → m.status.finalized → m.sequenceNo ≤ s.processedSequenceNo) := by
    rw [← counted,← stepped]
    simp [Space.progress]
  have blockedIn {u : Task} : u.blockedIn b.id = u.blockedIn a.id := by rw [left,right]
  have here {u : Task} : u.blockedIn m.spaceId = u.blockedIn a.id := by rw [left,house]
  have same : ∀ {u : Task}, u.payload.Explicit → a.releasesInStatement u = b.releases u := by
    intro u explicit
    rw [Space.releasesInStatement,Space.releases,session,(ready_of_explicit explicit a).1,blockedIn]
  have readable : (∀ u ∈ db.tasks, u.blockedIn a.id →
      readyInStatement a.noteWatermark a.memoryWatermark u.payload ≠ .raised) →
      ¬ ∃ u ∈ db.tasks, u.blockedIn m.spaceId ∧ u.payload.Unreadable := by
    rintro calm ⟨u,inside,blocked,unreadable⟩
    exact calm u inside (here ▸ blocked) (ready_of_unreadable unreadable a).2
  rcases activate_cases member running (o.apply now m) a now spent with
    ⟨fast,u,there',blocked,raised⟩ | ⟨fastCalm,fast,fastOk,fastDone,fastInbox,fastSpaces⟩
  · -- a task that the statement cannot read stops the other path as well
    have unreadable := unreadable_of_raised raised
    have comparable : Comparable db m o := .inl ⟨u,there',by rw [here]; exact blocked,unreadable⟩
    rcases advance_cases member running drawn marks with ⟨slow,_⟩ | ⟨slowCalm,_⟩
    · rw [fast,slow]
      exact iff_of_true trivial comparable
    · have stopped := slowCalm u there' (by rw [blockedIn]; exact blocked)
      rw [session] at stopped
      exact absurd (ready_of_unreadable unreadable a).1 stopped
  have unread := readable fastCalm
  rcases advance_cases member running drawn marks with
    ⟨slow,u,there',blocked,raised⟩ | ⟨slowCalm,slow,slowOk,slowDone,slowInbox,slowSpaces⟩
  · rw [fastOk,slow]
    refine iff_of_false id ?_
    rintro (unreadable | ⟨explicit,_⟩)
    · exact unread unreadable
    · rw [session] at raised
      exact (ready_of_explicit (explicit u there' (by rw [here,← blockedIn]; exact blocked)) a).2 raised
  rw [fastOk,slowOk]
  have ends := endsAlike_iff member running there left right fastDone slowDone fastInbox slowInbox fastSpaces slowSpaces
  constructor
  · rintro ⟨_,alike⟩
    obtain ⟨counts,releases⟩ := ends.mp alike
    refine .inr ⟨?_,?_⟩
    · intro u inside' blocked
      rw [here] at blocked
      by_contra unclear
      have neither : ¬ u.payload.Unreadable := fun unreadable => unread ⟨u,inside',by rw [here]; exact blocked,unreadable⟩
      have alike := releases u inside'
      rw [Space.releasesInStatement,Space.releases,session,blockedIn,blocked] at alike
      rcases (ready_of_neither unclear neither a).2 with raised | ⟨left,released⟩
      · exact slowCalm u inside' (by rw [blockedIn]; exact blocked) (by rw [session]; exact raised)
      · simp [left,released] at alike
    · intro finalize finalized q isSpace same
      rw [db.spaces.unique isSpace there (same.trans house.symm)]
      exact progress.mp counts finalize finalized
  · rintro (unreadable | ⟨explicit,counts⟩)
    · exact absurd unreadable unread
    refine ⟨rfl,ends.mpr ⟨progress.mpr (fun finalize finalized => counts finalize finalized s there house),?_⟩⟩
    intro u inside'
    by_cases blocked : u.blockedIn a.id
    · exact same (explicit u inside' (by rw [here]; exact blocked))
    · simp only [Bool.not_eq_true] at blocked
      rw [Space.releasesInStatement,Space.releases,blockedIn,blocked,Bool.false_and,Bool.false_and]

/-! ### Where the paths part -/

def waitingTask (payload : Payload) : NewTask where
  taskType := "enrichment"
  tenantId := "t"
  spaceId := "room"
  idempotencyKey := "enrichment:1"
  payload := payload
  initialStatus := .blocked
  publish := false

def firstMessage : Command where
  source := "feishu"
  sourceMessageId := "om_1"
  tenantId := "t"
  spaceId := "room"
  textValue := "hello"
  receivedAt := 0
  taskType := "ingest"

def waiting (payload : Payload) : List (Time × Op) :=
  [(0,.receiveCommand firstMessage ⟨"inbox_1","task_1",0,fun _ => 0⟩),
    (1,.enqueueTask (waitingTask payload) "task_2" 1),
    (2,.claimTask "task_1" "worker" "token" 300)]

def waitingDb (payload : Payload) : Db := (execute asciiHost {} (waiting payload)).1

def ingestComplete : InboxOutcome := ⟨"inbox_1",true,true,true⟩

def twoDraws (id : TaskId) : Nat := if id = "task_1" then 8 else 9

theorem drawn_waiting (payload : Payload) (fresh : ∀ e ∈ (waitingDb payload).outbox.rows, e.id ≠ .random 8 ∧ e.id ≠ .random 9)
    (two : ∀ t ∈ (waitingDb payload).tasks.rows, t.id = "task_1" ∨ t.id = "task_2") :
    Drawn (waitingDb payload) twoDraws where
  fresh e there id := by
    unfold twoDraws
    split
    · exact (fresh e there).1
    · exact (fresh e there).2
  distinct t inside u there same := by
    rcases two t inside with left | left <;> rcases two u there with right | right
    · exact left.trans right.symm
    · simp [twoDraws,left,right] at same
    · simp [twoDraws,left,right] at same
    · exact left.trans right.symm

/-- Where the waiting task names no consistency, only the statement releases it. -/
theorem finish_paths_differ : ¬ ∀ (host : Host) (calls : List Call) (db : Db), Run (Step host) {} calls db →
    ∀ (t : Task) (lease : Lease) (m : InboxMessage) (o : InboxOutcome) (uuid : TaskId → Nat) (now : Time),
      t ∈ db.tasks → t.ownedBy lease now → m ∈ db.inbox → m.id = o.inboxId → t.tenantId = m.tenantId →
      t.spaceId = m.spaceId → Drawn db uuid →
      Agree db (completeTaskWithInboxOutcome db db lease o now) (completeStepByStep db t o uuid now) := by
  intro agree
  have running : ∃ t ∈ (waitingDb {}).tasks.rows, ∃ m ∈ (waitingDb {}).inbox.rows,
      t.ownedBy ⟨"task_1","token",1⟩ 3 ∧ m.id = "inbox_1" ∧ t.tenantId = m.tenantId ∧ t.spaceId = m.spaceId ∧
      (completeStepByStep (waitingDb {}) t ingestComplete twoDraws 3).map
        (fun slow => ((waitingDb {}).releasedBy slow).map Task.id) = some [] := by decide
  have released : (completeTaskWithInboxOutcome (waitingDb {}) (waitingDb {}) ⟨"task_1","token",1⟩ ingestComplete 3).map
      (fun fast => ((waitingDb {}).releasedBy fast.1).map Task.id) = some ["task_2"] := by decide
  obtain ⟨t,member,m,inside,owned,named,tenant,home,left⟩ := running
  have same := agree asciiHost _ _ (run_execute asciiHost {} (waiting {})) t _ m ingestComplete twoDraws 3 member owned
    inside named tenant home (drawn_waiting {} (by decide) (by decide))
  obtain ⟨slow,slowOk,left⟩ := Option.map_eq_some_iff.mp left
  obtain ⟨⟨fast,done⟩,fastOk,released⟩ := Option.map_eq_some_iff.mp released
  rw [show (execute asciiHost {} (waiting {})).1 = waitingDb {} from rfl,fastOk,slowOk] at same
  have alike := congrArg (List.map Task.id) same.2.released
  rw [left] at alike
  exact nomatch released.symm.trans alike

def noted : Payload where
  consistency := some "note"
  requiredWatermark := some (.number 1)

/-- A waiting task that names a mark. -/
theorem finish_paths_agree_noted : ∃ t ∈ (waitingDb noted).tasks, Agree (waitingDb noted)
    (completeTaskWithInboxOutcome (waitingDb noted) (waitingDb noted) ⟨"task_1","token",1⟩ ingestComplete 3)
    (completeStepByStep (waitingDb noted) t ingestComplete twoDraws 3) := by
  have running : ∃ t ∈ (waitingDb noted).tasks.rows, ∃ m ∈ (waitingDb noted).inbox.rows,
      t.ownedBy ⟨"task_1","token",1⟩ 3 ∧ m.id = "inbox_1" ∧ t.tenantId = m.tenantId ∧ t.spaceId = m.spaceId ∧
        m.spaceId = "room" ∧ m.status = .pending := by decide
  have blocked : ∀ u ∈ (waitingDb noted).tasks.rows, u.blockedIn "room" → u.payload = noted := by decide
  have drawn : Drawn (waitingDb noted) twoDraws := drawn_waiting noted (by decide) (by decide)
  obtain ⟨t,member,m,inside,owned,named,tenant,home,room,pending⟩ := running
  have comparable : Comparable (waitingDb noted) m ingestComplete := by
    refine .inr ⟨?_,?_⟩
    · intro u there waits
      rw [room] at waits
      rw [blocked u there waits]
      exact ⟨"note",rfl,fun _ => ⟨1,rfl⟩⟩
    · intro _ finalized
      rw [pending] at finalized
      cases finalized
  exact ⟨t,member,(finish_paths_agree asciiHost (run_execute asciiHost {} (waiting noted)) member owned inside named
    tenant home drawn).mpr comparable⟩

end Suixinji.Dispatch
