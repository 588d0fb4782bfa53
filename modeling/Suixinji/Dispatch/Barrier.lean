import Suixinji.Dispatch.Causal

/-! The causal barrier in every reachable state. -/
namespace Suixinji.Dispatch
open Suixinji.Relational Suixinji.Transition

/-- A root task is blocked only below the mark it needs, and past the barrier only
when the stage has ended for all messages before its own. -/
def Barrier (db : Db) (t : Task) : Prop :=
  ∃ m ∈ db.inbox, t.RootOf m ∧ ∀ stage : Stage, t.payload.consistency = some stage.text →
    ∃ s ∈ db.spaces, s.id = t.spaceId ∧ (t.status = .blocked → s.mark stage < m.sequenceNo - 1) ∧
      (t.status.released → ∀ n ∈ db.messages t.spaceId, n.sequenceNo ≤ m.sequenceNo - 1 → n.Ended stage)

theorem Causal.barrier {db : Db} (causal : Causal db) (marked : Marked db) (housed : Housed db) {t : Task}
    (member : t ∈ db.tasks) : Barrier db t := by
  obtain ⟨m,inside,root⟩ := causal.rooted t member
  obtain ⟨s,there,place⟩ := housed.tasks t member
  have home : s.id = t.spaceId := congrArg Prod.snd place
  refine ⟨m,inside,root,fun stage consistency => ?_⟩
  have waits : t.payload.Waits stage (m.sequenceNo - 1) := ⟨consistency,root.2.2⟩
  refine ⟨s,there,home,?_,?_⟩
  · exact fun blocked => causal.held t member blocked stage _ waits s there home
  · intro released n isMessage earlier
    have passed := causal.passed t member released stage _ waits s there home
    have clear := (marked.exact_ s there stage).clear.2
    rw [home] at clear
    exact clear n isMessage (le_trans earlier passed)

theorem causal_run {host : Host} {calls : List Call} {start db : Db} (causal : Causal start) (marked : Marked start)
    (housed : Housed start) (run : Run (Guarded (fun _ call => call.op.ordered) (Step host)) start calls db) :
    Causal db ∧ Marked db ∧ Housed db := by
  refine run.invariant (fun db => Causal db ∧ Marked db ∧ Housed db) ?_ ⟨causal,marked,housed⟩
  rintro db call db' ⟨causal,marked,housed⟩ ⟨ordered,step⟩
  exact ⟨causal_step causal housed ordered step,marked_step marked housed step,
    (within_step housed (covered_all host db call.now call.op) step).housed housed⟩

def ingestMessage (sourceMessageId : String) (consistency : Option String) : Command where
  source := "feishu"
  sourceMessageId := sourceMessageId
  tenantId := "t"
  spaceId := "room"
  textValue := "hello"
  receivedAt := 0
  taskType := "ingest"
  taskPayload := {consistency}

def twoMessages (consistency : Option String) : List (Time × Op) :=
  [(0,.receiveCommand (ingestMessage "om_1" consistency) ⟨"inbox_1","task_1",0,fun _ => 0⟩),
    (1,.receiveCommand (ingestMessage "om_2" consistency) ⟨"inbox_2","task_2",1,fun _ => 0⟩),
    (2,.claimTask "task_1" "worker" "token" 300)]

/-- The first task ends by naming the second. -/
def activation : List (Time × Op) :=
  twoMessages none ++ [(3,.completeTask ⟨"task_1","token",1⟩ {activateTaskId := some "task_2"} 2)]

def bothClaimed : List (Time × Op) :=
  twoMessages (some "weak") ++ [(3,.claimTask "task_2" "worker" "token" 300)]

def Op.dispatches : Op → Prop
  | .enqueueTask .. => False
  | _ => True

/-- A task activated by name runs ahead of the messages before it, and so does an
ingest task whose payload asks for no barrier. -/
theorem barrier_not_exact :
    (¬ ∀ (host : Host) (calls : List Call) (db : Db),
      Run (Guarded (fun _ call => call.op.dispatches) (Step host)) {} calls db → ∀ t ∈ db.tasks, Barrier db t) ∧
    ¬ ∀ (host : Host) (calls : List Call) (db : Db),
      Run (Guarded (fun _ call => call.op.ordered) (Step host)) {} calls db →
      ∀ t ∈ db.tasks, ∀ m ∈ db.inbox, t.RootOf m → t.taskType = "ingest" → t.status = .running →
      ∀ n ∈ db.messages t.spaceId, n.sequenceNo < m.sequenceNo → n.Ended .note := by
  constructor
  · intro barrier
    have run := run_execute_guarded asciiHost {} Op.dispatches activation (by simp [activation,twoMessages,Op.dispatches])
    have queued : ∃ t ∈ (execute asciiHost {} activation).1.tasks.rows, t.payload.inboxId = some "inbox_2" ∧
        t.payload.consistency = some "note" ∧ t.status = .queued ∧ t.spaceId = "room" := by decide
    have second : ∀ m ∈ (execute asciiHost {} activation).1.inbox.rows, m.id = "inbox_2" → m.sequenceNo = 2 := by
      decide
    have unended : ∃ n ∈ (execute asciiHost {} activation).1.messages "room", n.sequenceNo = 1 ∧ ¬ n.Ended .note := by
      decide
    obtain ⟨t,member,inboxId,consistency,status,home⟩ := queued
    obtain ⟨m,inside,root,exact_⟩ := barrier _ _ _ run t member
    obtain ⟨_,_,_,_,passed⟩ := exact_ .note consistency
    have number := second m inside (Option.some.inj (root.1.symm.trans inboxId))
    obtain ⟨n,isMessage,first,notEnded⟩ := unended
    exact notEnded (passed (by rw [status]; exact ⟨by decide,by decide⟩) n (by rwa [home]) (by omega))
  · intro barrier
    have run := run_execute_guarded asciiHost {} Op.ordered bothClaimed (by simp [bothClaimed,twoMessages,Op.ordered])
    have running : ∃ t ∈ (execute asciiHost {} bothClaimed).1.tasks.rows,
        ∃ m ∈ (execute asciiHost {} bothClaimed).1.inbox.rows, t.RootOf m ∧ t.taskType = "ingest" ∧
          t.status = .running ∧ ∃ n ∈ (execute asciiHost {} bothClaimed).1.messages t.spaceId,
            n.sequenceNo < m.sequenceNo ∧ ¬ n.Ended .note := by decide
    obtain ⟨t,member,m,inside,root,ingest,status,n,isMessage,earlier,notEnded⟩ := running
    exact notEnded (barrier _ _ _ run t member m inside root ingest status n isMessage earlier)

/-- Unless a task is activated by name, every task of every reachable state stands
at its barrier. -/
theorem causal_barrier (host : Host) {calls : List Call} {db : Db}
    (run : Run (Guarded (fun _ call => call.op.ordered) (Step host)) {} calls db) {t : Task} (member : t ∈ db.tasks) :
    Barrier db t := by
  obtain ⟨causal,marked,housed⟩ := causal_run causal_empty marked_empty housed_empty run
  exact causal.barrier marked housed member

/-- The first task ends its message, which releases the second. -/
def inTurn : List (Time × Op) :=
  twoMessages none ++ [(3,.completeTask ⟨"task_1","token",1⟩ {ingestCompleteInboxId := some "inbox_1"} 2)]

theorem causal_barrier_in_turn : ∃ t ∈ (execute asciiHost {} inTurn).1.tasks,
    t.id = "task_2" ∧ t.status = .queued ∧ Barrier (execute asciiHost {} inTurn).1 t := by
  have run := run_execute_guarded asciiHost {} Op.ordered inTurn (by simp [inTurn,twoMessages,Op.ordered,truthy])
  have queued : ∃ t ∈ (execute asciiHost {} inTurn).1.tasks.rows, t.id = "task_2" ∧ t.status = .queued := by decide
  obtain ⟨t,member,id,status⟩ := queued
  exact ⟨t,member,id,status,causal_barrier asciiHost run member⟩

end Suixinji.Dispatch
