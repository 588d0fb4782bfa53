import Suixinji.Streams.Traced
import Suixinji.Streams.Worker

/-! No task is lost between the tables and the streams. -/
namespace Suixinji.Streams
open Suixinji.Relational Suixinji.Transition Suixinji.Dispatch

/-- Some message names the task and is not acknowledged. -/
def World.pending (w : World) (taskId : TaskId) : Prop := ∃ m ∈ w.stream, m.taskId = taskId ∧ m.acked = false

def Tracked (w : World) (t : Task) : Prop :=
  match t.status with
  | .queued => (∃ e ∈ w.db.outbox, e.aggregateId = t.id ∧ e.status ≠ .published ∧ e.status ≠ .dead) ∨ w.pending t.id
  | .running => w.pending t.id
  | .blocked | .retry | .completed | .deadLetter | .cancelled => True

/-- The message is pending for the worker: nobody else has reclaimed it. -/
def World.holds (w : World) (i : WorkerId) (id : MessageId) : Prop :=
  ∃ m ∈ w.stream, m.id = id ∧ m.acked = false ∧ m.consumer = some i

/-- No event runs out of attempts to publish it. -/
def Patient (w : World) : Event → Prop
  | .markBatch r .. => ∀ e rest, w.relay r = ⟨e::rest,some false⟩ →
      ∀ f ∈ w.db.outbox, f.heldWith e.id (e.leaseToken.getD "") → f.exhausted = false
  | _ => True

/-- Workers claim by, and acknowledge, only messages they still hold, and no task
that is to run is enqueued without an event. -/
def Fitting (w : World) : Event → Prop
  | .dispatch (.enqueueTask new _ _) _ =>
      new.publish = false → new.initialStatus ≠ .queued ∧ new.initialStatus ≠ .running
  | .claim i .. => ∀ id, w.phase i = .received id → w.holds i id
  | .acknowledge i => ∀ id, w.phase i = .acking id → w.holds i id
  | _ => True

/-! ### The invariant -/

/-- A pending message that its consumer is not about to acknowledge. -/
def World.anchored (w : World) (taskId : TaskId) : Prop :=
  ∃ m ∈ w.stream, m.taskId = taskId ∧ m.acked = false ∧ ∀ i, m.consumer = some i → w.phase i ≠ .acking m.id

/-- An event that is still to be published for the first time. -/
def World.announced (w : World) (taskId : TaskId) : Prop :=
  ∃ e ∈ w.db.outbox, e.aggregateId = taskId ∧ e.status ≠ .published ∧ e.status ≠ .dead ∧
    ∀ m ∈ w.stream, m.event ≠ e.id

structure Sound (w : World) : Prop where
  spent : DigestsSpent w.db
  sourced : ∀ m ∈ w.stream, ∃ e ∈ w.db.outbox, e.id = m.event
  carried : ∀ r, ∀ e ∈ (w.relay r).events, ∃ e' ∈ w.db.outbox, e'.id = e.id ∧ e'.aggregateId = e.aggregateId
  sent : ∀ r e rest, w.relay r = ⟨e::rest,some true⟩ → ∃ m ∈ w.stream, m.event = e.id
  leased : ∀ i id lease, w.phase i = .handling id lease → ∃ m ∈ w.stream, m.id = id ∧ m.taskId = lease.taskId
  queued : ∀ t ∈ w.db.tasks, t.id ≠ "" → t.status = .queued → w.announced t.id ∨ w.anchored t.id
  running : ∀ t ∈ w.db.tasks, t.id ≠ "" → t.status = .running → w.anchored t.id

theorem Sound.tracked {w : World} (sound : Sound w) {t : Task} (member : t ∈ w.db.tasks) (named : t.id ≠ "") :
    Tracked w t := by
  have pending : w.anchored t.id → w.pending t.id := fun ⟨m,there,task,open_,_⟩ => ⟨m,there,task,open_⟩
  unfold Tracked
  split
  · rename_i queued
    rcases sound.queued t member named queued with ⟨e,there,task,published,dead,_⟩ | anchored
    · exact .inl ⟨e,there,task,published,dead⟩
    · exact .inr (pending anchored)
  · rename_i running
    exact pending (sound.running t member named running)
  all_goals trivial

namespace Sound
variable {w w' : World} (sound : Sound w)
include sound

theorem of_batch (batch : WorkerId → List MessageId) : Sound {w with batch} :=
  ⟨sound.spent,sound.sourced,sound.carried,sound.sent,sound.leased,sound.queued,sound.running⟩

/-- A transaction that is no claim. -/
theorem of_traced {db : Db} (traced : Traced w.db db) (spent : DigestsSpent db) : Sound {w with db} where
  spent := spent
  sourced m there := by
    obtain ⟨e,old,id⟩ := sound.sourced m there
    exact ⟨e,traced.kept e old,id⟩
  carried r e there := by
    obtain ⟨e',old,same⟩ := sound.carried r e there
    exact ⟨e',traced.kept e' old,same⟩
  sent := sound.sent
  leased := sound.leased
  queued t there named queued := by
    rcases traced.queued t there queued with ⟨t₀,before,id,queued⟩ | ⟨e,isNew,task,pending,fresh⟩
    · rcases sound.queued t₀ before (id ▸ named) queued with ⟨e,old,task,rest⟩ | anchored
      · exact .inl ⟨e,traced.kept e old,task.trans id,rest⟩
      · exact .inr (id ▸ anchored)
    · refine .inl ⟨e,isNew,task,by rw [pending]; decide,by rw [pending]; decide,?_⟩
      intro m inside same
      obtain ⟨e₀,old,source⟩ := sound.sourced m inside
      exact fresh e₀ old (source.trans same)
  running t there named running := by
    obtain ⟨t₀,before,id,running⟩ := traced.running t there running
    exact id ▸ sound.running t₀ before (id ▸ named) running

theorem enter (i : WorkerId) (p : Phase)
    (leased : ∀ id lease, p = .handling id lease → ∃ m ∈ w.stream, m.id = id ∧ m.taskId = lease.taskId)
    (done : ∀ id, p = .acking id → ∀ m ∈ w.stream, m.id = id → ∀ t ∈ w.db.tasks, t.id = m.taskId → t.id ≠ "" →
      t.status ≠ .queued ∧ t.status ≠ .running) : Sound (w.enter i p) := by
  have anchored : ∀ t ∈ w.db.tasks, t.id ≠ "" → t.status = .queued ∨ t.status = .running → w.anchored t.id →
      (w.enter i p).anchored t.id := by
    rintro t member named active ⟨m,there,task,open_,busy⟩
    refine ⟨m,there,task,open_,?_⟩
    intro j consumer acking
    by_cases same : j = i
    · subst same
      rw [World.enter_self] at acking
      obtain ⟨notQueued,notRunning⟩ := done m.id acking m there rfl t member task.symm named
      rcases active with queued | running
      · exact notQueued queued
      · exact notRunning running
    · rw [World.enter_other w p same] at acking
      exact busy j consumer acking
  refine ⟨sound.spent,sound.sourced,sound.carried,sound.sent,?_,?_,?_⟩
  · intro j id lease handling
    by_cases same : j = i
    · subst same
      rw [World.enter_self] at handling
      exact leased id lease handling
    · rw [World.enter_other w p same] at handling
      exact sound.leased j id lease handling
  · intro t member named queued
    rcases sound.queued t member named queued with announced | still
    · exact .inl announced
    · exact .inr (anchored t member named (.inl queued) still)
  · exact fun t member named running => anchored t member named (.inr running) (sound.running t member named running)

theorem pause (i : WorkerId) {p : Phase} (handling : ∀ id lease, p ≠ .handling id lease) (acking : ∀ id, p ≠ .acking id) :
    Sound (w.enter i p) :=
  sound.enter i p (fun id lease same => absurd same (handling id lease)) (fun id same => absurd same (acking id))

theorem crash (i : WorkerId) : Sound (w.crash i) :=
  (sound.pause i (p := .idle) nofun nofun).of_batch _

/-! ### The relay -/

theorem of_outbox {outbox : Table OutboxEvent.id} {N : OutboxEvent → Prop} (none : ∀ e, ¬ N e)
    (evolves : Table.Evolves (fun e e' => e'.aggregateId = e.aggregateId ∧
      ((e'.status ≠ .published ∧ e'.status ≠ .dead) ∨ (e.status ≠ .published ∧ e.status ≠ .dead →
        ∃ m ∈ w.stream, m.event = e.id))) N w.db.outbox outbox) :
    Sound {w with db := {w.db with outbox}} where
  spent e' there id n digest := by
    rcases evolves.origin e' there with ⟨e,old,same,_⟩ | isNew
    · exact sound.spent e old id n (same ▸ digest)
    · exact absurd isNew (none e')
  sourced m there := by
    obtain ⟨e,old,source⟩ := sound.sourced m there
    obtain ⟨e',isNew,same,_⟩ := evolves.kept e old
    exact ⟨e',isNew,same.trans source⟩
  carried r e there := by
    obtain ⟨e₀,old,id,task⟩ := sound.carried r e there
    obtain ⟨e',isNew,same,task',_⟩ := evolves.kept e₀ old
    exact ⟨e',isNew,same.trans id,task'.trans task⟩
  sent := sound.sent
  leased := sound.leased
  queued t member named queued := by
    rcases sound.queued t member named queued with ⟨e,old,task,published,dead,unsent⟩ | anchored
    · obtain ⟨e',isNew,same,task',⟨published',dead'⟩ | out⟩ := evolves.kept e old
      · exact .inl ⟨e',isNew,task'.trans task,published',dead',fun m there => same ▸ unsent m there⟩
      · obtain ⟨m,there,source⟩ := out ⟨published,dead⟩
        exact absurd source (unsent m there)
    · exact .inr anchored
  running := sound.running

theorem relayed (r : String) (s : Relaying)
    (carried : ∀ e ∈ s.events, ∃ e' ∈ w.db.outbox, e'.id = e.id ∧ e'.aggregateId = e.aggregateId)
    (sent : ∀ e rest, s = ⟨e::rest,some true⟩ → ∃ m ∈ w.stream, m.event = e.id) : Sound (w.relayed r s) := by
  refine ⟨sound.spent,sound.sourced,?_,?_,sound.leased,sound.queued,sound.running⟩
  · intro q e there
    by_cases same : q = r
    · subst same
      rw [World.relayed_self] at there
      exact carried e there
    · rw [World.relayed_other w s same] at there
      exact sound.carried q e there
  · intro q e rest first
    by_cases same : q = r
    · subst same
      rw [World.relayed_self] at first
      exact sent e rest first
    · rw [World.relayed_other w s same] at first
      exact sound.sent q e rest first

theorem add {id : MessageId} {e : OutboxEvent} (source : ∃ e' ∈ w.db.outbox, e'.id = e.id ∧ e'.aggregateId = e.aggregateId)
    (ok : w.add id e = some w') : Sound w' ∧ w'.db = w.db ∧ w'.relay = w.relay ∧ ∃ m ∈ w'.stream, m.event = e.id := by
  obtain ⟨stream,inserted,rfl⟩ := Option.map_eq_some_iff.mp ok
  have kept : ∀ m ∈ w.stream, m ∈ stream := fun m there => (Table.mem_insert inserted).mpr (.inl there)
  have isNew := (Table.mem_insert inserted).mpr (.inr rfl)
  have anchored : ∀ task, w.anchored task → World.anchored {w with stream} task :=
    fun task ⟨m,there,rest⟩ => ⟨m,kept m there,rest⟩
  refine ⟨⟨sound.spent,?_,sound.carried,?_,?_,?_,?_⟩,rfl,rfl,_,isNew,rfl⟩
  · intro m there
    rcases (Table.mem_insert inserted).mp there with old | rfl
    · exact sound.sourced m old
    · obtain ⟨e',inside,id,_⟩ := source
      exact ⟨e',inside,id⟩
  · intro r f rest first
    obtain ⟨m,there,from_⟩ := sound.sent r f rest first
    exact ⟨m,kept m there,from_⟩
  · intro i id lease handling
    obtain ⟨m,there,rest⟩ := sound.leased i id lease handling
    exact ⟨m,kept m there,rest⟩
  · intro t member named queued
    rcases sound.queued t member named queued with ⟨f,old,task,published,dead,unsent⟩ | still
    · by_cases same : f.id = e.id
      · -- the first publication of the event: its message takes over
        obtain ⟨e',inside,id,task'⟩ := source
        have equal : f = e' := w.db.outbox.unique old inside (same.trans id.symm)
        exact .inr ⟨_,isNew,by rw [← task,equal]; exact task'.symm,rfl,nofun⟩
      · refine .inl ⟨f,old,task,published,dead,?_⟩
        intro m there
        rcases (Table.mem_insert inserted).mp there with before | rfl
        · exact unsent m before
        · exact fun equal => same equal.symm
    · exact .inr (anchored _ still)
  · exact fun t member named running => anchored _ (sound.running t member named running)

/-! ### Delivery and acknowledgement -/

theorem setMessage {m : Message} (m' : Message) (there : m ∈ w.stream) (id : m'.id = m.id) (event : m'.event = m.event)
    (task : m'.taskId = m.taskId)
    (anchored : ∀ t ∈ w.db.tasks, t.id ≠ "" → t.id = m.taskId → t.status = .queued ∨ t.status = .running →
      (m.acked = false ∧ ∀ i, m.consumer = some i → w.phase i ≠ .acking m.id) →
      m'.acked = false ∧ ∀ i, m'.consumer = some i → w.phase i ≠ .acking m.id) : Sound (w.setMessage m') := by
  have found : ∀ n ∈ w.stream, ∃ n' ∈ (w.setMessage m').stream, n'.id = n.id ∧ n'.event = n.event ∧
      n'.taskId = n.taskId ∧ (n.id ≠ m.id → n' = n) ∧ (n.id = m.id → n' = m') := by
    intro n inside
    by_cases same : n.id = m.id
    · have equal := w.stream.unique inside there same
      subst equal
      exact ⟨m',Table.mem_put.mpr (.inr ⟨rfl,n,inside,id.symm⟩),id,event,task,fun other => absurd rfl other,fun _ => rfl⟩
    · exact ⟨n,Table.mem_put.mpr (.inl ⟨inside,id ▸ same⟩),rfl,rfl,rfl,fun _ => rfl,fun equal => absurd equal same⟩
  have origin : ∀ n' ∈ (w.setMessage m').stream, ∃ n ∈ w.stream, n.event = n'.event := by
    intro n' inside
    rcases Table.mem_put.mp inside with ⟨old,_⟩ | ⟨rfl,_⟩
    · exact ⟨n',old,rfl⟩
    · exact ⟨m,there,event.symm⟩
  have still : ∀ t ∈ w.db.tasks, t.id ≠ "" → t.status = .queued ∨ t.status = .running → w.anchored t.id →
      (w.setMessage m').anchored t.id := by
    rintro t member named active ⟨n,inside,names,open_,busy⟩
    obtain ⟨n',after,id',_,task',other,hit⟩ := found n inside
    by_cases same : n.id = m.id
    · have equal := w.stream.unique inside there same
      subst equal
      obtain ⟨open_,busy⟩ := anchored t member named names.symm active ⟨open_,busy⟩
      rw [hit rfl] at after id' task'
      exact ⟨m',after,task'.trans names,open_,by rw [id']; exact busy⟩
    · rw [other same] at after
      exact ⟨n,after,names,open_,busy⟩
  refine ⟨sound.spent,?_,sound.carried,?_,?_,?_,?_⟩
  · intro n' inside
    obtain ⟨n,old,event⟩ := origin n' inside
    obtain ⟨e,source,same⟩ := sound.sourced n old
    exact ⟨e,source,same.trans event⟩
  · intro r e rest first
    obtain ⟨n,inside,source⟩ := sound.sent r e rest first
    obtain ⟨n',after,_,event',_⟩ := found n inside
    exact ⟨n',after,event'.trans source⟩
  · intro i id lease handling
    obtain ⟨n,inside,same,names⟩ := sound.leased i id lease handling
    obtain ⟨n',after,id',_,task',_⟩ := found n inside
    exact ⟨n',after,id'.trans same,task'.trans names⟩
  · intro t member named queued
    rcases sound.queued t member named queued with ⟨e,old,names,published,dead,unsent⟩ | anchored
    · refine .inl ⟨e,old,names,published,dead,?_⟩
      intro n' inside
      obtain ⟨n,before,event⟩ := origin n' inside
      exact event ▸ unsent n before
    · exact .inr (still t member named (.inl queued) anchored)
  · exact fun t member named running => still t member named (.inr running) (sound.running t member named running)

end Sound

/-! ### The steps -/

theorem rootTask_silent {host : Host} {c : Command} {s : Space} {m : InboxMessage}
    (silent : (c.rootTask host s m).publish = false) : (c.rootTask host s m).initialStatus = .blocked := by
  have two : (c.rootTask host s m).initialStatus = .blocked ∨ (c.rootTask host s m).initialStatus = .queued :=
    ite_eq_or_eq _ _ _
  rcases two with blocked | queued
  · exact blocked
  · have publish : (c.rootTask host s m).publish = decide ((c.rootTask host s m).initialStatus = .queued) := rfl
    rw [publish,queued] at silent
    cases silent

theorem mem_claimableEvents {db : Db} {limit : Int} {eventIds : Option (List EventId)} {now : Time} {e : OutboxEvent}
    (claimable : e ∈ claimableEvents db limit eventIds now) : e ∈ db.outbox := by
  have inside := List.mem_of_mem_take claimable
  rw [List.mem_insertionSort,List.mem_filter] at inside
  exact inside.1

section Steps
variable {w w' : World} (sound : Sound w)
include sound

theorem sound_dispatch {host : Host} {op : Op} {now : Time} (external : ofWorker op = false)
    (fitting : Fitting w (.dispatch op now)) : Sound {w with db := (outcome host w.db w.db now op).1} := by
  have quiet : (op.scope host).Quiet := by
    refine ⟨?_,?_⟩
    · cases op <;> first | exact id | cases external
    · intro new created silent
      cases op <;> try exact created.elim
      case receiveCommand c draws =>
        obtain ⟨s,m,rfl⟩ := created
        rw [rootTask_silent silent]
        exact ⟨nofun,nofun⟩
      case enqueueTask given taskId uuid =>
        obtain ⟨spaceId,rfl⟩ := created
        exact fitting silent
  have step := step_after host w.db now op
  obtain ⟨traced,spent⟩ := traced_writes (writes_step step.overlapped) quiet sound.spent
  exact sound.of_traced traced spent

theorem sound_claimBatch (r : String) (limit : Int) (eventIds : Option (List EventId)) (leaseSeconds : Int)
    (token : EventId → String) (now : Time) :
    Sound (({w with db := (claimOutboxBatch w.db r limit eventIds leaseSeconds token now).1} : World).relayed r
      {events := (claimOutboxBatch w.db r limit eventIds leaseSeconds token now).2}) := by
  have claimed : Sound {w with db := (claimOutboxBatch w.db r limit eventIds leaseSeconds token now).1} := by
    refine sound.of_outbox (fun _ => id) (.of_updateWhere rfl ?_ ?_)
    · exact fun e _ _ => ⟨rfl,rfl,.inl ⟨nofun,nofun⟩⟩
    · intro e _ _
      by_cases open_ : e.status ≠ .published ∧ e.status ≠ .dead
      · exact ⟨rfl,.inl open_⟩
      · exact ⟨rfl,.inr (fun still => absurd still open_)⟩
  refine claimed.relayed r _ ?_ (fun e rest same => nomatch congrArg Relaying.published same)
  intro e' there
  obtain ⟨e,inside,rfl⟩ := List.mem_map.mp there
  have old := mem_claimableEvents inside
  refine ⟨_,List.mem_map.mpr ⟨e,old,rfl⟩,?_,?_⟩ <;> split <;> rfl

theorem sound_mark {r : String} {e : OutboxEvent} {rest : List OutboxEvent} {published : Bool} {error : String} {now : Time}
    (first : w.relay r = ⟨e::rest,some published⟩) (patient : Patient w (.markBatch r error now)) :
    Sound (({w with db := if published then (markOutboxPublished w.db e.id (e.leaseToken.getD "") now).1
      else (markOutboxFailed w.db e.id (e.leaseToken.getD "") error now).1} : World).relayed r ⟨rest,none⟩) := by
  have held : ∀ {f : OutboxEvent}, f.heldWith e.id (e.leaseToken.getD "") → f.id = e.id := by
    intro f holds
    simp only [OutboxEvent.heldWith,Bool.and_eq_true,decide_eq_true_eq] at holds
    exact holds.1.1
  have untouched : ∀ f : OutboxEvent, f.aggregateId = f.aggregateId ∧ ((f.status ≠ .published ∧ f.status ≠ .dead) ∨
      (f.status ≠ .published ∧ f.status ≠ .dead → ∃ m ∈ w.stream, m.event = f.id)) := by
    intro f
    by_cases open_ : f.status ≠ .published ∧ f.status ≠ .dead
    · exact ⟨rfl,.inl open_⟩
    · exact ⟨rfl,.inr (fun still => absurd still open_)⟩
  have marked : Sound {w with db := if published then (markOutboxPublished w.db e.id (e.leaseToken.getD "") now).1
      else (markOutboxFailed w.db e.id (e.leaseToken.getD "") error now).1} := by
    cases published with
    | true =>
      refine sound.of_outbox (fun _ => id) (.of_updateWhere rfl ?_ (fun f _ _ => untouched f))
      intro f _ hit
      obtain ⟨m,there,source⟩ := sound.sent r e rest first
      exact ⟨rfl,rfl,.inr (fun _ => ⟨m,there,source.trans (held hit).symm⟩)⟩
    | false =>
      refine sound.of_outbox (fun _ => id) (.of_updateWhere rfl ?_ (fun f _ _ => untouched f))
      intro f there hit
      have left := patient e rest first f there hit
      refine ⟨rfl,rfl,.inl ?_⟩
      simp only [OutboxEvent.refused,left]
      exact ⟨nofun,nofun⟩
  refine marked.relayed r _ ?_ (fun f rest same => nomatch congrArg Relaying.published same)
  intro f there
  have before : f ∈ (w.relay r).events := by
    rw [first]
    exact List.mem_cons_of_mem e there
  obtain ⟨f',inside,same⟩ := marked.carried r f before
  exact ⟨f',inside,same⟩

theorem sound_publish {r : String} {e : OutboxEvent} {rest : List OutboxEvent} {id : MessageId}
    (first : w.relay r = ⟨e::rest,none⟩) (ok : w.add id e = some w') (published : Bool) :
    Sound (w'.relayed r ⟨e::rest,some published⟩) := by
  have source := sound.carried r e (by rw [first]; exact List.mem_cons_self ..)
  obtain ⟨added,db,relay,message⟩ := sound.add source ok
  refine added.relayed r _ ?_ ?_
  · intro f there
    have before : f ∈ (w'.relay r).events := by
      rw [relay,first]
      exact there
    exact added.carried r f before
  · intro f rest' same
    obtain ⟨rfl,_⟩ := List.cons.inj (congrArg Relaying.events same)
    exact message

theorem sound_claimed {i : WorkerId} {m : Message} {t : Task} {worker token : String} {expires now : Time}
    {attempts : Table TaskAttempt.key} (there : m ∈ w.stream) (phase : w.phase i = .received m.id)
    (held : w.holds i m.id) (member : t ∈ w.db.tasks) (same : t.id = m.taskId) :
    Sound (({w with db := {w.db with tasks := w.db.tasks.put (t.claimed worker token expires now),attempts}} :
      World).enter i (.handling m.id (t.claimed worker token expires now).lease)) := by
  obtain ⟨m',inside,id,open_,consumer⟩ := held
  obtain rfl : m' = m := w.stream.unique inside there id
  generalize after : ({w with db := {w.db with tasks := w.db.tasks.put (t.claimed worker token expires now),attempts}} :
    World).enter i (.handling m'.id (t.claimed worker token expires now).lease) = w₁
  have self : w₁.phase i = .handling m'.id (t.claimed worker token expires now).lease := by
    rw [← after,World.enter_self]
  have other : ∀ j, j ≠ i → w₁.phase j = w.phase j := by
    intro j apart
    rw [← after,World.enter_other _ _ apart]
  have stream : w₁.stream = w.stream := by rw [← after]; rfl
  have outbox : w₁.db.outbox = w.db.outbox := by rw [← after]; rfl
  have tasks : w₁.db.tasks = w.db.tasks.put (t.claimed worker token expires now) := by rw [← after]; rfl
  have relay : w₁.relay = w.relay := by rw [← after]; rfl
  have anchored : ∀ task, w.anchored task → w₁.anchored task := by
    rintro task ⟨n,inside,names,open_,busy⟩
    refine ⟨n,stream ▸ inside,names,open_,?_⟩
    intro j consumer
    by_cases mine : j = i
    · rw [mine,self]
      exact nofun
    · rw [other j mine]
      exact busy j consumer
  constructor
  · intro e inside id n digest
    rw [outbox] at inside
    obtain ⟨u,old,names,off⟩ := sound.spent e inside id n digest
    rw [tasks]
    by_cases equal : u.id = t.id
    · exact ⟨_,Table.mem_put.mpr (.inr ⟨rfl,t,member,rfl⟩),equal.symm.trans names,nofun⟩
    · exact ⟨u,Table.mem_put.mpr (.inl ⟨old,equal⟩),names,off⟩
  · rw [stream,outbox]
    exact sound.sourced
  · rw [relay,outbox]
    exact sound.carried
  · rw [relay,stream]
    exact sound.sent
  · intro j id lease handling
    rw [stream]
    by_cases mine : j = i
    · rw [mine,self] at handling
      cases handling
      exact ⟨m',there,rfl,same.symm⟩
    · rw [other j mine] at handling
      exact sound.leased j id lease handling
  · intro u inside named queued
    rw [tasks] at inside
    rcases Table.mem_put.mp inside with ⟨old,_⟩ | ⟨rfl,_⟩
    · rcases sound.queued u old named queued with announced | still
      · unfold World.announced
        rw [outbox,stream]
        exact .inl announced
      · exact .inr (anchored _ still)
    · cases queued
  · intro u inside named running
    rw [tasks] at inside
    rcases Table.mem_put.mp inside with ⟨old,_⟩ | ⟨rfl,_⟩
    · exact anchored _ (sound.running u old named running)
    · refine ⟨m',stream ▸ there,same.symm,open_,?_⟩
      intro j holder
      obtain rfl : i = j := Option.some.inj (consumer.symm.trans holder)
      rw [self]
      exact nofun

theorem sound_claim {host : Host} {i : WorkerId} {m : Message} {leaseToken : String} {leaseSeconds : Int}
    {now : Time} {db : Db} {row : Option Task} (there : m ∈ w.stream) (phase : w.phase i = .received m.id)
    (held : w.holds i m.id)
    (step : outcome host w.db w.db now (.claimTask m.taskId i leaseToken leaseSeconds) = (db,.claimed row)) :
    Sound (({w with db} : World).enter i (match row with
      | some t => .handling m.id t.lease
      | none => .refused m.id)) := by
  rcases outcome_cases step with ok | ⟨_,_,raised⟩
  swap
  · cases raised
  simp only [perform,Option.map_eq_some_iff,Prod.map,Prod.mk.injEq,Prod.exists,id_eq,Reply.claimed.injEq] at ok
  obtain ⟨_,_,ok,rfl,rfl⟩ := ok
  rcases claimTask_spec ok with ⟨rfl,rfl⟩ | ⟨t,member,same,_,_,rfl,attempts,rfl⟩
  · exact sound.pause i (by simp) (by simp)
  · exact sound_claimed sound there phase held member same

omit sound in
theorem finish_ends {host : Host} {db db' : Db} {now : Time} {lease : Lease} {result : HandlerResult} {reply : Reply}
    (step : outcome host db db now (result.op lease) = (db',reply)) (settled : settles reply) :
    ∀ t ∈ db'.tasks, t.id = lease.taskId → t.status ≠ .queued ∧ t.status ≠ .running := by
  have past : ∀ {db₁ : Db} (t t' : Task), t ∈ db.tasks → t'.id = t.id → t.id = lease.taskId → t'.status.over →
      db₁.tasks = db.tasks.put t' → Writes ⟨fun _ => False,False⟩ now db₁ db' →
      ∀ u ∈ db'.tasks, u.id = lease.taskId → u.status ≠ .queued ∧ u.status ≠ .running := by
    intro db₁ t t' member id names past tasks writes u there same
    have inside : t' ∈ db₁.tasks := by
      rw [tasks]
      exact Table.mem_put.mpr (.inr ⟨rfl,t,member,id.symm⟩)
    obtain ⟨v,after,id',ended⟩ := writes_over writes inside past
    rw [db'.tasks.unique there after (same.trans (names.symm.trans (id.symm.trans id'.symm)))]
    rcases ended with is | is | is <;> rw [is] <;> exact ⟨nofun,nofun⟩
  have still : ∀ (t t' : Task), t ∈ db.tasks → t'.id = t.id → t.id = lease.taskId → t'.status = .retry →
      db'.tasks = db.tasks.put t' → ∀ u ∈ db'.tasks, u.id = lease.taskId → u.status ≠ .queued ∧ u.status ≠ .running := by
    intro t t' member id names retry tasks u there same
    rw [tasks] at there
    rw [(db.tasks.put t').unique there (Table.mem_put.mpr (.inr ⟨rfl,t,member,id.symm⟩))
      (same.trans (names.symm.trans id.symm)),retry]
    exact ⟨nofun,nofun⟩
  have named {t : Task} (owned : t.ownedBy lease now) : t.id = lease.taskId :=
    (Task.claimedBy?_spec (Task.ownedBy_claimed owned)).1
  rcases outcome_cases step with ok | ⟨_,_,rfl⟩
  swap
  · cases settled
  cases result <;> simp only [HandlerResult.op,perform,Option.map_eq_some_iff,Option.some.injEq,Prod.map,Prod.mk.injEq,
    Prod.exists,id_eq] at ok
  case outcome o uuid =>
    obtain ⟨_,_,ok,rfl,rfl⟩ := ok
    rcases writes_complete ok with ⟨rfl,_⟩ | ⟨rfl,t,member,owned,writes⟩
    · cases settled
    · exact past t (t.completed now) member rfl (named owned) (.inl rfl) rfl writes
  case retryLater reason delay =>
    generalize deferred : deferTask db lease reason delay now = r at ok
    obtain ⟨_,done⟩ := r
    obtain ⟨rfl,rfl⟩ := ok
    rcases deferTask_spec deferred with ⟨rfl,_⟩ | ⟨_,t,member,owned,_,rfl⟩
    · cases settled
    · exact still t (t.deferred reason (retryTime delay now)) member rfl (named owned) rfl rfl
  case failed error delay uuid =>
    obtain ⟨_,_,ok,rfl,rfl⟩ := ok
    rcases failTask_spec ok with ⟨rfl,_⟩ | ⟨t,member,owned,⟨rfl,left,rfl⟩ | ⟨rfl,exhausted,_⟩⟩
    · cases settled
    · exact still t (t.failed error (retryTime delay now) now) member rfl (named owned) (by simp [Task.failed,left]) rfl
    · rcases writes_fail ok with ⟨stale,_⟩ | ⟨_,u,member',owned',writes⟩
      · cases stale
      · obtain rfl : u = t := db.tasks.unique member' member ((named owned').trans (named owned).symm)
        exact past u (u.failed error (retryTime delay now) now) member rfl (named owned)
          (.inr (.inl (by simp [Task.failed,exhausted]))) rfl writes

theorem sound_finish {host : Host} {i : WorkerId} {id : MessageId} {lease : Lease} {result : HandlerResult} {now : Time}
    {db : Db} {reply : Reply} (phase : w.phase i = .handling id lease)
    (step : outcome host w.db w.db now (result.op lease) = (db,reply)) :
    Sound (if reply = .raised then w.crash i
      else if settles reply then ({w with db} : World).enter i (.acking id)
      else ({w with db} : World).enter i .idle) := by
  have performed : Dispatch.Step host w.db ⟨result.op lease,now,reply⟩ db := step
  have quiet : ((result.op lease).scope host).Quiet := by
    cases result <;> exact ⟨fun claims => claims,fun _ created => created.elim⟩
  obtain ⟨traced,spent⟩ := traced_writes (writes_step performed.overlapped) quiet sound.spent
  have after := sound.of_traced traced spent
  split
  · exact sound.crash i
  split
  · rename_i settled
    refine after.enter i _ nofun ?_
    intro k acking m there same t member names named
    obtain rfl := Phase.acking.inj acking
    subst same
    obtain ⟨m',inside,id,task⟩ := sound.leased i m.id lease phase
    obtain rfl : m' = m := w.stream.unique inside there id
    exact finish_ends step settled t member (names.trans task)
  · exact after.pause i nofun nofun

theorem sound_step {host : Host} {e : Event} (patient : Patient w e) (fitting : Fitting w e) (step : Step host w e w') :
    Sound w' := by
  unfold Step at step
  cases e with
  | dispatch op now =>
    simp only [next] at step
    split at step
    · cases step
    · rename_i external
      cases step
      exact sound_dispatch sound (by simpa using external) fitting
  | claimBatch r limit eventIds leaseSeconds token now =>
    simp only [next] at step
    split at step
    · cases step
      exact sound_claimBatch sound r limit eventIds leaseSeconds token now
    · cases step
  | publish r id =>
    simp only [next] at step
    split at step
    · rename_i e rest first
      obtain ⟨w₁,ok,rfl⟩ := Option.map_eq_some_iff.mp step
      exact sound_publish sound first ok true
    · cases step
  | publishFails r added =>
    simp only [next] at step
    split at step
    · rename_i e rest first
      obtain ⟨w₁,ok,rfl⟩ := Option.map_eq_some_iff.mp step
      cases added with
      | none =>
        cases ok
        refine sound.relayed r _ ?_ (fun f rest same => by cases same)
        intro f there
        exact sound.carried r f (by rw [first]; exact there)
      | some id => exact sound_publish sound first ok false
    · cases step
  | markBatch r error now =>
    simp only [next] at step
    split at step
    · rename_i e rest first
      cases step
      exact sound_mark sound first patient
    · rename_i e rest first
      cases step
      exact sound_mark sound first patient
    · cases step
  | relayCrashes r =>
    cases step
    exact sound.relayed r _ (fun _ there => absurd there List.not_mem_nil) (fun e rest same => by cases same)
  | deliver i id =>
    simp only [next] at step
    split at step
    · rename_i m idle found
      obtain ⟨there,same⟩ := Table.find?_eq_some.mp found
      split at step
      · cases step
      · cases step
        refine (sound.setMessage {m with consumer := some i} there rfl rfl rfl ?_).of_batch _
        intro t _ _ _ _ anchored
        refine ⟨anchored.1,fun j holder => ?_⟩
        obtain rfl := Option.some.inj holder
        rw [idle]
        simp
    · cases step
  | start i =>
    simp only [next] at step
    split at step
    · rename_i id rest idle first
      obtain ⟨m,found,rfl⟩ := Option.map_eq_some_iff.mp step
      obtain ⟨there,same⟩ := Table.find?_eq_some.mp found
      refine Sound.of_batch ?_ _
      split
      · rename_i nameless
        refine sound.enter i _ (by simp) ?_
        intro k acking n inside equal t member names named
        obtain rfl := Phase.acking.inj acking
        rw [w.stream.unique inside there (equal.trans same.symm),nameless] at names
        exact absurd names named
      · exact sound.pause i (by simp) (by simp)
    · cases step
  | claim i leaseToken leaseSeconds now =>
    simp only [next] at step
    split at step
    · rename_i id phase
      obtain ⟨m,found,rfl⟩ := Option.map_eq_some_iff.mp step
      obtain ⟨there,rfl⟩ := Table.find?_eq_some.mp found
      have held := fitting m.id phase
      generalize ran : outcome host w.db w.db now (.claimTask m.taskId i leaseToken leaseSeconds) = r
      obtain ⟨db,reply⟩ := r
      dsimp only
      split
      · exact sound_claim sound there phase held ran
      · exact sound_claim sound there phase held ran
      · exact sound.crash i
    · cases step
  | readStatus i =>
    simp only [next] at step
    split at step
    · rename_i id phase
      obtain ⟨m,found,rfl⟩ := Option.map_eq_some_iff.mp step
      obtain ⟨there,same⟩ := Table.find?_eq_some.mp found
      split
      · rename_i past
        refine sound.enter i _ (by simp) ?_
        intro k acking n inside equal t member names _
        obtain rfl := Phase.acking.inj acking
        obtain rfl := w.stream.unique inside there (equal.trans same.symm)
        rw [← names,Table.find?_mem member] at past
        simpa [acknowledgeable] using past
      · exact sound.pause i (by simp) (by simp)
    · cases step
  | finish i result now =>
    simp only [next] at step
    split at step
    · rename_i id lease phase
      cases step
      exact sound_finish sound phase rfl
    · cases step
  | acknowledge i =>
    simp only [next] at step
    split at step
    · rename_i id phase
      obtain ⟨m,found,rfl⟩ := Option.map_eq_some_iff.mp step
      obtain ⟨there,rfl⟩ := Table.find?_eq_some.mp found
      obtain ⟨m',inside,same,_,consumer⟩ := fitting m.id phase
      obtain rfl : m' = m := w.stream.unique inside there same
      -- its own consumer is at it, so nothing rests on this message
      refine Sound.pause (sound.setMessage {m' with acked := true} there rfl rfl rfl ?_) i (by simp) (by simp)
      exact fun t _ _ _ _ anchored => absurd phase (anchored.2 i consumer)
    · cases step
  | workerCrashes i =>
    cases step
    exact sound.crash i

end Steps

/-! ### Runs -/

theorem sound_empty : Sound {} where
  spent e there := absurd there (Table.not_mem_empty e)
  sourced m there := absurd there (Table.not_mem_empty m)
  carried _ _ there := nomatch there
  sent _ _ _ first := nomatch congrArg Relaying.events first
  leased _ _ _ handling := nomatch handling
  queued t there := absurd there (Table.not_mem_empty t)
  running t there := absurd there (Table.not_mem_empty t)

/-- In every run that keeps to its messages, every task is blocked, in retry, over,
or named by an event to publish or a pending message. -/
theorem no_task_lost (host : Host) {events : List Event} {w : World}
    (run : Run (Guarded (fun w e => Patient w e ∧ Fitting w e) (Step host)) {} events w) {t : Task}
    (member : t ∈ w.db.tasks) (named : t.id ≠ "") : Tracked w t := by
  have sound := run.invariant Sound
    (fun _ _ _ sound step => sound_step sound step.1.1 step.1.2 step.2) sound_empty
  exact sound.tracked member named

/-! ### A task whose message another worker acknowledges -/

def memoryTask : NewTask where
  taskType := "memory"
  spaceId := "room"
  idempotencyKey := "memory:om_1"
  payload := {}

/-- A task is enqueued, its event is published, and a first worker runs it. -/
def running : List Event :=
  [.dispatch (.enqueueTask memoryTask "task_1" 1) 0,.claimBatch "relay" 10 none 60 (fun _ => "r") 1,
    .publish "relay" 1,.markBatch "relay" "" 2,.deliver "first" 1,.start "first",.claim "first" "a" 300 3]

/-- The handler defers the task. Before the first worker acknowledges, a second
one reclaims the message and claims the task, whose delay is over. -/
def acknowledgedLate : List Event :=
  [.finish "first" (.retryLater "memory_lock_contention" 0) 4,.deliver "second" 1,.start "second",
    .claim "second" "b" 300 200,.acknowledge "first"]

def World.after (w : World) (events : List Event) : World := (events.foldlM (next asciiHost) w).getD w

theorem task_lost : ¬ ∀ (host : Host) (events : List Event) (w : World),
    Run (Guarded Patient (Step host)) {} events w → ∀ t ∈ w.db.tasks, t.id ≠ "" → Tracked w t := by
  intro tracked
  have run : Run (Guarded Patient (Step asciiHost)) {} (running ++ acknowledgedLate)
      (({} : World).after (running ++ acknowledgedLate)) :=
    .cons ⟨trivial,rfl⟩ <| .cons ⟨trivial,rfl⟩ <| .cons ⟨trivial,rfl⟩ <| .cons ⟨fun _ _ sent => absurd sent nofun,rfl⟩ <|
    .cons ⟨trivial,rfl⟩ <| .cons ⟨trivial,rfl⟩ <| .cons ⟨trivial,rfl⟩ <| .cons ⟨trivial,rfl⟩ <|
    .cons ⟨trivial,rfl⟩ <| .cons ⟨trivial,rfl⟩ <| .cons ⟨trivial,rfl⟩ <| .cons ⟨trivial,rfl⟩ <| .nil _
  obtain ⟨m,there,_,unacked⟩ := tracked asciiHost _ _ run _ (List.Mem.head _) (by decide)
  obtain rfl := List.mem_singleton.mp there
  cases unacked

/-- The first worker alone, up to its claim. -/
theorem no_task_lost_running : ∃ t ∈ (({} : World).after running).db.tasks, t.status = .running ∧
    Tracked (({} : World).after running) t := by
  have run : Run (Guarded (fun w e => Patient w e ∧ Fitting w e) (Step asciiHost)) {} running
      (({} : World).after running) :=
    .cons ⟨⟨trivial,fun silent => absurd silent nofun⟩,rfl⟩ <| .cons ⟨⟨trivial,trivial⟩,rfl⟩ <|
    .cons ⟨⟨trivial,trivial⟩,rfl⟩ <| .cons ⟨⟨fun _ _ sent => absurd sent nofun,trivial⟩,rfl⟩ <|
    .cons ⟨⟨trivial,trivial⟩,rfl⟩ <| .cons ⟨⟨trivial,trivial⟩,rfl⟩ <|
    .cons ⟨⟨trivial,fun id received => Phase.received.inj received ▸ ⟨_,List.Mem.head _,rfl,rfl,rfl⟩⟩,rfl⟩ <| .nil _
  exact ⟨_,List.Mem.head _,rfl,no_task_lost asciiHost run (List.Mem.head _) (by decide)⟩

end Suixinji.Streams
