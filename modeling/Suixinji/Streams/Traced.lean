import Suixinji.Dispatch.Writes

/-! Tasks and their events across the transactions: a task that becomes queued gets a
new event, and only a claim makes one run. -/
namespace Suixinji.Dispatch
open Suixinji.Relational Suixinji.Transition Relation

/-- `db'` has every event of `db`; a queued task of `db'` was queued before or has a
new event, and a running one ran before. -/
structure Traced (db db' : Db) : Prop where
  kept : ∀ e ∈ db.outbox, e ∈ db'.outbox
  queued : ∀ t' ∈ db'.tasks, t'.status = .queued → (∃ t ∈ db.tasks, t.id = t'.id ∧ t.status = .queued) ∨
    ∃ e ∈ db'.outbox, e.aggregateId = t'.id ∧ e.status = .pending ∧ ∀ e₀ ∈ db.outbox, e₀.id ≠ e.id
  running : ∀ t' ∈ db'.tasks, t'.status = .running → ∃ t ∈ db.tasks, t.id = t'.id ∧ t.status = .running

namespace Traced
variable {db db₁ db' : Db}

theorem refl (db : Db) : Traced db db :=
  ⟨fun _ there => there,fun t there queued => .inl ⟨t,there,rfl,queued⟩,fun t there running => ⟨t,there,rfl,running⟩⟩

theorem trans (first : Traced db db₁) (second : Traced db₁ db') : Traced db db' where
  kept e there := second.kept e (first.kept e there)
  queued t' there queued := by
    rcases second.queued t' there queued with ⟨t,before,id,queued⟩ | ⟨e,isNew,task,pending,fresh⟩
    · rcases first.queued t before queued with ⟨t₀,earlier,same,queued⟩ | ⟨e,isNew,task,pending,fresh⟩
      · exact .inl ⟨t₀,earlier,same.trans id,queued⟩
      · exact .inr ⟨e,second.kept e isNew,task.trans id,pending,fresh⟩
    · exact .inr ⟨e,isNew,task,pending,fun e₀ old => fresh e₀ (first.kept e₀ old)⟩
  running t' there running := by
    obtain ⟨t,before,id,running⟩ := second.running t' there running
    obtain ⟨t₀,earlier,same,running⟩ := first.running t before running
    exact ⟨t₀,earlier,same.trans id,running⟩

theorem of_rows (outbox : db'.outbox = db.outbox) (rows : ∀ t' ∈ db'.tasks, ∀ status : TaskStatus,
    status = .queued ∨ status = .running → t'.status = status → ∃ t ∈ db.tasks, t.id = t'.id ∧ t.status = status) :
    Traced db db' where
  kept _ there := outbox ▸ there
  queued t' there queued := .inl (rows t' there .queued (.inl rfl) queued)
  running t' there running := rows t' there .running (.inr rfl) running

theorem of_requeued {rows : List Task} {event : Task → OutboxEvent}
    (tasks : db'.tasks.rows = db.tasks.rows.map (Task.requeuedIn rows))
    (outbox : db'.outbox.rows = db.outbox.rows ++ rows.map event)
    (own : ∀ t, (event t).aggregateId = t.id ∧ (event t).status = .pending) : Traced db db' := by
  have distinct := db'.outbox.keyed
  rw [outbox,List.map_append,List.nodup_append] at distinct
  have old : ∀ t' ∈ db'.tasks, ∃ t ∈ db.tasks, t' = t.requeuedIn rows := by
    intro t' there
    rw [Table.mem_def,tasks] at there
    obtain ⟨t,before,rfl⟩ := List.mem_map.mp there
    exact ⟨t,before,rfl⟩
  constructor
  · intro e there
    rw [Table.mem_def,outbox]
    exact List.mem_append_left _ there
  · intro t' there queued
    obtain ⟨t,before,rfl⟩ := old t' there
    by_cases again : t ∈ rows
    · have isNew := List.mem_map_of_mem (f := event) again
      refine .inr ⟨event t,?_,?_,(own t).2,?_⟩
      · rw [Table.mem_def,outbox]
        exact List.mem_append_right _ isNew
      · rw [(own t).1,Task.requeuedIn,if_pos again]
        rfl
      · exact fun e₀ old => distinct.2.2 _ (List.mem_map_of_mem old) _ (List.mem_map_of_mem isNew)
    · rw [Task.requeuedIn,if_neg again] at queued ⊢
      exact .inl ⟨t,before,rfl,queued⟩
  · intro t' there running
    obtain ⟨t,before,rfl⟩ := old t' there
    by_cases again : t ∈ rows
    · rw [Task.requeuedIn,if_pos again] at running
      cases running
    · rw [Task.requeuedIn,if_neg again] at running ⊢
      exact ⟨t,before,rfl,running⟩

end Traced

def Scope.Quiet (scope : Scope) : Prop :=
  ¬ scope.claims ∧ ∀ new, scope.creates new → new.publish = false → new.initialStatus ≠ .queued ∧ new.initialStatus ≠ .running

variable {scope : Scope} {now : Time} {db db' : Db}

theorem Task.Moves.stops {t t' : Task} (move : t.Moves t') :
    t'.status ≠ .queued ∧ (t'.status = .running → t.status = .running) := by
  cases move with
  | renewed _ running => exact ⟨fun queued => absurd (running.symm.trans queued) (by decide),fun _ => running⟩
  | failed =>
    simp only [Task.failed]
    split <;> exact ⟨by decide,by simp⟩
  | _ =>
    refine ⟨fun queued => ?_,fun running => ?_⟩
    · cases queued
    · cases running

theorem traced_put {t t' : Task} (member : t ∈ db.tasks) (move : t.Moves t') (tasks : db'.tasks = db.tasks.put t')
    (outbox : db'.outbox = db.outbox) : Traced db db' := by
  refine .of_rows outbox ?_
  intro u there status active is
  rw [tasks] at there
  rcases Table.mem_put.mp there with ⟨before,_⟩ | ⟨rfl,_⟩
  · exact ⟨u,before,rfl,is⟩
  · rcases active with rfl | rfl
    · exact absurd is move.stops.1
    · exact ⟨t,member,move.id.symm,move.stops.2 is⟩

theorem traced_enqueued {new : NewTask} {id : TaskId} {uuid : Nat}
    (announced : new.publish = false → new.initialStatus ≠ .queued ∧ new.initialStatus ≠ .running)
    (queued : new.publish → new.initialStatus = .queued)
    (tasks : db.tasks.insert (new.row id now) = some db'.tasks)
    (outbox : new.event db.outbox id uuid now = some db'.outbox) : Traced db db' := by
  unfold NewTask.event at outbox
  split at outbox
  · rename_i publish
    constructor
    · exact fun e there => (Table.mem_insert outbox).mpr (.inl there)
    · intro t' there isQueued
      rcases (Table.mem_insert tasks).mp there with before | rfl
      · exact .inl ⟨t',before,rfl,isQueued⟩
      · exact .inr ⟨_,(Table.mem_insert outbox).mpr (.inr rfl),rfl,rfl,(Table.insert_eq_some.mp outbox).1⟩
    · intro t' there running
      rcases (Table.mem_insert tasks).mp there with before | rfl
      · exact ⟨t',before,rfl,running⟩
      · exact nomatch (queued publish).symm.trans running
  · rename_i silent
    refine .of_rows (Option.some.inj outbox).symm ?_
    intro t' there status active is
    rcases (Table.mem_insert tasks).mp there with before | rfl
    · exact ⟨t',before,rfl,is⟩
    · obtain ⟨notQueued,notRunning⟩ := announced (by simpa using silent)
      rcases active with rfl | rfl
      · exact absurd is notQueued
      · exact absurd is notRunning

theorem Write.traced (write : Write scope now db db') (quiet : scope.Quiet) (spent : DigestsSpent db) :
    Traced db db' := by
  cases write with
  | elsewhere tasks outbox => exact .of_rows outbox (fun t there _ _ is => ⟨t,tasks ▸ there,rfl,is⟩)
  | enqueued new _ _ created queued tasks outbox => exact traced_enqueued (quiet.2 new created) queued tasks outbox
  | claimed _ _ _ _ claims => exact absurd claims quiet.1
  | moved _ _ member move tasks outbox => exact traced_put member move tasks outbox
  | cancelled p _ _ tasks outbox =>
    refine .of_rows outbox ?_
    intro t' there status active is
    rw [Table.mem_def,tasks] at there
    obtain ⟨t,before,rfl⟩ := List.mem_map.mp there
    split at is
    · rcases active with rfl | rfl <;> cases is
    · rename_i untouched
      exact ⟨t,before,by rw [if_neg untouched],is⟩
  | requeued _ _ waiting tasks outbox =>
    exact .of_requeued tasks (Table.rows_insertAll outbox) (fun _ => ⟨rfl,rfl⟩)
  | released _ waiting distinct tasks outbox =>
    have rows := spent.insertNew now waiting distinct
    rw [← outbox] at rows
    exact .of_requeued tasks rows (fun _ => ⟨rfl,rfl⟩)

theorem traced_writes (writes : Writes scope now db db') (quiet : scope.Quiet) (spent : DigestsSpent db) :
    Traced db db' ∧ DigestsSpent db' := by
  induction writes with
  | refl => exact ⟨.refl db,spent⟩
  | tail _ write ih => exact ⟨ih.1.trans (write.traced quiet ih.2),ih.2.write write⟩

/-- Neither waiting nor at work. -/
def TaskStatus.over (status : TaskStatus) : Prop := status = .completed ∨ status = .deadLetter ∨ status = .cancelled

theorem Write.over (write : Write scope now db db') {t : Task} (member : t ∈ db.tasks) (past : t.status.over) :
    ∃ t' ∈ db'.tasks, t'.id = t.id ∧ t'.status.over := by
  have still : ∀ {u u' : Task}, u ∈ db.tasks → u'.id = u.id → ¬ u.status.over → db'.tasks = db.tasks.put u' →
      ∃ t' ∈ db'.tasks, t'.id = t.id ∧ t'.status.over := by
    intro u u' there id active tasks
    refine ⟨t,?_,rfl,past⟩
    rw [tasks]
    refine Table.mem_put.mpr (.inl ⟨member,fun same => active ?_⟩)
    rw [← db.tasks.unique member there (same.trans id)]
    exact past
  have running : ∀ {u : Task}, u.status = .running → ¬ u.status.over := by
    rintro u running (past | past | past) <;> exact absurd (running.symm.trans past) (by decide)
  have mapped : ∀ {f : Task → Task}, db'.tasks.rows = db.tasks.rows.map f → (f t).id = t.id → (f t).status.over →
      ∃ t' ∈ db'.tasks, t'.id = t.id ∧ t'.status.over := by
    intro f rows id after
    exact ⟨f t,by rw [Table.mem_def,rows]; exact List.mem_map_of_mem member,id,after⟩
  cases write with
  | elsewhere tasks => exact ⟨t,tasks ▸ member,rfl,past⟩
  | enqueued _ _ _ _ _ tasks => exact ⟨t,(Table.mem_insert tasks).mpr (.inl member),rfl,past⟩
  | claimed u worker token expires _ there due tasks =>
    have id : (u.claimed worker token expires now).id = u.id := rfl
    refine still there id ?_ tasks
    simp only [Task.due,Bool.and_eq_true,decide_eq_true_eq] at due
    rintro (past | past | past)
    · exact due.1.1.2 past
    · exact due.1.2 past
    · exact due.1.1.1.2 past
  | moved u u' there move tasks =>
    refine still there move.id ?_ tasks
    cases move <;> rename_i active <;> exact running active
  | cancelled p reason _ tasks =>
    refine mapped tasks ?_ ?_ <;> split
    · rfl
    · rfl
    · exact .inr (.inr rfl)
    · exact past
  | requeued rows _ waiting tasks =>
    have absent : t ∉ rows := by
      intro inside
      rcases (waiting t inside).2 with blocked | retry <;> rcases past with past | past | past <;> simp_all
    exact mapped tasks (by rw [Task.requeuedIn,if_neg absent]) (by rw [Task.requeuedIn,if_neg absent]; exact past)
  | released rows waiting _ tasks =>
    have absent : t ∉ rows := by
      intro inside
      have blocked := (waiting t inside).2
      rcases past with past | past | past <;> exact absurd (blocked.symm.trans past) (by decide)
    exact mapped tasks (by rw [Task.requeuedIn,if_neg absent]) (by rw [Task.requeuedIn,if_neg absent]; exact past)

theorem writes_over (writes : Writes scope now db db') {t : Task} (member : t ∈ db.tasks) (past : t.status.over) :
    ∃ t' ∈ db'.tasks, t'.id = t.id ∧ t'.status.over := by
  induction writes with
  | refl => exact ⟨t,member,rfl,past⟩
  | tail _ write ih =>
    obtain ⟨u,there,id,past⟩ := ih
    obtain ⟨t',after,same,past⟩ := write.over there past
    exact ⟨t',after,same.trans id,past⟩

end Suixinji.Dispatch
