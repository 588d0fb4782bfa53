import Suixinji.Memories.Marks

/-! What a user has forgotten stays deleted, but for the commands that bring a memory back. -/
namespace Suixinji.Memories
open Relational Checked Transition

variable {σ : Type} {lib : Library σ} {s s' u : Store σ} {m t : Memory σ} {id k : MemoryId} {now : Time} {call : ApplyCall σ}
  {d : Decision} {result : Result} {ids : List MemoryId}

def Store.deleted (s : Store σ) (id : MemoryId) : Prop := ∀ m ∈ s.memories.find? id, m.status = .deleted

def DecisionAction.replaces (action : DecisionAction) : Prop := action = .supersede ∨ action = .conflict

/-- The command gives the memory no status but `deleted`: it is not corrected, resolved, updated
to another status or replaced as the target of a decision, and nothing is inserted under its id. -/
def Command.leaves (id : MemoryId) (s : Store σ) : Command σ → Prop
  | .apply call => call.newId ≠ id ∧ (call.decision.recommendedAction.replaces → call.decision.targetMemoryIds.head? ≠ some id)
  | .insert k _ _ _ _ _ => k ≠ id
  | .update k c _ _ _ => k = id → ∀ status ∈ c.status, status = .deleted
  | .correct k _ _ _ => k ≠ id
  | .resolve k _ _ => k ≠ id
  | .approve k _ => ∀ r ∈ s.reviewed k, r.relation = .supersede ∨ r.relation = .conflict → r.targetMemoryIds.head? ≠ some id
  | .addSource _ _ _ | .softDelete _ _ | .expire _ _ | .purge _ | .reject _ _ | .edit _ _ _ => True

theorem Store.deleted.congr (deleted : s.deleted id) (memories : s'.memories = s.memories) : s'.deleted id := by
  rw [Store.deleted,memories]
  exact deleted

theorem versionedUpdate_deleted {c : Changes σ} {reason : Option String} {note : Option NoteId} {notes : List NoteId}
    (ok : versionedUpdate lib k c reason note now s notes = .ok s') (deleted : s.deleted id)
    (kept : k = id → ∀ status ∈ c.status, status = .deleted) : s'.deleted id := by
  obtain ⟨m,found,_,rfl⟩ := versionedUpdate_ok.mp ok
  intro row there
  have there : (s.memories.put (m.changed lib c now)).find? id = some row := there
  rw [find?_changed found] at there
  split at there
  · rename_i same
    cases there
    subst same
    rw [changed_status]
    cases status : c.status with
    | none => exact deleted m found
    | some status' => exact kept rfl status' status
  · exact deleted row there

theorem Writes.deleted {ls : List (MemoryId × Changes σ)} (writes : Writes lib now s ls s') (deleted : s.deleted id)
    (kept : ∀ l ∈ ls, l.1 = id → ∀ status ∈ l.2.status, status = .deleted) : s'.deleted id := by
  induction writes with
  | nil => exact deleted
  | update head _ ih =>
    exact ih (versionedUpdate_deleted head deleted (kept _ List.mem_cons_self)) (fun l member => kept l (List.mem_cons_of_mem _ member))
  | aside memories _ _ ih => exact ih (deleted.congr memories) kept

theorem Inserted.deleted {row : Memory σ} {note : NoteId} {relation : SourceRelation} (inserted : Inserted lib row note relation s s')
    (other : row.id ≠ id) (deleted : s.deleted id) : s'.deleted id := by
  intro m there
  have there : s'.memories.find? id = some m := there
  rw [inserted.find?,if_neg (Ne.symm other)] at there
  exact deleted m there

theorem Archived.deleted {gone : List MemoryId} (archived : Archived lib gone now s s')
    (active : ∀ k ∈ gone, ∃ m ∈ s.memories.find? k, m.status = .active) (deleted : s.deleted id) : s'.deleted id := by
  intro row there
  have there : s'.memories.find? id = some row := there
  rw [archived.find?] at there
  obtain ⟨m,found,rfl⟩ := Option.map_eq_some_iff.mp there
  split
  · rename_i member
    obtain ⟨m',found',active⟩ := active id member
    have gone := deleted m' found'
    rw [active] at gone
    cases gone
  · exact deleted m found

theorem supportTarget_deleted (found : s.memories.find? t.id = some t) (ok : supportTarget lib call d t s = .ok (result,ids,s'))
    (deleted : s.deleted id) : s'.deleted id := by
  obtain ⟨⟨gone,v⟩,archived,last⟩ := bind_ok.mp ok
  cases last
  have supported (added : Bool) (v : Store σ) (row : Memory σ) (memories : v.memories = s.memories) (same : row.id = t.id)
      (status : row.status = t.status) : (if added then { v with memories := v.memories.put row } else v).deleted id := by
    cases added with
    | false => exact deleted.congr memories
    | true =>
      intro m there
      have there : (v.memories.put row).find? id = some m := there
      rw [memories,s.memories.find?_put_of (r := row) (by rw [same]; exact found)] at there
      split at there
      · rename_i named
        cases there
        rw [status]
        exact deleted t (by rw [named,same]; exact found)
      · exact deleted m there
  split at archived
  · obtain ⟨rows,tasks⟩ := archiveTerminalTaskDuplicates_ok archived
    refine rows.deleted (fun k member => ?_) (supported _ (addSource t.id call.noteId .supportedBy s).2 _ rfl rfl rfl)
    obtain ⟨_,m,there,_,active⟩ := tasks k member
    exact ⟨m,there,active⟩
  · cases archived
    exact supported _ (addSource t.id call.noteId .supportedBy s).2 _ rfl rfl rfl

theorem mutateTarget_deleted (found : s.memories.find? t.id = some t) (ok : mutateTarget lib call d t s = .ok (result,ids,s'))
    (deleted : s.deleted id) : s'.deleted id := by
  obtain ⟨u,gone,mutated,archived,tasks,_⟩ := mutateTarget_ok found ok
  refine archived.deleted (fun k member => ?_) (fun row there => ?_)
  · obtain ⟨_,m,there,_,active⟩ := tasks k member
    exact ⟨m,there,active⟩
  · have there : u.memories.find? id = some row := there
    rw [mutated.memories,find?_changed found] at there
    split at there
    · rename_i same
      cases there
      exact deleted t (by rw [same]; exact found)
    · exact deleted row there

theorem replaceTarget_deleted (ok : replaceTarget lib call d t s = .ok (result,ids,s')) (new : call.newId ≠ id) (other : t.id ≠ id)
    (deleted : s.deleted id) : s'.deleted id := by
  obtain ⟨u,update,rest⟩ := bind_ok.mp ok
  obtain ⟨v,inserts,last⟩ := bind_ok.mp rest
  cases last
  have before : (addSource t.id call.noteId .contradictedBy s).2.deleted id := deleted.congr rfl
  have after := (insertMemory_ok inserts).deleted new (versionedUpdate_deleted update before (fun same => absurd same other))
  exact after.congr rfl

theorem perform_deleted {target : Option (Memory σ)} (found : ∀ t ∈ target, s.memories.find? t.id = some t)
    (ok : perform lib call d target s = .ok (result,ids,s')) (new : call.newId ≠ id)
    (other : d.recommendedAction.replaces → ∀ t ∈ target, t.id ≠ id) (deleted : s.deleted id) : s'.deleted id := by
  unfold perform at ok
  split at ok
  · cases ok
    exact deleted
  · exact (insertDecided_ok ok).1.deleted new deleted
  · exact (insertDecided_ok ok).1.deleted new deleted
  · exact supportTarget_deleted (found _ rfl) ok deleted
  · exact mutateTarget_deleted (found _ rfl) ok deleted
  · exact mutateTarget_deleted (found _ rfl) ok deleted
  · exact mutateTarget_deleted (found _ rfl) ok deleted
  · rename_i action
    exact replaceTarget_deleted ok new (other (.inl action) _ rfl) deleted
  · rename_i action
    exact replaceTarget_deleted ok new (other (.inr action) _ rfl) deleted
  · cases ok

theorem apply_deleted (leaves : (Command.apply call).leaves id s) (deleted : s.deleted id) :
    (applyMemoryDecision lib call s).2.deleted id := by
  obtain ⟨new,spares⟩ := leaves
  unfold applyMemoryDecision
  cases applied : applyInSession lib call s with
  | ok p =>
    rcases applyInSession_ok.mp applied with ⟨_,_,_,same⟩ | ⟨_,target,chosen,_,ids,v,done,saved⟩
    · exact same ▸ deleted
    · obtain ⟨decisions,same⟩ := saveDecision_frame saved
      obtain ⟨named,found⟩ := target_ok chosen
      refine Store.deleted.congr (s := v) (perform_deleted (fun t there => (found t there).2) done new ?_ deleted) (by rw [same]; rfl)
      rintro replaces t rfl same
      obtain ⟨_,settled⟩ := settled_replaces replaces
      rw [settled] at replaces
      exact spares replaces (by rw [← same]; exact (found t rfl).1)
  | error e =>
    dsimp only
    split
    · exact deleted
    · unfold recordFailure
      cases saved : saveDecision call.spaceId call.noteId (call.attempted lib s) .failed [] (some e.typeName) call.now s with
      | error => exact deleted
      | ok v =>
        obtain ⟨decisions,rfl⟩ := saveDecision_frame saved
        exact deleted

theorem updateMemory_deleted {c : Changes σ} {reason : Option String} {note : Option NoteId}
    (ok : updateMemory lib k c reason note now s = .ok s') (deleted : s.deleted id)
    (kept : k = id → ∀ status ∈ c.status, status = .deleted) : s'.deleted id := by
  unfold updateMemory at ok
  split at ok
  · cases ok
    exact deleted
  · obtain ⟨u,update,last⟩ := bind_ok.mp ok
    cases last
    exact (versionedUpdate_deleted update deleted kept).congr rfl

theorem approved_deleted {pending : Memory σ} {r : DecisionRow} (waits : s.pending? k = some pending) (deleted : s.deleted id)
    (spares : r.relation = .supersede ∨ r.relation = .conflict → r.targetMemoryIds.head? ≠ some id) :
    ∀ l ∈ r.updates lib pending now s, l.1 = id → ∀ status ∈ l.2.status, status = .deleted := by
  have mutated {t : Memory σ} {isTaskUpdate : Bool} : t.id = id →
      ∀ status ∈ (approvedMutation lib pending t isTaskUpdate now).status, status = .deleted := fun _ => nofun
  -- the memory that waits is not the one that is deleted
  have other {c : Changes σ} : pending.id = id → ∀ status ∈ c.status, status = .deleted := by
    rintro rfl
    obtain ⟨found,status⟩ := Option.filter_eq_some_iff.mp waits
    rw [← (Table.find?_eq_some.mp found).2] at found
    have gone := deleted pending found
    rw [decide_eq_true_eq.mp status] at gone
    cases gone
  have replaced {t : Memory σ} {c : Changes σ} (there : r.target s = some t) (relation : r.relation = .supersede ∨ r.relation = .conflict) :
      t.id = id → ∀ status ∈ c.status, status = .deleted := by
    rintro rfl
    obtain ⟨target,head,found⟩ := Option.bind_eq_some_iff.mp there
    rw [← (Table.find?_eq_some.mp found).2] at head
    exact absurd head (spares relation)
  unfold DecisionRow.updates
  split
  · rw [List.forall_mem_singleton]
    exact other
  · rw [List.forall_mem_cons,List.forall_mem_singleton]
    exact ⟨mutated,other⟩
  · rw [List.forall_mem_cons,List.forall_mem_singleton]
    exact ⟨mutated,other⟩
  · rename_i relation there
    rw [List.forall_mem_cons,List.forall_mem_singleton]
    exact ⟨replaced there (.inl relation),other⟩
  · rename_i relation there
    rw [List.forall_mem_cons,List.forall_mem_singleton]
    exact ⟨replaced there (.inr relation),other⟩
  · exact fun l member => absurd member List.not_mem_nil

theorem due_deleted (deleted : s.deleted id) (due : (s.memories.find? k).any (·.due now)) : k ≠ id := by
  rintro rfl
  obtain ⟨m,found,due⟩ := (Option.any_eq_true ..).mp due
  have gone := deleted m found
  simp [Memory.due,gone] at due

theorem pending_deleted (deleted : s.deleted id) (waits : (s.pending? k).isSome) : k ≠ id := by
  rintro rfl
  obtain ⟨m,waits⟩ := Option.isSome_iff_exists.mp waits
  obtain ⟨found,status⟩ := Option.filter_eq_some_iff.mp waits
  have gone := deleted m found
  rw [decide_eq_true_eq.mp status] at gone
  cases gone

theorem execute_deleted {c : Command σ} (leaves : c.leaves id s) (deleted : s.deleted id) (ok : execute lib s c = .ok s') :
    s'.deleted id := by
  cases c with
  | apply call =>
    cases ok
    exact apply_deleted leaves deleted
  | insert k spaceId c note status now =>
    obtain ⟨u,inserts,last⟩ := bind_ok.mp ok
    cases last
    exact ((insertMemory_ok inserts).deleted leaves deleted).congr rfl
  | addSource k note relation =>
    cases ok
    unfold addSourceCommand
    split
    · exact deleted
    · dsimp only
      split <;> exact deleted.congr rfl
  | update => exact updateMemory_deleted ok deleted leaves
  | correct =>
    rcases correctMemory_writes ok with rfl | ⟨_,writes⟩
    · exact deleted
    · exact writes.deleted deleted (by rw [List.forall_mem_singleton]; exact fun same => absurd same leaves)
  | softDelete => exact updateMemory_deleted ok deleted (fun _ status sets => (Option.some.inj sets).symm)
  | expire ids now =>
    obtain ⟨_,due,_⟩ := bind_ok.mp ok
    obtain ⟨ls,writes,labels⟩ := expireDueMemories_writes ok
    refine writes.deleted deleted (fun l member same => ?_)
    exact absurd same (due_deleted deleted ((require_ok.mp due).2 l.1 (labels l member).1))
  | resolve =>
    rcases resolveMemoryConflict_writes ok with rfl | writes
    · exact deleted
    · exact writes.deleted deleted (by rw [List.forall_mem_singleton]; exact fun same => absurd same leaves)
  | purge k =>
    cases ok
    intro m there
    obtain ⟨inside,same⟩ := Table.find?_eq_some.mp there
    exact deleted m (Table.find?_eq_some.mpr ⟨(Table.mem_filter.mp inside).1,same⟩)
  | approve =>
    obtain ⟨p,approves,last⟩ := bind_ok.mp ok
    cases last
    rcases approvePendingMemory_writes approves with same | ⟨pending,r,waits,reviewed,writes⟩
    · exact same ▸ deleted
    · exact writes.deleted deleted (approved_deleted waits deleted (leaves r reviewed))
  | reject =>
    rcases rejectPendingMemory_writes ok with rfl | ⟨waits,writes⟩
    · exact deleted
    · exact writes.deleted deleted (by rw [List.forall_mem_singleton]; exact fun same => absurd same (pending_deleted deleted waits))
  | edit =>
    obtain ⟨p,edits,last⟩ := bind_ok.mp ok
    cases last
    rcases editPendingMemory_writes edits with same | ⟨waits,_,writes⟩
    · exact same ▸ deleted
    · exact writes.deleted deleted (by rw [List.forall_mem_singleton]; exact fun same => absurd same (pending_deleted deleted waits))

theorem softDelete_deleted (ok : softDeleteMemory lib id now s = .ok s') : s'.deleted id := by
  unfold softDeleteMemory updateMemory at ok
  split at ok
  · cases ok
    rename_i absent
    intro m there
    rw [Option.isNone_iff_eq_none.mp absent] at there
    cases there
  · obtain ⟨u,update,last⟩ := bind_ok.mp ok
    cases last
    obtain ⟨m,found,_,rfl⟩ := versionedUpdate_ok.mp update
    intro row there
    have there : (s.memories.put (m.changed lib { status := some .deleted } now)).find? id = some row := there
    rw [find?_changed found,if_pos rfl] at there
    cases there
    rfl

theorem run_deleted {cs : List (Command σ)} (forgets : Step lib s (.softDelete id now) u)
    (run : Run (Guarded (fun s c => c.leaves id s) (Step lib)) u cs s') : s'.deleted id :=
  run.invariant (·.deleted id) (fun _ _ _ deleted step => execute_deleted step.1 deleted step.2) (softDelete_deleted forgets)

end Suixinji.Memories
