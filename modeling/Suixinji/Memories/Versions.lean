import Suixinji.Memories.Forgotten

/-! The version of a memory never goes back. -/
namespace Suixinji.Memories
open Relational Checked Transition

variable {σ : Type} {lib : Library σ} {s s' : Store σ} {t : Memory σ} {id k : MemoryId} {n : Nat} {now : Time} {call : ApplyCall σ}
  {d : Decision} {result : Result} {ids : List MemoryId}

def Store.past (s : Store σ) (id : MemoryId) (n : Nat) : Prop := ∀ m ∈ s.memories.find? id, n ≤ m.currentVersion

def Command.draws : Command σ → Option MemoryId
  | .apply call => some call.newId
  | .insert id _ _ _ _ _ => some id
  | _ => none

theorem Store.past.congr (past : s.past id n) (memories : s'.memories = s.memories) : s'.past id n := by
  rw [Store.past,memories]
  exact past

theorem Store.past.put (past : s.past id n) (row : Memory σ) {old : Memory σ} (found : s.memories.find? row.id = some old)
    (later : old.currentVersion ≤ row.currentVersion) (memories : s'.memories = s.memories.put row) : s'.past id n := by
  intro m there
  rw [Option.mem_def,memories,s.memories.find?_put_of (r := row) found] at there
  split at there
  · rename_i named
    cases there
    exact Nat.le_trans (past old (by rw [named]; exact found)) later
  · exact past m there

theorem versionedUpdate_past {c : Changes σ} {reason : Option String} {note : Option NoteId} {notes : List NoteId}
    (ok : versionedUpdate lib k c reason note now s notes = .ok s') (past : s.past id n) : s'.past id n := by
  obtain ⟨m,found,_,rfl⟩ := versionedUpdate_ok.mp ok
  have named := (Table.find?_eq_some.mp found).2
  exact past.put (m.changed lib c now) (by rw [changed_id,named]; exact found) (Nat.le_succ _) rfl

theorem Writes.past {ls : List (MemoryId × Changes σ)} (writes : Writes lib now s ls s') (past : s.past id n) : s'.past id n := by
  induction writes with
  | nil => exact past
  | update head _ ih => exact ih (versionedUpdate_past head past)
  | aside memories _ _ ih => exact ih (past.congr memories)

theorem Inserted.past {row : Memory σ} {note : NoteId} {relation : SourceRelation} (inserted : Inserted lib row note relation s s')
    (other : row.id ≠ id) (past : s.past id n) : s'.past id n := by
  intro m there
  rw [Option.mem_def,inserted.find?,if_neg (Ne.symm other)] at there
  exact past m there

theorem Archived.past {gone : List MemoryId} (archived : Archived lib gone now s s') (past : s.past id n) : s'.past id n := by
  intro row there
  rw [Option.mem_def,archived.find?] at there
  obtain ⟨m,found,rfl⟩ := Option.map_eq_some_iff.mp there
  split
  · exact Nat.le_succ_of_le (past m found)
  · exact past m found

theorem supportTarget_past (found : s.memories.find? t.id = some t) (ok : supportTarget lib call d t s = .ok (result,ids,s'))
    (past : s.past id n) : s'.past id n := by
  obtain ⟨⟨gone,v⟩,archived,last⟩ := bind_ok.mp ok
  cases last
  have supported (added : Bool) (v : Store σ) (row : Memory σ) (memories : v.memories = s.memories) (same : row.id = t.id)
      (version : row.currentVersion = t.currentVersion) : (if added then { v with memories := v.memories.put row } else v).past id n := by
    cases added with
    | false => exact past.congr memories
    | true =>
      refine past.put row (by rw [same]; exact found) version.ge ?_
      rw [← memories]
      rfl
  split at archived
  · obtain ⟨rows,_⟩ := archiveTerminalTaskDuplicates_ok archived
    exact rows.past (supported _ (addSource t.id call.noteId .supportedBy s).2 _ rfl rfl rfl)
  · cases archived
    exact supported _ (addSource t.id call.noteId .supportedBy s).2 _ rfl rfl rfl

theorem mutateTarget_past (found : s.memories.find? t.id = some t) (ok : mutateTarget lib call d t s = .ok (result,ids,s'))
    (past : s.past id n) : s'.past id n := by
  obtain ⟨u,gone,mutated,archived,_⟩ := mutateTarget_ok found ok
  exact archived.past (past.put (t.changed lib (call.mutation lib d t) call.now) found (Nat.le_succ _) mutated.memories)

theorem replaceTarget_past (ok : replaceTarget lib call d t s = .ok (result,ids,s')) (new : call.newId ≠ id)
    (past : s.past id n) : s'.past id n := by
  obtain ⟨u,update,rest⟩ := bind_ok.mp ok
  obtain ⟨v,inserts,last⟩ := bind_ok.mp rest
  cases last
  have before : (addSource t.id call.noteId .contradictedBy s).2.past id n := past.congr rfl
  exact ((insertMemory_ok inserts).past new (versionedUpdate_past update before)).congr rfl

theorem perform_past {target : Option (Memory σ)} (found : ∀ t ∈ target, s.memories.find? t.id = some t)
    (ok : perform lib call d target s = .ok (result,ids,s')) (new : call.newId ≠ id) (past : s.past id n) : s'.past id n := by
  unfold perform at ok
  split at ok
  · cases ok
    exact past
  · exact (insertDecided_ok ok).1.past new past
  · exact (insertDecided_ok ok).1.past new past
  · exact supportTarget_past (found _ rfl) ok past
  · exact mutateTarget_past (found _ rfl) ok past
  · exact mutateTarget_past (found _ rfl) ok past
  · exact mutateTarget_past (found _ rfl) ok past
  · exact replaceTarget_past ok new past
  · exact replaceTarget_past ok new past
  · cases ok

theorem apply_past (new : call.newId ≠ id) (past : s.past id n) : (applyMemoryDecision lib call s).2.past id n := by
  unfold applyMemoryDecision
  cases applied : applyInSession lib call s with
  | ok p =>
    rcases applyInSession_ok.mp applied with ⟨_,_,_,same⟩ | ⟨_,target,chosen,_,ids,v,done,saved⟩
    · exact same ▸ past
    · obtain ⟨decisions,same⟩ := saveDecision_frame saved
      obtain ⟨-,found⟩ := target_ok chosen
      refine Store.past.congr (s := v) (perform_past (fun t there => (found t there).2) done new past) ?_
      rw [same]
      rfl
  | error e =>
    dsimp only
    split
    · exact past
    · unfold recordFailure
      cases saved : saveDecision call.spaceId call.noteId (call.attempted lib s) .failed [] (some e.typeName) call.now s with
      | error => exact past
      | ok v =>
        obtain ⟨decisions,rfl⟩ := saveDecision_frame saved
        exact past

theorem updateMemory_past {c : Changes σ} {reason : Option String} {note : Option NoteId}
    (ok : updateMemory lib k c reason note now s = .ok s') (past : s.past id n) : s'.past id n := by
  unfold updateMemory at ok
  split at ok
  · cases ok
    exact past
  · obtain ⟨u,update,last⟩ := bind_ok.mp ok
    cases last
    exact (versionedUpdate_past update past).congr rfl

theorem execute_past {c : Command σ} (new : c.draws ≠ some id) (past : s.past id n) (ok : execute lib s c = .ok s') : s'.past id n := by
  cases c with
  | apply call =>
    cases ok
    exact apply_past (fun same => new (congrArg some same)) past
  | insert k spaceId c note status now =>
    obtain ⟨u,inserts,last⟩ := bind_ok.mp ok
    cases last
    exact ((insertMemory_ok inserts).past (fun same => new (congrArg some same)) past).congr rfl
  | addSource k note relation =>
    cases ok
    unfold addSourceCommand
    split
    · exact past
    · dsimp only
      split <;> exact past.congr rfl
  | update => exact updateMemory_past ok past
  | correct =>
    rcases correctMemory_writes ok with rfl | ⟨_,writes⟩
    · exact past
    · exact writes.past past
  | softDelete => exact updateMemory_past ok past
  | expire =>
    obtain ⟨ls,writes,_⟩ := expireDueMemories_writes ok
    exact writes.past past
  | resolve =>
    rcases resolveMemoryConflict_writes ok with rfl | writes
    · exact past
    · exact writes.past past
  | purge k =>
    cases ok
    intro m there
    obtain ⟨inside,same⟩ := Table.find?_eq_some.mp there
    exact past m (Table.find?_eq_some.mpr ⟨(Table.mem_filter.mp inside).1,same⟩)
  | approve =>
    obtain ⟨p,approves,last⟩ := bind_ok.mp ok
    cases last
    rcases approvePendingMemory_writes approves with same | ⟨_,_,_,_,writes⟩
    · exact same ▸ past
    · exact writes.past past
  | reject =>
    rcases rejectPendingMemory_writes ok with rfl | ⟨_,writes⟩
    · exact past
    · exact writes.past past
  | edit =>
    obtain ⟨p,edits,last⟩ := bind_ok.mp ok
    cases last
    rcases editPendingMemory_writes edits with same | ⟨_,_,writes⟩
    · exact same ▸ past
    · exact writes.past past

end Suixinji.Memories
