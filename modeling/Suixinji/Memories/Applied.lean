import Suixinji.Memories.Effects

/-! What an application of a decision (`apply_memory_decision`) writes, action by action. -/
namespace Suixinji.Memories
open Relational Checked

variable {σ : Type} {lib : Library σ} {s s' : Store σ} {call : ApplyCall σ} {d : Decision} {t : Memory σ}
  {result : Result} {ids : List MemoryId}

section
variable {id k : MemoryId} {note n : NoteId} {relation : SourceRelation}

theorem mem_addSource {r : Source} :
    r ∈ (addSource id note relation s).2.sources ↔ r ∈ s.sources ∨ r = ⟨id,note,relation⟩ := by
  have inserted : (addSource id note relation s).2.sources = (s.sources.insert ⟨id,note,relation⟩).getD s.sources := rfl
  rw [inserted]
  cases fresh : s.sources.insert ⟨id,note,relation⟩ with
  | some u => exact Table.mem_insert fresh
  | none =>
    have taken : (⟨id,note,relation⟩ : Source) ∈ s.sources := by
      by_contra absent
      obtain ⟨u,ok⟩ := s.sources.insertAll_of_fresh [⟨id,note,relation⟩] (by simp)
        (fun r given x inside same => absent (by rw [← List.mem_singleton.mp given,← same]; exact inside))
      simp [Table.insertAll,fresh] at ok
    constructor
    · exact .inl
    · rintro (member | rfl)
      · exact member
      · exact taken

theorem mem_noteIds : n ∈ s.noteIds k ↔ ∃ r ∈ s.sources, r.memoryId = k ∧ r.noteId = n := by
  simp only [Store.noteIds,List.mem_map,List.mem_filter,decide_eq_true_eq,Table.mem_def,and_assoc]

theorem mem_noteIds_addSource :
    n ∈ (addSource id note relation s).2.noteIds k ↔ n ∈ s.noteIds k ∨ (k = id ∧ n = note) := by
  simp only [mem_noteIds,mem_addSource]
  constructor
  · rintro ⟨r,member | rfl,here,named⟩
    · exact .inl ⟨r,member,here,named⟩
    · exact .inr ⟨here.symm,named.symm⟩
  · rintro (⟨r,member,here,named⟩ | ⟨rfl,rfl⟩)
    · exact ⟨r,.inl member,here,named⟩
    · exact ⟨_,.inr rfl,rfl,rfl⟩

theorem mem_noteIds_addSources {notes : List NoteId} :
    n ∈ (addSources id notes relation s).noteIds k ↔ n ∈ s.noteIds k ∨ (k = id ∧ n ∈ notes) := by
  induction notes generalizing s with
  | nil => simp [addSources]
  | cons note notes ih =>
    have step : addSources id (note::notes) relation s = addSources id notes relation (addSource id note relation s).2 := rfl
    rw [step,ih,mem_noteIds_addSource,List.mem_cons]
    tauto

theorem noteIds_congr (same : s'.sources = s.sources) : s'.noteIds k = s.noteIds k := by
  rw [Store.noteIds,Store.noteIds,same]

end

section
variable {spaceId : SpaceId} {note : NoteId} {status : DecisionStatus} {error : Option String} {now : Time}

theorem saveDecision_frame (ok : saveDecision spaceId note d status ids error now s = .ok s') :
    ∃ decisions, s' = { s with decisions } := by
  unfold saveDecision at ok
  split at ok
  · exact ⟨_,(Except.ok.inj ok).symm⟩
  · obtain ⟨_,_,rest⟩ := bind_ok.mp ok
    obtain ⟨decisions,_,last⟩ := bind_ok.mp rest
    exact ⟨decisions,(Except.ok.inj last).symm⟩

theorem saveDecision_new (ok : saveDecision spaceId note d status ids error now s = .ok s')
    (fresh : s.decisions.find? d.decisionId = none) :
    (∀ r ∈ s.decisions, ¬(r.spaceId = spaceId ∧ r.candidateId = d.candidateId)) ∧
      s'.decisions.rows = s.decisions.rows ++ [d.row spaceId note status ids error now] := by
  rw [saveDecision,fresh] at ok
  obtain ⟨_,single,rest⟩ := bind_ok.mp ok
  obtain ⟨decisions,inserted,last⟩ := bind_ok.mp rest
  cases last
  exact ⟨require_ok.mp single,(Table.insert_eq_some.mp (demand_ok.mp inserted)).2⟩

theorem saveDecision_total (single : ∀ r ∈ s.decisions, ¬(r.spaceId = spaceId ∧ r.candidateId = d.candidateId))
    (fresh : s.decisions.find? d.decisionId = none) :
    ∃ s', saveDecision spaceId note d status ids error now s = .ok s' := by
  rw [saveDecision,fresh]
  have inserted : ∃ u, s.decisions.insert (d.row spaceId note status ids error now) = some u := by
    cases given : s.decisions.insert (d.row spaceId note status ids error now) with
    | some u => exact ⟨u,rfl⟩
    | none =>
      obtain ⟨u,ok⟩ := s.decisions.insertAll_of_fresh [d.row spaceId note status ids error now] (by simp)
        (fun r listed x inside => by
          rw [List.mem_singleton.mp listed]
          exact Table.find?_eq_none.mp fresh x inside)
      simp [Table.insertAll,given] at ok
  obtain ⟨u,ok⟩ := inserted
  exact ⟨_,bind_ok.mpr ⟨(),require_ok.mpr single,bind_ok.mpr ⟨u,demand_ok.mpr ok,rfl⟩⟩⟩

end

theorem applyInSession_ok : applyInSession lib call s = .ok (result,s') ↔
    (∃ prior, s.prior call.spaceId call.candidate.candidateId = some prior ∧ result = prior.replay ∧ s' = s) ∨
      (s.prior call.spaceId call.candidate.candidateId = none ∧ ∃ target, call.target s = .ok target ∧
        call.checkCards target s = .ok () ∧ ∃ ids u, perform lib call (call.settled lib target) target s = .ok (result,ids,u) ∧
          saveDecision call.spaceId call.noteId (call.settled lib target)
            (decidedStatus (call.settled lib target).recommendedAction) ids none call.now
            (markAffected lib call.candidate result u) = .ok s') := by
  unfold applyInSession
  cases prior : s.prior call.spaceId call.candidate.candidateId with
  | some row => simp [eq_comm]
  | none =>
    simp only [reduceCtorEq,false_and,exists_false,false_or,true_and]
    constructor
    · intro ok
      obtain ⟨target,found,rest⟩ := bind_ok.mp ok
      obtain ⟨_,passed,rest⟩ := bind_ok.mp rest
      obtain ⟨⟨r,ids,u⟩,done,rest⟩ := bind_ok.mp rest
      obtain ⟨v,saved,last⟩ := bind_ok.mp rest
      cases last
      exact ⟨target,found,passed,ids,u,done,saved⟩
    · rintro ⟨target,found,passed,ids,u,done,saved⟩
      refine bind_ok.mpr ⟨target,found,bind_ok.mpr ⟨_,passed,bind_ok.mpr ⟨_,done,bind_ok.mpr ⟨_,saved,rfl⟩⟩⟩⟩

theorem applyMemoryDecision_ok :
    applyMemoryDecision lib call s = (.ok result,s') ↔ applyInSession lib call s = .ok (result,s') := by
  unfold applyMemoryDecision
  cases applyInSession lib call s with
  | error e => simp
  | ok p => simp [Prod.ext_iff]

theorem insertDecided_ok {status : MemoryStatus} (ok : insertDecided lib call d status s = .ok (result,ids,s')) :
    Inserted lib (call.candidate.row lib call.newId call.spaceId status call.now) call.noteId .createdFrom s s' ∧
      result.action = d.recommendedAction ∧ result.relation = d.relation ∧ result.idempotent = false ∧ ids = [call.newId] := by
  obtain ⟨u,inserted,last⟩ := bind_ok.mp ok
  cases last
  exact ⟨insertMemory_ok inserted,rfl,rfl,rfl,rfl⟩

/-- What a mutation of the target leaves, before the duplicates are archived. -/
structure Mutated (lib : Library σ) (call : ApplyCall σ) (d : Decision) (t : Memory σ) (s s' : Store σ) : Prop where
  memories : s'.memories = s.memories.put (t.changed lib (call.mutation lib d t) call.now)
  sources : s'.sources = (addSource t.id call.noteId (if d.recommendedAction = .merge then .supportedBy else .updatedBy) s).2.sources
  decisions : s'.decisions = s.decisions
  candidates : s'.candidates = s.candidates
  derived : s'.derived = scheduleMemoryEmbedding lib (t.changed lib (call.mutation lib d t) call.now) s.derived

theorem mutateTarget_ok (found : s.memories.find? t.id = some t) (ok : mutateTarget lib call d t s = .ok (result,ids,s')) :
    ∃ u gone, Mutated lib call d t s u ∧ Archived lib gone call.now u s' ∧
      (∀ k ∈ gone, k ≠ t.id ∧ ∃ m ∈ u.memories.find? k, m.memoryType = .task ∧ m.status = .active) ∧
      (d.recommendedAction ≠ .updateTask → gone = []) ∧ result.action = d.recommendedAction ∧
      result.relation = d.relation ∧ result.memoryId = some t.id ∧ result.archivedDuplicateIds = gone ∧ ids = [t.id] := by
  obtain ⟨u,update,rest⟩ := bind_ok.mp ok
  obtain ⟨m,there,_,written⟩ := versionedUpdate_ok.mp update
  obtain rfl : t = m := Option.some.inj (found.symm.trans there)
  obtain ⟨⟨gone,v⟩,archived,last⟩ := bind_ok.mp rest
  cases last
  have mutated : Mutated lib call d t s u := by
    subst written
    exact ⟨rfl,rfl,rfl,rfl,rewrite_derived rfl⟩
  refine ⟨u,gone,mutated,?_⟩
  split at archived
  · rename_i named
    obtain ⟨done,tasks⟩ := archiveTerminalTaskDuplicates_ok archived
    exact ⟨done,tasks,fun other => absurd named other,rfl,rfl,rfl,rfl,rfl⟩
  · cases archived
    exact ⟨.refl lib _ _,nofun,fun _ => rfl,rfl,rfl,rfl,rfl,rfl⟩

theorem mutateTarget_total (found : s.memories.find? t.id = some t) (apart : s.cardsApart)
    (alone : ∀ n ∈ s.memories, ¬(t.changed lib (call.mutation lib d t) call.now).sameCard n) :
    ∃ result ids s', mutateTarget lib call d t s = .ok (result,ids,s') := by
  obtain ⟨u,update⟩ : ∃ u, versionedUpdate lib t.id (call.mutation lib d t) (some d.reason) (some call.noteId) call.now
      (addSource t.id call.noteId (if d.recommendedAction = .merge then .supportedBy else .updatedBy) s).2
      (if lib.referenceResolved call.candidate.scope then
        (addSource t.id call.noteId (if d.recommendedAction = .merge then .supportedBy else .updatedBy) s).2.noteIds t.id ++
          [call.noteId] else [call.noteId]) = .ok u :=
    ⟨_,versionedUpdate_ok.mpr ⟨t,found,alone,rfl⟩⟩
  obtain ⟨m,there,_,written⟩ := versionedUpdate_ok.mp update
  obtain rfl : t = m := Option.some.inj (found.symm.trans there)
  have kept : u.cardsApart := cardsApart_put apart alone (by rw [written]; rfl)
  obtain ⟨gone,v,archived⟩ : ∃ gone v,
      archiveTerminalTaskDuplicates lib t.id call.candidate d.decisionId call.noteId call.now u = .ok (gone,v) :=
    archiveTerminalTaskDuplicates_total kept call.candidate
  by_cases task : d.recommendedAction = .updateTask
  · exact ⟨_,_,v,bind_ok.mpr ⟨u,update,bind_ok.mpr ⟨(gone,v),(if_pos task).trans archived,rfl⟩⟩⟩
  · exact ⟨_,_,u,bind_ok.mpr ⟨u,update,bind_ok.mpr ⟨([],u),if_neg task,rfl⟩⟩⟩

end Suixinji.Memories
