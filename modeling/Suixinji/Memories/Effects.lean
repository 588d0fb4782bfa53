import Suixinji.Memories.System

/-! What each statement of long-term memory does to the tables. -/
namespace Suixinji.Memories
open Relational Checked

variable {σ : Type} {lib : Library σ} {s s' : Store σ} {m n : Memory σ} {id : MemoryId} {now : Time}

/-- `ix_preference_card_identity`. -/
def Store.cardsApart (s : Store σ) : Prop := ∀ m ∈ s.memories, ∀ n ∈ s.memories, ¬m.sameCard n

section
variable {c : Changes σ} {reason : Option String} {sourceNoteId : Option NoteId} {notes : List NoteId}

@[simp] theorem changed_id : (m.changed lib c now).id = m.id := rfl
@[simp] theorem changed_spaceId : (m.changed lib c now).spaceId = m.spaceId := rfl
@[simp] theorem changed_memoryType : (m.changed lib c now).memoryType = m.memoryType := rfl
@[simp] theorem changed_predicate : (m.changed lib c now).predicate = m.predicate := rfl
@[simp] theorem changed_currentVersion : (m.changed lib c now).currentVersion = m.currentVersion + 1 := rfl
@[simp] theorem changed_status : (m.changed lib c now).status = c.status.getD m.status := rfl

@[simp] theorem rewrite_memories :
    (s.rewrite lib m c reason sourceNoteId notes now).memories = s.memories.put (m.changed lib c now) := rfl

@[simp] theorem rewrite_sources : (s.rewrite lib m c reason sourceNoteId notes now).sources = s.sources := rfl
@[simp] theorem rewrite_relations : (s.rewrite lib m c reason sourceNoteId notes now).relations = s.relations := rfl
@[simp] theorem rewrite_decisions : (s.rewrite lib m c reason sourceNoteId notes now).decisions = s.decisions := rfl
@[simp] theorem rewrite_candidates : (s.rewrite lib m c reason sourceNoteId notes now).candidates = s.candidates := rfl

theorem rewrite_derived (written : c.content.isSome) : (s.rewrite lib m c reason sourceNoteId notes now).derived =
    scheduleMemoryEmbedding lib (m.changed lib c now) s.derived := if_pos written

theorem versionedUpdate_ok : versionedUpdate lib id c reason sourceNoteId now s notes = .ok s' ↔
    ∃ m, s.memories.find? id = some m ∧ (∀ n ∈ s.memories, ¬(m.changed lib c now).sameCard n) ∧
      s' = s.rewrite lib m c reason sourceNoteId notes now := by
  unfold versionedUpdate
  simp only [bind_ok,demand_ok,require_ok,exists_and_left,exists_const,pure,Except.pure,Except.ok.injEq]
  constructor
  · rintro ⟨m,found,apart,rfl⟩
    exact ⟨m,found,apart,rfl⟩
  · rintro ⟨m,found,apart,rfl⟩
    exact ⟨m,found,apart,rfl⟩

theorem changed_apart (apart : s.cardsApart) (member : m ∈ s.memories) (key : c.memoryKey = none)
    (version : c.memoryKeyVersion = none) : ∀ n ∈ s.memories, ¬(m.changed lib c now).sameCard n := by
  rintro n inside ⟨other,space,same,card,own⟩
  have kept : m.memoryKeyVersion = .preferenceCardV1 := by simpa [Memory.changed,version] using own
  refine apart m member n inside ⟨other,space,?_,card,kept⟩
  rw [same]
  cases content : c.content <;> simp [Memory.changed,key,content,Memory.rekeyed,kept,KeyVersion.keyKept]

theorem versionedUpdate_total (apart : s.cardsApart) (found : s.memories.find? id = some m) (key : c.memoryKey = none)
    (version : c.memoryKeyVersion = none) :
    versionedUpdate lib id c reason sourceNoteId now s notes = .ok (s.rewrite lib m c reason sourceNoteId notes now) :=
  versionedUpdate_ok.mpr ⟨m,found,changed_apart apart (Table.find?_eq_some.mp found).1 key version,rfl⟩

theorem sameCard_symm (same : m.sameCard n) : n.sameCard m :=
  ⟨same.1.symm,same.2.1.symm,same.2.2.1.symm,same.2.2.2.2,same.2.2.2.1⟩

theorem cardsApart_put {row : Memory σ} (apart : s.cardsApart) (alone : ∀ n ∈ s.memories, ¬row.sameCard n)
    (written : s'.memories = s.memories.put row) : s'.cardsApart := by
  intro m inside n inside' same
  rw [written,Table.mem_put] at inside inside'
  rcases inside with ⟨member,_⟩ | ⟨rfl,_⟩
  · rcases inside' with ⟨member',_⟩ | ⟨rfl,_⟩
    · exact apart m member n member' same
    · exact alone m member (sameCard_symm same)
  · rcases inside' with ⟨member',_⟩ | ⟨rfl,_⟩
    · exact alone n member' same
    · exact same.1 rfl

theorem find?_changed {t : Table (Memory.id (σ := σ))} (found : t.find? id = some m) (k : MemoryId) :
    (t.put (m.changed lib c now)).find? k = if k = id then some (m.changed lib c now) else t.find? k := by
  obtain ⟨_,rfl⟩ := Table.find?_eq_some.mp found
  exact t.find?_put_of (r := m.changed lib c now) found k

end

section
variable {c : Candidate σ} {spaceId : SpaceId} {note : NoteId} {relation : SourceRelation} {status : MemoryStatus}

/-- What `_insert_memory` leaves. -/
structure Inserted (lib : Library σ) (row : Memory σ) (note : NoteId) (relation : SourceRelation) (s s' : Store σ) : Prop where
  apart : ∀ m ∈ s.memories, ¬row.sameCard m
  memories : s.memories.insert row = some s'.memories
  sources : s'.sources = s.sources.insertNew [⟨row.id,note,relation⟩]
  relations : s'.relations = s.relations
  decisions : s'.decisions = s.decisions
  candidates : s'.candidates = s.candidates
  derived : s'.derived = scheduleMemoryEmbedding lib row s.derived
  versions : ∃ v : Version, s'.versions = s.versions ++ [v] ∧ v.memoryId = row.id ∧ v.version = 1

theorem insertMemory_ok (ok : insertMemory lib id spaceId c note relation status now s = .ok s') :
    Inserted lib (c.row lib id spaceId status now) note relation s s' := by
  obtain ⟨_,apart,rest⟩ := bind_ok.mp ok
  obtain ⟨memories,inserted,last⟩ := bind_ok.mp rest
  cases last
  exact ⟨require_ok.mp apart,demand_ok.mp inserted,rfl,rfl,rfl,rfl,rfl,⟨_,rfl,rfl,rfl⟩⟩

variable {row : Memory σ}

theorem Inserted.mem (inserted : Inserted lib row note relation s s') : m ∈ s'.memories ↔ m ∈ s.memories ∨ m = row :=
  Table.mem_insert inserted.memories

theorem Inserted.find? (inserted : Inserted lib row note relation s s') (k : MemoryId) :
    s'.memories.find? k = if k = row.id then some row else s.memories.find? k := by
  split
  · rename_i same
    exact Table.find?_eq_some.mpr ⟨inserted.mem.mpr (.inr rfl),same.symm⟩
  · rename_i other
    cases found : s.memories.find? k with
    | none =>
      rw [Table.find?_eq_none] at found ⊢
      intro m inside
      rcases inserted.mem.mp inside with member | rfl
      · exact found m member
      · exact fun same => other same.symm
    | some m =>
      obtain ⟨member,same⟩ := Table.find?_eq_some.mp found
      exact Table.find?_eq_some.mpr ⟨inserted.mem.mpr (.inl member),same⟩

theorem Inserted.fresh (inserted : Inserted lib row note relation s s') : s.memories.find? row.id = none :=
  Table.find?_eq_none.mpr (Table.insert_eq_some.mp inserted.memories).1

theorem Inserted.cardsApart (inserted : Inserted lib row note relation s s') (apart : s.cardsApart) : s'.cardsApart := by
  intro m inside n inside' same
  rcases inserted.mem.mp inside with member | rfl
  · rcases inserted.mem.mp inside' with member' | rfl
    · exact apart m member n member' same
    · exact inserted.apart m member (sameCard_symm same)
  · rcases inserted.mem.mp inside' with member' | rfl
    · exact inserted.apart n member' same
    · exact same.1 rfl

end

/-- The rows of `gone` are archived, and nothing else of the memories is touched. -/
structure Archived (lib : Library σ) (gone : List MemoryId) (now : Time) (s s' : Store σ) : Prop where
  find? : ∀ k, s'.memories.find? k =
    (s.memories.find? k).map (fun m => if k ∈ gone then m.changed lib { status := some .archived } now else m)
  sources : s'.sources = s.sources
  decisions : s'.decisions = s.decisions
  candidates : s'.candidates = s.candidates
  derived : s'.derived = s.derived

theorem Archived.refl (lib : Library σ) (now : Time) (s : Store σ) : Archived lib [] now s s :=
  ⟨fun k => by simp,rfl,rfl,rfl,rfl⟩

variable {spaceId : SpaceId} {target : MemoryId} {decisionId : DecisionId} {note : NoteId}

theorem archiveDuplicate_ok {d : Memory σ} (ok : archiveDuplicate lib spaceId target decisionId note now s d = .ok s') :
    Archived lib [d.id] now s s' := by
  obtain ⟨s₁,update,last⟩ := bind_ok.mp ok
  obtain ⟨m,found,_,rfl⟩ := versionedUpdate_ok.mp update
  cases last
  refine ⟨fun k => ?_,rfl,rfl,rfl,rfl⟩
  refine (find?_changed found k).trans ?_
  by_cases same : k = d.id
  · rw [if_pos same,same,found,Option.map_some,if_pos (by simp)]
  · rw [if_neg same]
    simp [same]

theorem archived_of_fold {duplicates : List (Memory σ)} (distinct : (duplicates.map Memory.id).Nodup)
    (ok : duplicates.foldlM (archiveDuplicate lib spaceId target decisionId note now) s = .ok s') :
    Archived lib (duplicates.map Memory.id) now s s' := by
  induction duplicates generalizing s with
  | nil =>
    cases ok
    exact .refl lib now _
  | cons d duplicates ih =>
    obtain ⟨absent,distinct⟩ := List.nodup_cons.mp distinct
    rw [List.foldlM_cons] at ok
    obtain ⟨s₁,head,tail⟩ := bind_ok.mp ok
    have first := archiveDuplicate_ok head
    have rest := ih distinct tail
    refine ⟨fun k => ?_,rest.sources.trans first.sources,rest.decisions.trans first.decisions,
      rest.candidates.trans first.candidates,rest.derived.trans first.derived⟩
    rw [rest.find?,first.find?,Option.map_map]
    congr 1
    funext m
    by_cases same : k = d.id
    · simp [same,absent]
    · simp [same]

theorem duplicates_distinct (c : Candidate σ) (t : Memory σ) : ((s.duplicates lib c t).map Memory.id).Nodup :=
  s.memories.keyed.sublist (List.filter_sublist.map _)

theorem archiveTerminalTaskDuplicates_total (apart : s.cardsApart) (c : Candidate σ) :
    ∃ gone s', archiveTerminalTaskDuplicates lib target c decisionId note now s = .ok (gone,s') := by
  unfold archiveTerminalTaskDuplicates
  split
  · exact ⟨_,_,rfl⟩
  · rename_i t found
    split
    · exact ⟨_,_,rfl⟩
    · let there := fun u : Store σ => u.cardsApart ∧ ∀ m ∈ s.duplicates lib c t, (u.memories.find? m.id).isSome
      have round : ∀ d ∈ s.duplicates lib c t, ∀ u, there u →
          ∃ v, archiveDuplicate lib t.spaceId t.id decisionId note now u d = .ok v ∧ there v := by
        rintro d member u ⟨apart,known⟩
        obtain ⟨m,row⟩ := Option.isSome_iff_exists.mp (known d member)
        have alone : ∀ n ∈ u.memories, ¬(m.changed lib { status := some .archived } now).sameCard n :=
          changed_apart apart (Table.find?_eq_some.mp row).1 rfl rfl
        refine ⟨_,bind_ok.mpr ⟨_,versionedUpdate_ok.mpr ⟨m,row,alone,rfl⟩,rfl⟩,?_,fun m' listed => ?_⟩
        · exact cardsApart_put apart alone rfl
        · refine (congrArg Option.isSome (find?_changed row m'.id)).trans ?_
          split
          · rfl
          · exact known m' listed
      have initial : there s := ⟨apart,fun m listed => by
        rw [Table.find?_mem (List.mem_of_mem_filter listed)]
        rfl⟩
      obtain ⟨v,folded,_⟩ := foldlM_total there round initial
      exact ⟨_,v,bind_ok.mpr ⟨v,folded,rfl⟩⟩

theorem archiveTerminalTaskDuplicates_ok {c : Candidate σ} {gone : List MemoryId}
    (ok : archiveTerminalTaskDuplicates lib target c decisionId note now s = .ok (gone,s')) :
    Archived lib gone now s s' ∧ ∀ k ∈ gone, k ≠ target ∧ ∃ m ∈ s.memories.find? k, m.memoryType = .task ∧ m.status = .active := by
  unfold archiveTerminalTaskDuplicates at ok
  split at ok
  · cases ok
    exact ⟨.refl lib now s,by simp⟩
  · rename_i t found
    split at ok
    · cases ok
      exact ⟨.refl lib now _,by simp⟩
    · obtain ⟨s₁,archived,last⟩ := bind_ok.mp ok
      cases last
      refine ⟨archived_of_fold (duplicates_distinct c t) archived,fun k member => ?_⟩
      obtain ⟨m,chosen,rfl⟩ := List.mem_map.mp member
      obtain ⟨inside,meets⟩ := List.mem_filter.mp chosen
      simp only [Bool.and_eq_true,decide_eq_true_eq] at meets
      obtain ⟨⟨⟨⟨_,task⟩,active⟩,other⟩,_⟩ := meets
      rw [(Table.find?_eq_some.mp found).2] at other
      exact ⟨other,m,Table.find?_mem inside,task,active⟩

end Suixinji.Memories
