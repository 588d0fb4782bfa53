import Mathlib.Data.List.Dedup
import Suixinji.Memories.Sqlite
import Suixinji.Memories.System

/-! What `purge_memory` leaves of a memory in the local store: the notes of its versions stay, in every state that the operations reach. -/
namespace Suixinji.Memories.Sqlite
open Relational Checked Transition

variable {σ : Type}

def Db.texts (db : Db σ) : List String :=
  db.memories.rows.map (·.content) ++
  db.versions.rows.flatMap (fun v => v.content::v.reason.toList) ++
  db.decisions.rows.flatMap (fun d => d.reason::(d.error.toList ++ d.evidence)) ++
  db.candidates.rows.flatMap (fun c => [c.content,c.normalizedContent] ++ c.evidenceSpan.toList ++ c.lastError.toList) ++
  db.traces.rows.map (·.payload) ++
  db.extractions.rows.flatMap (·.lastError.toList) ++
  db.runs.rows.flatMap (fun r => r.error.toList ++ r.result.toList)

def Db.contents (db : Db σ) (id : MemoryId) : List String :=
  (db.memories.rows.filter (·.id = id)).map (·.content) ++ (db.versions.rows.filter (·.memoryId = id)).map (·.content)

/-- Every row that names a memory or a version names one that is there. -/
structure Referential (db : Db σ) : Prop where
  sources : ∀ r ∈ db.sources, ∃ m ∈ db.memories, m.id = r.memoryId
  versions : ∀ v ∈ db.versions, ∃ m ∈ db.memories, m.id = v.memoryId
  versionSources : ∀ r ∈ db.versionSources, ∃ v ∈ db.versions, v.id = r.versionId
  vectors : ∀ v ∈ db.vectors, ∃ m ∈ db.memories, m.id = v.memoryId
  relations : ∀ r ∈ db.relations, (∃ m ∈ db.memories, m.id = r.sourceMemoryId) ∧ ∃ m ∈ db.memories, m.id = r.targetMemoryId

def Db.otherVersion (db : Db σ) (id : MemoryId) (r : VersionSource) : Bool := db.versions.rows.any (fun v => v.id = r.versionId && v.memoryId ≠ id)

structure OthersKept (id : MemoryId) (db db' : Db σ) : Prop where
  memories : db'.memories.rows.filter (·.id ≠ id) = db.memories.rows.filter (·.id ≠ id)
  sources : db'.sources.rows.filter (·.memoryId ≠ id) = db.sources.rows.filter (·.memoryId ≠ id)
  versions : db'.versions.rows.filter (·.memoryId ≠ id) = db.versions.rows.filter (·.memoryId ≠ id)
  versionSources : db'.versionSources.rows.filter (db.otherVersion id) = db.versionSources.rows.filter (db.otherVersion id)
  vectors : db'.vectors.rows.filter (·.memoryId ≠ id) = db.vectors.rows.filter (·.memoryId ≠ id)
  relations : db'.relations.rows.filter (fun r => r.sourceMemoryId ≠ id ∧ r.targetMemoryId ≠ id) =
    db.relations.rows.filter (fun r => r.sourceMemoryId ≠ id ∧ r.targetMemoryId ≠ id)
  decisions : db'.decisions.rows.filter (fun d => id ∉ d.targetMemoryIds ++ d.resultMemoryIds) =
    db.decisions.rows.filter (fun d => id ∉ d.targetMemoryIds ++ d.resultMemoryIds)

structure Gone (lib : Library σ) (id : MemoryId) (db db' : Db σ) : Prop where
  referential : Referential db'
  forgotten : ∀ content ∈ db.contents id, ∀ text ∈ db'.texts, Text.contains text content → ∃ m ∈ db'.memories, m.content = content
  others : OthersKept id db db'
  unapproved : ∀ pending decision, db'.reviewed pending = some decision → id ∈ decision.targetMemoryIds →
    ∀ now v w, (∃ error, approvePendingMemory lib pending now v w db' = .error error) ∨
      ∃ returned, approvePendingMemory lib pending now v w db' = .ok (returned,db')

section

variable {lib : Library σ} {db db' : Db σ} {id : MemoryId}

theorem purge_kept (there : (db.memories.find? id).isSome) : (purgeMemory id db).2 = { db with
    relations := db.relations.filter (fun r => !(r.sourceMemoryId = id || r.targetMemoryId = id))
    vectors := db.vectors.filter (·.memoryId ≠ id)
    sources := db.sources.filter (·.memoryId ≠ id)
    versions := db.versions.filter (·.memoryId ≠ id)
    memories := db.memories.filter (·.id ≠ id) } := by
  obtain ⟨m,found⟩ := Option.isSome_iff_exists.mp there
  rw [purgeMemory,found]
  rfl

theorem purge_others : OthersKept id db (purgeMemory id db).2 := by
  unfold purgeMemory
  split
  · exact ⟨rfl,rfl,rfl,rfl,rfl,rfl,rfl⟩
  · refine ⟨?_,?_,?_,rfl,?_,?_,rfl⟩
    all_goals simp [Table.filter,List.filter_filter]

def HasNote (db : Db σ) (id : MemoryId) : Prop := ∃ v ∈ db.versions, v.memoryId = id ∧ ∃ r ∈ db.versionSources, r.versionId = v.id

def Noted (db : Db σ) : Prop := ∀ m ∈ db.memories, HasNote db m.id

theorem HasNote.mono (noted : HasNote db id) (versions : ∀ v ∈ db.versions, v ∈ db'.versions)
    (sources : ∀ r ∈ db.versionSources, r ∈ db'.versionSources) : HasNote db' id := by
  obtain ⟨v,there,of,r,named,same⟩ := noted
  exact ⟨v,versions v there,of,r,sources r named,same⟩

section Statements

variable {m : Memory σ} {ver : VersionId} {taskStatus : Option TaskStatus} {reason : Option String} {sourceNoteId : Option NoteId}

theorem addVersion_memories (ok : addVersion ver m taskStatus reason sourceNoteId db = .ok db') : db'.memories = db.memories := by
  obtain ⟨versions,_,ok⟩ := bind_ok.mp ok
  cases ok
  rfl

theorem addVersion_hasNote (ok : addVersion ver m taskStatus reason sourceNoteId db = .ok db') (noted : HasNote db id) : HasNote db' id := by
  obtain ⟨versions,inserted,ok⟩ := bind_ok.mp ok
  cases ok
  exact noted.mono (fun v there => (Table.mem_insert (demand_ok.mp inserted)).mpr (.inl there)) fun r there => Table.mem_insertNew_of_mem there _

theorem addVersion_new (ok : addVersion ver m taskStatus reason sourceNoteId db = .ok db') {noteId : NoteId} (has : noteId ∈ db.noteIds m.id) :
    HasNote db' m.id := by
  obtain ⟨versions,inserted,ok⟩ := bind_ok.mp ok
  cases ok
  refine ⟨_,(Table.mem_insert (demand_ok.mp inserted)).mpr (.inr rfl),rfl,⟨ver,noteId⟩,Table.mem_insertNew_of_given ?_,rfl⟩
  exact List.mem_map.mpr ⟨noteId,List.mem_dedup.mpr (List.mem_append_left _ has),rfl⟩

theorem addSourceRow_noteIds {noteId : NoteId} {relation : SourceRelation} : noteId ∈ (addSourceRow id noteId relation db).noteIds id := by
  unfold addSourceRow
  split
  · rename_i there
    obtain ⟨r,member,of,same⟩ := there
    exact List.mem_map.mpr ⟨r,List.mem_filter.mpr ⟨member,decide_eq_true of⟩,same⟩
  · have added : (⟨id,noteId,relation⟩ : Source) ∈ db.sources.insertNew [⟨id,noteId,relation⟩] :=
      Table.mem_insertNew_of_given List.mem_cons_self
    exact List.mem_map.mpr ⟨_,List.mem_filter.mpr ⟨added,decide_eq_true rfl⟩,rfl⟩

theorem addSourceRow_others (id : MemoryId) (noteId : NoteId) (relation : SourceRelation) (db : Db σ) :
    (addSourceRow id noteId relation db).memories = db.memories ∧ (addSourceRow id noteId relation db).versions = db.versions ∧
    (addSourceRow id noteId relation db).versionSources = db.versionSources := by
  unfold addSourceRow
  split <;> exact ⟨rfl,rfl,rfl⟩

theorem addRelationRow_others (spaceId : SpaceId) (source target : MemoryId) (relation : RelationType) (decisionId : Option DecisionId)
    (db : Db σ) :
    (addRelationRow spaceId source target relation decisionId db).memories = db.memories ∧
    (addRelationRow spaceId source target relation decisionId db).versions = db.versions ∧
    (addRelationRow spaceId source target relation decisionId db).versionSources = db.versionSources := by
  unfold addRelationRow
  split <;> exact ⟨rfl,rfl,rfl⟩

theorem insertMemoryRow_noted {spaceId : SpaceId} {c : Candidate σ} {noteId : NoteId} {relation : SourceRelation} {status : MemoryStatus}
    {now : Time} (ok : insertMemoryRow lib id ver spaceId c noteId relation status now db = .ok db') (noted : Noted db) : Noted db' := by
  obtain ⟨_,_,ok⟩ := bind_ok.mp ok
  obtain ⟨memories,inserted,ok⟩ := bind_ok.mp ok
  obtain ⟨same,versions,sources⟩ := addSourceRow_others id noteId relation { db with memories }
  intro m member
  rw [addVersion_memories ok,same] at member
  rcases (Table.mem_insert (demand_ok.mp inserted)).mp member with old | rfl
  · refine addVersion_hasNote ok ((noted m old).mono (fun v there => ?_) fun r there => ?_)
    · rwa [versions]
    · rwa [sources]
  · exact addVersion_new ok addSourceRow_noteIds

theorem put_ids {m : Memory σ} : ∀ n ∈ db.memories.put m, ∃ old ∈ db.memories, old.id = n.id := by
  intro n member
  rcases Table.mem_put.mp member with ⟨old,_⟩ | ⟨rfl,old,there,same⟩
  · exact ⟨n,old,rfl⟩
  · exact ⟨old,there,same⟩

theorem purge_noted (noted : Noted db) (id : MemoryId) : Noted (purgeMemory id db).2 := by
  unfold purgeMemory
  split
  · exact noted
  · intro m member
    obtain ⟨member,other⟩ := Table.mem_filter.mp member
    obtain ⟨v,there,of,named⟩ := noted m member
    have other : m.id ≠ id := by simpa using other
    exact ⟨v,Table.mem_filter.mpr ⟨there,by simpa [of] using other⟩,of,named⟩

theorem write_noted {w : Write σ} (step : Step lib db w db') (noted : Noted db) : Noted db' := by
  cases w with
  | insertMemory => exact insertMemoryRow_noted step noted
  | addSource id noteId relation =>
    cases step
    obtain ⟨same,versions,sources⟩ := addSourceRow_others id noteId relation db
    intro m member
    rw [same] at member
    exact (noted m member).mono (fun v there => by rwa [versions]) fun r there => by rwa [sources]
  | versionedUpdate ver m c reason sourceNoteId now =>
    obtain ⟨_,_,ok⟩ := bind_ok.mp step
    intro n member
    rw [addVersion_memories ok] at member
    obtain ⟨old,there,same⟩ := put_ids n member
    exact same ▸ addVersion_hasNote ok (noted old there)
  | updateMemory m =>
    cases step
    intro n member
    obtain ⟨old,there,same⟩ := put_ids n member
    exact same ▸ noted old there
  | addRelation spaceId source target relation decisionId =>
    cases step
    obtain ⟨same,versions,sources⟩ := addRelationRow_others spaceId source target relation decisionId db
    intro m member
    rw [same] at member
    exact (noted m member).mono (fun v there => by rwa [versions]) fun r there => by rwa [sources]
  | purge id =>
    cases step
    exact purge_noted noted id
  | saveDecision | saveCandidate | saveTrace | saveExtraction | saveRun =>
    cases step
    exact noted

end Statements

theorem reached_noted {ws : List (Write σ)} (run : Run (Step lib) (Db.empty σ) ws db) : Noted db :=
  run.invariant Noted (fun _ _ _ noted step => write_noted step noted) fun m none => absurd none (Table.not_mem_empty m)

/-- The notes of the versions that are deleted name versions that are gone. -/
theorem purge_dangles {m : Memory σ} (member : m ∈ db.memories) (noted : HasNote db m.id) : ¬Referential (purgeMemory m.id db).2 := by
  intro referential
  obtain ⟨v,there,of,r,named,same⟩ := noted
  have found : (db.memories.find? m.id).isSome := by rw [Table.find?_mem member]; rfl
  rw [purge_kept found] at referential
  obtain ⟨kept,survives,again⟩ := referential.versionSources r named
  obtain ⟨member',other⟩ := Table.mem_filter.mp survives
  have one : kept = v := db.versions.unique member' there (again.trans same)
  rw [one,of] at other
  simp at other

/-- In every state that the operations reach, and for every memory there, something is left after `purge_memory`. -/
theorem purge_never_gone {ws : List (Write σ)} (run : Run (Step lib) (Db.empty σ) ws db) {m : Memory σ} (member : m ∈ db.memories) :
    ¬Gone lib m.id db (purgeMemory m.id db).2 := fun gone => purge_dangles member (reached_noted run m member) gone.referential

end

def milk : Candidate Unit where
  candidateId := 1
  memoryType := .semantic
  content := "milk"
  importance := 1
  confidence := 1
  scope := ()
  writable := Memories.none_writable

def milkWrites : List (Write Unit) := [.saveCandidate ⟨1,1,1,"milk","milk",none,none⟩,.insertMemory 1 1 1 milk 1 .createdFrom .active 0]

def milkDb : Db Unit := (milkWrites.foldlM (write (.plain Unit)) (.empty Unit)).toOption.getD (.empty Unit)

theorem milk_run : Run (Step (.plain Unit)) (.empty Unit) milkWrites milkDb := .of_checked (ok_of_isSome _ (by decide +kernel))

theorem milk_not_gone : ¬Gone (.plain Unit) 1 milkDb (purgeMemory 1 milkDb).2 :=
  purge_never_gone milk_run (m := Local.row (.plain Unit) milk 1 1 .active 0) (by decide +kernel)

/-- The candidate of the memory still says what was purged, and no memory does. -/
theorem milk_remembered : ¬Gone (.plain Unit) 1 milkDb (purgeMemory 1 milkDb).2 := by
  intro gone
  obtain ⟨m,member,_⟩ := gone.forgotten "milk" (by decide +kernel) "milk" (by decide +kernel) (by decide +kernel)
  have none_ : (purgeMemory 1 milkDb).2.memories.rows = [] := by decide +kernel
  rw [Table.mem_def,none_] at member
  exact List.not_mem_nil member

end Suixinji.Memories.Sqlite
