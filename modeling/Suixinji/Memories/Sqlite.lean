import Suixinji.Memories.Local
import Suixinji.Memories.Review
import Suixinji.Relational.Transition

/-! The tables of the local store (memory/repository.py), each with its own rows, and what the operations write of them: every operation
is a transaction of these writes. -/
namespace Suixinji.Memories.Sqlite
open Relational Checked Transition

variable {σ : Type}

abbrev VersionId := Nat
abbrev TraceId := Nat

/-- `memory_versions`. -/
structure VersionRow where
  id : VersionId
  memoryId : MemoryId
  version : Nat
  content : String
  status : MemoryStatus
  taskStatus : Option TaskStatus
  confidence : ℚ
  importance : ℚ
  validFrom : Option Time
  validUntil : Option Time
  reason : Option String
  sourceNoteId : Option NoteId
  deriving DecidableEq

/-- `memory_version_sources`. -/
structure VersionSource where
  versionId : VersionId
  noteId : NoteId
  deriving DecidableEq

/-- `memory_decisions`, with the evidence. -/
structure StoredDecision extends DecisionRow where
  evidence : List String := []
  deriving DecidableEq

/-- `memory_candidates`, less what no statement here reads. -/
structure StoredCandidate where
  candidateId : CandidateId
  spaceId : SpaceId
  noteId : NoteId
  content : String
  normalizedContent : String
  evidenceSpan : Option String := none
  lastError : Option String := none
  deriving DecidableEq

/-- `memory_traces`; the payload is the whole trace. -/
structure Trace where
  traceId : TraceId
  spaceId : SpaceId
  noteId : Option NoteId
  payload : String
  deriving DecidableEq

/-- `memory_extraction_states`, less the counts and times. -/
structure ExtractionState where
  noteId : NoteId
  spaceId : SpaceId
  lastError : Option String := none
  deriving DecidableEq

/-- `memory_consolidation_runs`, less the times. -/
structure ConsolidationRun where
  spaceId : SpaceId
  cadence : String
  periodKey : String
  error : Option String := none
  result : Option String := none
  deriving DecidableEq

def ConsolidationRun.key (r : ConsolidationRun) : SpaceId × String × String := (r.spaceId,r.cadence,r.periodKey)

structure Db (σ : Type) where
  memories : Table (Memory.id (σ := σ))
  sources : Table (fun s : Source => s)
  versions : Table VersionRow.id
  versionSources : Table (fun s : VersionSource => s)
  vectors : Table MemoryVector.memoryId
  relations : Table Relation.key
  decisions : Table (fun d : StoredDecision => d.id)
  candidates : Table StoredCandidate.candidateId
  traces : Table Trace.traceId
  extractions : Table ExtractionState.noteId
  runs : Table ConsolidationRun.key

def Db.empty (σ : Type) : Db σ := ⟨.empty,.empty,.empty,.empty,.empty,.empty,.empty,.empty,.empty,.empty,.empty⟩

/-- `_add_source_row`. -/
def addSourceRow (id : MemoryId) (noteId : NoteId) (relation : SourceRelation) (db : Db σ) : Db σ :=
  if ∃ r ∈ db.sources.rows, r.memoryId = id ∧ r.noteId = noteId then db
  else { db with sources := db.sources.insertNew [⟨id,noteId,relation⟩] }

def Db.noteIds (db : Db σ) (id : MemoryId) : List NoteId := (db.sources.rows.filter (·.memoryId = id)).map Source.noteId

def versionRow (ver : VersionId) (m : Memory σ) (taskStatus : Option TaskStatus) (reason : Option String) (sourceNoteId : Option NoteId) :
    VersionRow where
  id := ver
  memoryId := m.id
  version := m.currentVersion
  content := m.content
  status := m.status
  taskStatus
  confidence := m.confidence
  importance := m.importance
  validFrom := m.validFrom
  validUntil := m.validUntil
  reason
  sourceNoteId

/-- `_add_version`, with the id that is drawn for it. -/
def addVersion (ver : VersionId) (m : Memory σ) (taskStatus : Option TaskStatus) (reason : Option String) (sourceNoteId : Option NoteId)
    (db : Db σ) : Except Error (Db σ) := do
  let versions ← demand (db.versions.insert (versionRow ver m taskStatus reason sourceNoteId)) .integrityError
  let notes := db.noteIds m.id
  let all := notes ++ sourceNoteId.toList.filter (· ∉ notes)
  return { db with versions,versionSources := db.versionSources.insertNew (all.dedup.map (fun noteId => ⟨ver,noteId⟩)) }

/-- `_insert_memory_row`. -/
def insertMemoryRow (lib : Library σ) (id : MemoryId) (ver : VersionId) (spaceId : SpaceId) (c : Candidate σ) (sourceNoteId : NoteId)
    (relation : SourceRelation) (status : MemoryStatus) (now : Time) (db : Db σ) : Except Error (Db σ) := do
  let row := Local.row lib c id spaceId status now
  require (∀ m ∈ db.memories.rows, ¬row.sameCard m) .integrityError
  let memories ← demand (db.memories.insert row) .integrityError
  addVersion ver row (c.taskStatus.map TaskStatus.normalize) (some "created") (some sourceNoteId)
    (addSourceRow id sourceNoteId relation { db with memories })

/-- `_versioned_update_row`, and what `update_memory` writes. -/
def versionedUpdateRow (ver : VersionId) (m : Memory σ) (c : Changes σ) (reason : Option String) (sourceNoteId : Option NoteId) (now : Time)
    (db : Db σ) : Except Error (Db σ) := do
  let row := Local.changed m c now
  require (∀ n ∈ db.memories.rows, ¬row.sameCard n) .integrityError
  addVersion ver row row.taskStatus reason sourceNoteId { db with memories := db.memories.put row }

/-- `_add_relation_row`. -/
def addRelationRow (spaceId : SpaceId) (source target : MemoryId) (relation : RelationType) (decisionId : Option DecisionId) (db : Db σ) : Db σ :=
  if ∃ r ∈ db.relations.rows, r.sourceMemoryId = source ∧ r.targetMemoryId = target ∧ r.relation = relation then db
  else { db with relations := db.relations.insertNew [⟨spaceId,source,target,relation,decisionId⟩] }

/-- `purge_memory`: its deletions, where the memory is there. -/
def purgeMemory (id : MemoryId) (db : Db σ) : Bool × Db σ :=
  if (db.memories.find? id).isNone then (false,db)
  else
    (true,{ db with
      relations := db.relations.filter (fun r => !(r.sourceMemoryId = id || r.targetMemoryId = id))
      vectors := db.vectors.filter (·.memoryId ≠ id)
      sources := db.sources.filter (·.memoryId ≠ id)
      versions := db.versions.filter (·.memoryId ≠ id)
      memories := db.memories.filter (·.id ≠ id) })

inductive Write (σ : Type) where
  | insertMemory (id : MemoryId) (ver : VersionId) (spaceId : SpaceId) (c : Candidate σ) (sourceNoteId : NoteId) (relation : SourceRelation)
    (status : MemoryStatus) (now : Time)
  | addSource (id : MemoryId) (noteId : NoteId) (relation : SourceRelation)
  | versionedUpdate (ver : VersionId) (m : Memory σ) (c : Changes σ) (reason : Option String) (sourceNoteId : Option NoteId) (now : Time)
  /-- Columns of a memory that no version is made for: its times, its confidence, how often it was read. -/
  | updateMemory (m : Memory σ)
  | addRelation (spaceId : SpaceId) (source target : MemoryId) (relation : RelationType) (decisionId : Option DecisionId)
  | saveDecision (r : StoredDecision)
  | saveCandidate (c : StoredCandidate)
  | saveTrace (t : Trace)
  | saveExtraction (s : ExtractionState)
  | saveRun (r : ConsolidationRun)
  | purge (id : MemoryId)

def write (lib : Library σ) (db : Db σ) : Write σ → Except Error (Db σ)
  | .insertMemory id ver spaceId c sourceNoteId relation status now => insertMemoryRow lib id ver spaceId c sourceNoteId relation status now db
  | .addSource id noteId relation => .ok (addSourceRow id noteId relation db)
  | .versionedUpdate ver m c reason sourceNoteId now => versionedUpdateRow ver m c reason sourceNoteId now db
  | .updateMemory m => .ok { db with memories := db.memories.put m }
  | .addRelation spaceId source target relation decisionId => .ok (addRelationRow spaceId source target relation decisionId db)
  | .saveDecision r => .ok { db with decisions := db.decisions.upsert r }
  | .saveCandidate c => .ok { db with candidates := db.candidates.upsert c }
  | .saveTrace t => .ok { db with traces := db.traces.upsert t }
  | .saveExtraction s => .ok { db with extractions := db.extractions.upsert s }
  | .saveRun r => .ok { db with runs := db.runs.upsert r }
  | .purge id => .ok (purgeMemory id db).2

def Step (lib : Library σ) (db : Db σ) (w : Write σ) (db' : Db σ) : Prop := write lib db w = .ok db'

def Db.reviewed (db : Db σ) (id : MemoryId) : Option StoredDecision :=
  (latest (·.reviews id) (db.decisions.rows.map StoredDecision.toDecisionRow)).bind (fun r => db.decisions.find? r.id)

def Db.pending? (db : Db σ) (id : MemoryId) : Option (Memory σ) := (db.memories.find? id).filter (·.status = .pendingReview)

/-- What an approval comes to: its action, the memory it returns, those it names, and what it writes. -/
structure Approval (σ : Type) where
  action : DecisionAction
  resultId : MemoryId
  resultIds : List MemoryId
  writes : List (Write σ)

/-- `merge` and `update_task`: the target takes the notes and the content, and the pending memory is archived. -/
def approvedMutation (lib : Library σ) (pending target : Memory σ) (isTaskUpdate : Bool) (notes : List NoteId) (sourceNoteId : NoteId)
    (now : Time) (v w : VersionId) : List (Write σ) :=
  notes.map (fun noteId => .addSource target.id noteId (if isTaskUpdate then .updatedBy else .supportedBy)) ++
    [.versionedUpdate v target {
        content := some (if isTaskUpdate then pending.content else mergeContent lib target.content pending.content)
        taskStatus := if isTaskUpdate then pending.taskStatus else none
        confidence := some (raised target.confidence pending.confidence)
        importance := if isTaskUpdate then none else some (max target.importance pending.importance)
        lastConfirmedAt := some now }
      (some (if isTaskUpdate then "user_approved_task_update" else "user_approved_merge")) (some sourceNoteId) now,
    .versionedUpdate w pending { status := some .archived }
      (some (if isTaskUpdate then "task_update_applied_after_review" else "merged_after_review")) (some sourceNoteId) now]

/-- `supersede` and `conflict`: both memories change their status, and are related to each other. -/
def approvedReplacement (pending target : Memory σ) (supersedes : Bool) (decisionId : DecisionId) (sourceNoteId : NoteId) (now : Time)
    (v w : VersionId) : List (Write σ) :=
  [.addSource target.id sourceNoteId .contradictedBy,
    .versionedUpdate v target {
        status := some (if supersedes then .superseded else .conflicted)
        validUntil := if supersedes then some now else none }
      (some (if supersedes then "user_approved_supersede" else "user_approved_conflict")) (some sourceNoteId) now,
    .versionedUpdate w pending {
        status := some (if supersedes then .active else .conflicted)
        lastConfirmedAt := if supersedes then some now else none }
      (some (if supersedes then "user_approved_pending_memory" else "user_approved_conflict")) (some sourceNoteId) now,
    .addRelation pending.spaceId pending.id target.id (if supersedes then .supersedes else .conflictsWith) (some decisionId),
    .addRelation pending.spaceId target.id pending.id (if supersedes then .supersededBy else .conflictsWith) (some decisionId)]

def approval (lib : Library σ) (pending : Memory σ) (decision : StoredDecision) (target : Option (Memory σ)) (notes : List NoteId)
    (now : Time) (v w : VersionId) : Except Error (Approval σ) :=
  let sourceNoteId := notes.head?.getD decision.noteId
  match decision.relation,target with
  | .new,_ => .ok ⟨.insert,pending.id,[pending.id],[.versionedUpdate v pending { status := some .active,lastConfirmedAt := some now }
      (some "user_approved_pending_memory") (some sourceNoteId) now]⟩
  | .merge,some t => .ok ⟨.merge,t.id,[t.id,pending.id],approvedMutation lib pending t false notes sourceNoteId now v w ++
      [.addRelation pending.spaceId t.id pending.id .derivedFrom (some decision.id)]⟩
  | .updateTask,some t => .ok ⟨.updateTask,t.id,[t.id,pending.id],approvedMutation lib pending t true notes sourceNoteId now v w⟩
  | .supersede,some t => .ok ⟨.supersede,pending.id,[pending.id,t.id],approvedReplacement pending t true decision.id sourceNoteId now v w⟩
  | .conflict,some t => .ok ⟨.conflict,pending.id,[pending.id,t.id],approvedReplacement pending t false decision.id sourceNoteId now v w⟩
  | relation,_ => .error (.valueError s!"unsupported pending review relation: {relation.value}")

/-- `approve_pending_memory`, by the ids that are drawn for two versions, and the id of the memory it returns. -/
def approvePendingMemory (lib : Library σ) (id : MemoryId) (now : Time) (v w : VersionId) (db : Db σ) :
    Except Error (Option MemoryId × Db σ) :=
  match db.pending? id,db.reviewed id with
  | some pending,some decision => do
    let target := decision.targetMemoryIds.head?.bind db.memories.find?
    require (decision.targetMemoryIds = [] ∨ target.isSome) 
      (.valueError s!"pending review target memory not found: {decision.targetMemoryIds.headD 0}")
    let done ← approval lib pending decision target (db.noteIds id) now v w
    let approved := { decision with toDecisionRow := { decision.approved done.action done.resultIds now with error := none } }
    let db ← (done.writes ++ [Write.saveDecision approved]).foldlM (write lib) db
    return (some done.resultId,db)
  | _,_ => .ok (none,db)

theorem approve_run {lib : Library σ} {id : MemoryId} {now : Time} {v w : VersionId} {db db' : Db σ} {returned : Option MemoryId}
    (ok : approvePendingMemory lib id now v w db = .ok (returned,db')) : ∃ ws, Run (Step lib) db ws db' := by
  unfold approvePendingMemory at ok
  split at ok
  · obtain ⟨_,_,ok⟩ := bind_ok.mp ok
    obtain ⟨done,_,ok⟩ := bind_ok.mp ok
    obtain ⟨db₁,wrote,ok⟩ := bind_ok.mp ok
    cases ok
    exact ⟨_,.of_checked wrote⟩
  · cases ok
    exact ⟨[],.nil _⟩

end Suixinji.Memories.Sqlite
