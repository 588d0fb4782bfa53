import Suixinji.Relational.Checked
import Suixinji.Memories.Schema
import Suixinji.Relational.Text

/-! The statements that the PostgreSQL commands are built from
(repositories/postgres/memory.py, repositories/postgres/semantic_profile_projection.py).
The caller holds the lock of each row it writes, so a statement reads the row
as the transaction left it. -/
namespace Suixinji.Memories
open Relational Checked
open Text (stripped)

variable {σ : Type}

/-- `str(text or "")`. -/
def orEmpty (text : Option String) : String := text.getD ""

/-- `effective_memory_key`; an empty key counts as absent. -/
def Candidate.effectiveMemoryKey (lib : Library σ) (c : Candidate σ) : String :=
  (c.memoryKey.filter (· ≠ "")).getD (lib.memoryKeyFor c.memoryType c.subject c.predicate c.objectValue c.content)

def Candidate.effectiveReason (c : Candidate σ) : Option String := c.extractionReason.filter (· ≠ "") <|> c.reason

/-- `memory_content_hash`. -/
def memoryContentHash (lib : Library σ) (m : Memory σ) : ContentHash :=
  ⟨" | ".intercalate [m.memoryType.text,orEmpty m.subject,orEmpty m.predicate,orEmpty m.objectValue,m.content] ++
    lib.embeddingContract⟩

def MemoryVector.readyFor (v : MemoryVector) (h : ContentHash) : Bool :=
  v.status = .ready && v.contentHash = h && v.embedded

/-- `_schedule_memory_embedding`; a task whose idempotency key is taken is not created again. -/
def scheduleMemoryEmbedding (lib : Library σ) (m : Memory σ) (d : Derived) : Derived :=
  let contentHash := memoryContentHash lib m
  if !lib.vectorLifecycle || (d.vectors.find? m.id).any (·.readyFor contentHash) then d
  else { d with
    vectors := d.vectors.upsert { memoryId := m.id,contentHash,status := .pending }
    tasks := d.tasks.insertNew [{ memoryId := m.id,contentHash }] }

/-- `str(memory.predicate or "other")`. -/
def Memory.facetText (m : Memory σ) : String := (m.predicate.filter (· ≠ "")).getD "other"

def Memory.facet (m : Memory σ) : String := if stripped m.facetText = "" then "other" else stripped m.facetText

/-- `mark_semantic_projection_dirty_in_session`, of a semantic memory that is active. -/
def Projection.marked (p : Projection) : Projection := { p with targetRevision := p.targetRevision + 1,fresh := false }

/-- `_mark_semantic_profile_dirty`. -/
def markSemanticProfileDirty (lib : Library σ) (m : Memory σ) (d : Derived) : Derived :=
  if lib.profileProjection && m.memoryType = .semantic && m.status = .active then
    { d with projections := d.projections.upsert (((d.projections.find? (m.spaceId,m.facet)).map Projection.marked).getD
        ⟨m.spaceId,m.facet,[],0,1,false⟩) }
  else d

def Store.markDirty (s : Store σ) (lib : Library σ) (m : Memory σ) : Store σ :=
  { s with derived := markSemanticProfileDirty lib m s.derived }

def Store.markDirtyId (s : Store σ) (lib : Library σ) (id : MemoryId) : Store σ :=
  { s with derived := ((s.memories.find? id).map (fun m => markSemanticProfileDirty lib m s.derived)).getD s.derived }

/-- `_add_source`: whether the row is new. -/
def addSource (memoryId : MemoryId) (noteId : NoteId) (relation : SourceRelation) (s : Store σ) : Bool × Store σ :=
  let source : Source := ⟨memoryId,noteId,relation⟩
  (source ∉ s.sources.rows,{ s with sources := s.sources.insertNew [source] })

def Store.noteIds (s : Store σ) (memoryId : MemoryId) : List NoteId :=
  (s.sources.rows.filter (·.memoryId = memoryId)).map Source.noteId

/-- `_add_version`. -/
def addVersion (m : Memory σ) (reason : Option String) (sourceNoteId : Option NoteId) (sourceNoteIds : List NoteId)
    (s : Store σ) : Store σ :=
  let given := if sourceNoteIds = [] then s.noteIds m.id else sourceNoteIds
  let all := given ++ sourceNoteId.toList.filter (· ∉ given)
  { s with versions := s.versions ++ [{
      memoryId := m.id,version := m.currentVersion,content := m.content,status := m.status
      taskStatus := m.taskStatus.map TaskStatus.normalize,confidence := m.confidence,importance := m.importance
      validFrom := m.validFrom,validUntil := m.validUntil,reason,sourceNoteId,sourceNoteIds := all.dedup }] }

/-- The row that `ix_preference_card_identity` refuses beside `m`. -/
def Memory.sameCard (m n : Memory σ) : Prop :=
  n.id ≠ m.id ∧ n.spaceId = m.spaceId ∧ n.memoryKey = m.memoryKey ∧ n.memoryKeyVersion = .preferenceCardV1 ∧
    m.memoryKeyVersion = .preferenceCardV1

instance (m n : Memory σ) : Decidable (m.sameCard n) := inferInstanceAs (Decidable (_ ∧ _))

/-- The row `_insert_memory` creates. -/
def Candidate.row (lib : Library σ) (c : Candidate σ) (id : MemoryId) (spaceId : SpaceId) (status : MemoryStatus)
    (now : Time) : Memory σ where
  id
  spaceId
  memoryType := c.memoryType
  content := c.content
  importance := c.importance
  confidence := c.confidence
  status
  taskStatus := c.taskStatus.map TaskStatus.normalize
  subject := c.subject
  predicate := c.predicate
  objectValue := c.objectValue
  memoryKey := some (c.effectiveMemoryKey lib)
  memoryKeyVersion := c.memoryKeyVersion
  polarity := c.polarity
  scope := c.scope
  validFrom := c.validFrom
  validUntil := c.validUntil
  lastConfirmedAt := some now
  updatedAt := now

/-- `_insert_memory`, under an id that is drawn for it. -/
def insertMemory (lib : Library σ) (id : MemoryId) (spaceId : SpaceId) (c : Candidate σ) (sourceNoteId : NoteId)
    (sourceRelation : SourceRelation) (status : MemoryStatus) (now : Time) (s : Store σ) : Except Error (Store σ) := do
  let row := c.row lib id spaceId status now
  require (∀ m ∈ s.memories.rows, ¬row.sameCard m) .integrityError
  let memories ← demand (s.memories.insert row) .integrityError
  let sourced := (addSource id sourceNoteId sourceRelation { s with memories }).2
  let reason := (c.effectiveReason.filter (· ≠ "")).getD "memory_created"
  let versioned := addVersion row (some reason) (some sourceNoteId) [] sourced
  return { versioned with derived := scheduleMemoryEmbedding lib row versioned.derived }

/-- The confidence after one more source: a quarter of the way and a little more, at most 0.99. -/
def strengthened (old given : ℚ) : ℚ := min (99/100) (max old (old + (given - old) * (1/4) + 1/50))

/-- The confidence after a mutation. -/
def raised (old given : ℚ) : ℚ := min (99/100) (max old given)

/-- The columns `_versioned_update` is given. -/
structure Changes (σ : Type) where
  content : Option String := none
  status : Option MemoryStatus := none
  taskStatus : Option TaskStatus := none
  validUntil : Option Time := none
  confidence : Option ℚ := none
  importance : Option ℚ := none
  lastConfirmedAt : Option Time := none
  objectValue : Option String := none
  subject : Option String := none
  scope : Option σ := none
  memoryKey : Option String := none
  memoryKeyVersion : Option KeyVersion := none
  polarity : Option String := none

/-- The key that goes with a new content, read before the object value changes. -/
def Memory.rekeyed (lib : Library σ) (m : Memory σ) (subject : Option String) (content : String) : Option String :=
  if m.memoryKeyVersion.keyKept then m.memoryKey
  else some (lib.memoryKeyFor m.memoryType subject m.predicate m.objectValue content)

/-- The row after `_versioned_update`. -/
def Memory.changed (lib : Library σ) (m : Memory σ) (c : Changes σ) (now : Time) : Memory σ :=
  let subject := c.subject <|> m.subject
  { m with
    subject
    content := c.content.getD m.content
    memoryKey := c.memoryKey <|> c.content.elim m.memoryKey (m.rekeyed lib subject)
    status := c.status.getD m.status
    taskStatus := c.taskStatus.map TaskStatus.normalize <|> m.taskStatus
    validUntil := c.validUntil <|> m.validUntil
    confidence := c.confidence.getD m.confidence
    importance := c.importance.getD m.importance
    lastConfirmedAt := c.lastConfirmedAt <|> m.lastConfirmedAt
    objectValue := c.objectValue <|> m.objectValue
    scope := c.scope.getD m.scope
    memoryKeyVersion := c.memoryKeyVersion.getD m.memoryKeyVersion
    polarity := c.polarity <|> m.polarity
    updatedAt := now
    currentVersion := m.currentVersion + 1 }

/-- The rows after `_versioned_update` of `m`. -/
def Store.rewrite (lib : Library σ) (m : Memory σ) (c : Changes σ) (reason : Option String) (sourceNoteId : Option NoteId)
    (sourceNoteIds : List NoteId) (now : Time) (s : Store σ) : Store σ :=
  let row := m.changed lib c now
  let written := addVersion row reason sourceNoteId sourceNoteIds { s with memories := s.memories.put row }
  { written with
    derived := if c.content.isSome then scheduleMemoryEmbedding lib row written.derived else written.derived }

/-- `_versioned_update` of the row that has the id. -/
def versionedUpdate (lib : Library σ) (id : MemoryId) (c : Changes σ) (reason : Option String)
    (sourceNoteId : Option NoteId) (now : Time) (s : Store σ) (sourceNoteIds : List NoteId := []) :
    Except Error (Store σ) := do
  let m ← demand (s.memories.find? id) .integrityError
  require (∀ n ∈ s.memories.rows, ¬(m.changed lib c now).sameCard n) .integrityError
  return s.rewrite lib m c reason sourceNoteId sourceNoteIds now

/-- `_add_relation`. -/
def addRelation (spaceId : SpaceId) (source target : MemoryId) (relation : RelationType) (decisionId : Option DecisionId)
    (s : Store σ) : Store σ :=
  { s with relations := s.relations.insertNew [⟨spaceId,source,target,relation,decisionId⟩] }

/-- The row that was created last, of those that meet a condition. -/
def latest (p : DecisionRow → Bool) (rows : List DecisionRow) : Option DecisionRow :=
  (rows.filter p).foldl (fun best r => if best.any (fun b => r.createdAt ≤ b.createdAt) then best else some r) none

def Decision.row (d : Decision) (spaceId : SpaceId) (noteId : NoteId) (status : DecisionStatus)
    (resultIds : List MemoryId) (error : Option String) (now : Time) : DecisionRow where
  id := d.decisionId
  spaceId
  noteId
  candidateId := d.candidateId
  relation := d.relation
  targetMemoryIds := d.targetMemoryIds
  reason := d.reason
  recommendedAction := d.recommendedAction
  status
  resultMemoryIds := resultIds
  error
  targetSnapshotVersion := d.targetSnapshotVersion
  createdAt := now
  appliedAt := if status = .applied then some now else none

/-- `_save_decision`: a decision that is there keeps all but its outcome; a second
decision on one candidate of a space is refused (`uq_memory_decision_space_candidate`). -/
def saveDecision (spaceId : SpaceId) (noteId : NoteId) (d : Decision) (status : DecisionStatus)
    (resultIds : List MemoryId) (error : Option String) (now : Time) (s : Store σ) : Except Error (Store σ) :=
  match s.decisions.find? d.decisionId with
  | some row => .ok { s with decisions := s.decisions.put { row with status,resultMemoryIds := resultIds,error } }
  | none => do
    require (∀ r ∈ s.decisions.rows, ¬(r.spaceId = spaceId ∧ r.candidateId = d.candidateId)) .integrityError
    let decisions ← demand (s.decisions.insert (d.row spaceId noteId status resultIds error now)) .integrityError
    return { s with decisions }

end Suixinji.Memories
