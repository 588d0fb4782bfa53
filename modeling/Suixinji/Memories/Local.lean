import Suixinji.Memories.Consolidate

/-! The local store (memory/repository.py): `apply_memory_decision` on SQLite, in a
transaction that takes the write lock first. It has no vectors and no projections. -/
namespace Suixinji.Memories.Local
open Relational Checked

variable {σ : Type}

/-- `_add_source_row`: one note is a source of a memory once, under whatever relation. -/
def addSourceRow (memoryId : MemoryId) (noteId : NoteId) (relation : SourceRelation) (s : Store σ) : Bool × Store σ :=
  if ∃ r ∈ s.sources.rows, r.memoryId = memoryId ∧ r.noteId = noteId then (false,s)
  else (true,{ s with sources := s.sources.insertNew [⟨memoryId,noteId,relation⟩] })

/-- `_add_version`. -/
def addVersion (m : Memory σ) (taskStatus : Option TaskStatus) (reason : Option String) (sourceNoteId : Option NoteId)
    (s : Store σ) : Store σ :=
  let notes := s.noteIds m.id
  let all := notes ++ sourceNoteId.toList.filter (· ∉ notes)
  { s with versions := s.versions ++ [{
      memoryId := m.id,version := m.currentVersion,content := m.content,status := m.status,taskStatus
      confidence := m.confidence,importance := m.importance,validFrom := m.validFrom,validUntil := m.validUntil
      reason,sourceNoteId,sourceNoteIds := all.dedup }] }

/-- The row `_insert_memory_row` creates. -/
def row (lib : Library σ) (c : Candidate σ) (id : MemoryId) (spaceId : SpaceId) (status : MemoryStatus) (now : Time) :
    Memory σ where
  id
  spaceId
  memoryType := c.memoryType
  content := c.content
  importance := c.importance
  confidence := c.confidence
  status
  taskStatus := c.taskStatus
  subject := c.subject
  predicate := c.predicate
  objectValue := c.objectValue
  memoryKey := some (c.effectiveMemoryKey lib)
  memoryKeyVersion := c.memoryKeyVersion
  polarity := c.polarity
  scope := c.scope
  validFrom := c.validFrom
  validUntil := c.validUntil
  updatedAt := now

/-- `_insert_memory_row`. -/
def insertMemoryRow (lib : Library σ) (id : MemoryId) (spaceId : SpaceId) (c : Candidate σ) (sourceNoteId : NoteId)
    (status : MemoryStatus) (now : Time) (s : Store σ) : Except Error (Store σ) := do
  let row := row lib c id spaceId status now
  require (∀ m ∈ s.memories.rows, ¬row.sameCard m) .integrityError
  let memories ← demand (s.memories.insert row) .integrityError
  let sourced := (addSourceRow id sourceNoteId .createdFrom { s with memories }).2
  return addVersion row (c.taskStatus.map TaskStatus.normalize) (some "created") (some sourceNoteId) sourced

/-- The row after `_versioned_update_row`. -/
def changed (m : Memory σ) (c : Changes σ) (now : Time) : Memory σ :=
  { m with
    subject := c.subject <|> m.subject
    content := c.content.getD m.content
    memoryKey := c.memoryKey <|> m.memoryKey
    status := c.status.getD m.status
    taskStatus := c.taskStatus <|> m.taskStatus
    validUntil := c.validUntil <|> m.validUntil
    confidence := c.confidence.getD m.confidence
    importance := c.importance.getD m.importance
    lastConfirmedAt := c.lastConfirmedAt <|> m.lastConfirmedAt
    objectValue := c.objectValue <|> m.objectValue
    scope := c.scope.getD m.scope
    memoryKeyVersion := c.memoryKeyVersion.getD m.memoryKeyVersion
    polarity := c.polarity <|> m.polarity
    updatedAt := now
    currentVersion := m.currentVersion + 1 }

/-- `_versioned_update_row`: the row is written from the one that was read. -/
def versionedUpdateRow (m : Memory σ) (c : Changes σ) (reason : Option String) (sourceNoteId : Option NoteId) (now : Time)
    (s : Store σ) : Except Error (Store σ) := do
  let row := changed m c now
  require (∀ n ∈ s.memories.rows, ¬row.sameCard n) .integrityError
  return addVersion row row.taskStatus reason sourceNoteId { s with memories := s.memories.put row }

/-- `_add_relation_row`: two memories are related once in one way, by whatever decision. -/
def addRelationRow (spaceId : SpaceId) (source target : MemoryId) (relation : RelationType) (decisionId : DecisionId)
    (s : Store σ) : Store σ :=
  if ∃ r ∈ s.relations.rows, r.sourceMemoryId = source ∧ r.targetMemoryId = target ∧ r.relation = relation then s
  else { s with relations := s.relations.insertNew [⟨spaceId,source,target,relation,some decisionId⟩] }

/-- `_insert_decision_row`: a decision of the same id is replaced as a whole. -/
def insertDecisionRow (spaceId : SpaceId) (noteId : NoteId) (d : Decision) (status : DecisionStatus)
    (resultIds : List MemoryId) (error : Option String) (now : Time) (s : Store σ) : Store σ :=
  { s with decisions := s.decisions.upsert (d.row spaceId noteId status resultIds error now) }

/-- The earlier decision on the candidate, in whatever space. -/
def prior (s : Store σ) (candidateId : CandidateId) : Option DecisionRow :=
  latest (fun r => r.candidateId = candidateId && (r.status = .applied || r.status = .pendingReview)) s.decisions.rows

/-- `_archive_terminal_task_duplicates_row`, for one duplicate. -/
def archiveDuplicateRow (spaceId : SpaceId) (target : MemoryId) (decisionId : DecisionId) (sourceNoteId : NoteId) (now : Time)
    (s : Store σ) (duplicate : Memory σ) : Except Error (Store σ) := do
  let s ← versionedUpdateRow duplicate { status := some .archived } (some "duplicate_task_identity_reconciled")
    (some sourceNoteId) now s
  let s := addRelationRow spaceId target duplicate.id .supersedes decisionId s
  return addRelationRow spaceId duplicate.id target .supersededBy decisionId s

/-- The active tasks of the space that the candidate may write as the same task, the
one that was updated last first. -/
def duplicates (lib : Library σ) (c : Candidate σ) (t : Memory σ) (s : Store σ) : List (Memory σ) :=
  (s.memories.rows.filter (fun m => m.spaceId = t.spaceId && m.memoryType = .task && m.status = .active && m.id ≠ t.id)).mergeSort
    (fun m n => n.updatedAt ≤ m.updatedAt) |>.filter (lib.taskInstanceAuthorized c)

/-- `_archive_terminal_task_duplicates_row`. -/
def archiveTerminalTaskDuplicatesRow (lib : Library σ) (t : Memory σ) (c : Candidate σ) (decisionId : DecisionId)
    (sourceNoteId : NoteId) (now : Time) (s : Store σ) : Except Error (List MemoryId × Store σ) :=
  if c.memoryKeyVersion.taskCard then .ok ([],s)
  else if c.memoryType ≠ .task ∨ c.taskStatus ≠ some .done then .ok ([],s)
  else do
    let duplicates := duplicates lib c t s
    let s ← duplicates.foldlM (archiveDuplicateRow t.spaceId t.id decisionId sourceNoteId now) s
    return (duplicates.map Memory.id,s)

/-- The action that is carried out: a task that is done is not updated to done again. -/
def action (call : ApplyCall σ) (d : Decision) (target : Option (Memory σ)) : DecisionAction :=
  if d.recommendedAction = .updateTask ∧ ¬call.candidate.memoryKeyVersion.taskCard ∧ call.candidate.memoryType = .task ∧
      call.candidate.taskStatus = some .done ∧ ∃ t ∈ target, t.taskStatus.map TaskStatus.normalize = some .done then .addSource
  else d.recommendedAction

def relation (call : ApplyCall σ) (d : Decision) (target : Option (Memory σ)) : DecisionRelation :=
  if action call d target = d.recommendedAction then d.relation else .same

def reply (call : ApplyCall σ) (d : Decision) (target : Option (Memory σ)) : Result where
  action := action call d target
  relation := relation call d target
  decisionId := d.decisionId
  idempotent := action call d target ≠ d.recommendedAction

/-- The actions `insert` and `pending_review`. -/
def insertDecided (lib : Library σ) (call : ApplyCall σ) (r : Result) (d : Decision) (s : Store σ) :
    Except Error (Effect σ) := do
  let waits := r.action = .pendingReview
  let s ← insertMemoryRow lib call.newId call.spaceId call.candidate call.noteId
    (if waits then .pendingReview else .active) call.now s
  return ({ r with
    memoryId := some call.newId,targetMemoryId := if waits then d.targetMemoryIds.head? else none },[call.newId],s)

/-- The action `add_source`. -/
def supportTarget (lib : Library σ) (call : ApplyCall σ) (r : Result) (t : Memory σ) (s : Store σ) :
    Except Error (Effect σ) := do
  let (added,s) := addSourceRow t.id call.noteId .supportedBy s
  if added then
    let s := { s with memories := s.memories.put { t with
      confidence := strengthened t.confidence call.candidate.confidence
      lastConfirmedAt := some call.now,updatedAt := call.now } }
    let (archived,s) ← archiveTerminalTaskDuplicatesRow lib t call.candidate r.decisionId call.noteId call.now s
    return ({ r with memoryId := some t.id,sourceAdded := some true,archivedDuplicateIds := archived },[t.id],s)
  else return ({ r with memoryId := some t.id,sourceAdded := some false },[t.id],s)

/-- The columns that `merge` and `update` set. -/
def mutation (lib : Library σ) (call : ApplyCall σ) (t : Memory σ) : Changes σ :=
  let c := call.candidate
  { content := some ((call.mergedContent.filter (· ≠ "")).getD c.content),objectValue := c.objectValue,scope := some c.scope
    memoryKey := some (c.effectiveMemoryKey lib),memoryKeyVersion := some c.memoryKeyVersion,polarity := c.polarity
    confidence := some (raised t.confidence c.confidence),importance := some (max t.importance c.importance)
    lastConfirmedAt := some call.now }

/-- The columns that `update_task` sets: the importance and the polarity stay as they are. -/
def taskMutation (lib : Library σ) (call : ApplyCall σ) (t : Memory σ) : Changes σ :=
  let c := call.candidate
  { content := some c.content,taskStatus := c.taskStatus.map TaskStatus.normalize,objectValue := c.objectValue
    subject := c.subject,scope := some c.scope,memoryKey := some (c.effectiveMemoryKey lib)
    memoryKeyVersion := some c.memoryKeyVersion,confidence := some (raised t.confidence c.confidence)
    lastConfirmedAt := some call.now }

/-- The actions `merge` and `update`. -/
def mutateTarget (lib : Library σ) (call : ApplyCall σ) (r : Result) (t : Memory σ) (s : Store σ) : Except Error (Effect σ) := do
  let (added,s) := addSourceRow t.id call.noteId (if r.action = .update then .updatedBy else .supportedBy) s
  let s ← versionedUpdateRow t (mutation lib call t) (some call.decision.reason) (some call.noteId) call.now s
  return ({ r with memoryId := some t.id,sourceAdded := some added },[t.id],s)

/-- The action `update_task`. -/
def updateTask (lib : Library σ) (call : ApplyCall σ) (r : Result) (t : Memory σ) (s : Store σ) : Except Error (Effect σ) := do
  let (added,s) := addSourceRow t.id call.noteId .updatedBy s
  let s ← versionedUpdateRow t (taskMutation lib call t) (some call.decision.reason) (some call.noteId) call.now s
  let (archived,s) ← archiveTerminalTaskDuplicatesRow lib t call.candidate r.decisionId call.noteId call.now s
  return ({ r with
    memoryId := some t.id,sourceAdded := some added,taskStatus := call.candidate.taskStatus,archivedDuplicateIds := archived },
    [t.id],s)

/-- The actions `supersede` and `conflict`. -/
def replaceTarget (lib : Library σ) (call : ApplyCall σ) (r : Result) (t : Memory σ) (s : Store σ) : Except Error (Effect σ) := do
  let supersedes := r.action = .supersede
  let s := (addSourceRow t.id call.noteId .contradictedBy s).2
  let s ← versionedUpdateRow t {
      status := some (if supersedes then .superseded else .conflicted)
      validUntil := if supersedes then some call.now else none }
    (some call.decision.reason) (some call.noteId) call.now s
  let s ← insertMemoryRow lib call.newId call.spaceId call.candidate call.noteId
    (if supersedes then .active else .conflicted) call.now s
  let s := addRelationRow call.spaceId call.newId t.id (if supersedes then .supersedes else .conflictsWith) r.decisionId s
  let s := addRelationRow call.spaceId t.id call.newId (if supersedes then .supersededBy else .conflictsWith) r.decisionId s
  return ({ r with memoryId := some call.newId,targetMemoryId := some t.id },[call.newId,t.id],s)

def perform (lib : Library σ) (call : ApplyCall σ) (d : Decision) (target : Option (Memory σ)) (s : Store σ) :
    Except Error (Effect σ) :=
  let r := reply call d target
  match r.action,target with
  | .discard,_ => .ok (r,[],s)
  | .insert,_ | .pendingReview,_ => insertDecided lib call r d s
  | .addSource,some t => supportTarget lib call r t s
  | .merge,some t | .update,some t => mutateTarget lib call r t s
  | .updateTask,some t => updateTask lib call r t s
  | .supersede,some t | .conflict,some t => replaceTarget lib call r t s
  | action,none => .error (.valueError s!"decision action cannot be applied: {action.value}")

/-- The transaction of `apply_memory_decision`; the target and the checks of the cards are
those of the other store. -/
def applyInSession (lib : Library σ) (call : ApplyCall σ) (s : Store σ) : Except Error (Result × Store σ) :=
  match prior s call.candidate.candidateId with
  | some prior => .ok (prior.replay,s)
  | none => do
    let target ← call.target s
    call.checkCards target s
    let d := call.settled lib target
    let (result,ids,s) ← perform lib call d target s
    return (result,insertDecisionRow call.spaceId call.noteId d (decidedStatus result.action) ids none call.now s)

/-- `apply_memory_decision`: a failure is recorded in a transaction of its own. -/
def applyMemoryDecision (lib : Library σ) (call : ApplyCall σ) (s : Store σ) : Except Error Result × Store σ :=
  match applyInSession lib call s with
  | .ok (result,s) => (.ok result,s)
  | .error e =>
    (.error e,if e.versionConflict then s
      else insertDecisionRow call.spaceId call.noteId call.decision .failed [] (some e.typeName) call.now s)

/-- `evolve_memory`. -/
def evolveMemory (lib : Library σ) (call : ApplyCall σ) (s : Store σ) : Except Error Result × Store σ :=
  match call.decision.targetMemoryIds.head? with
  | some id =>
    if call.decision.recommendedAction = .merge then
      match s.memories.find? id with
      | none => (.error (.valueError s!"merge target not found: {id}"),s)
      | some t =>
        applyMemoryDecision lib { call with mergedContent := some (mergeContent lib t.content call.candidate.content) } s
    else applyMemoryDecision lib call s
  | none => applyMemoryDecision lib call s

/-- What `consolidate_candidate` adds at its end, in a transaction of its own. -/
def linkAntecedent (lib : Texts σ) (k : Consolidation σ) (result : Result) (s : Store σ) : Store σ :=
  let scope := (k.decided lib).1.scope
  match result.memoryId,(lib.antecedentNote scope).filter (fun _ => lib.referenceResolved scope) with
  | some id,some note => (addSourceRow id note .supportedBy s).2
  | _,_ => s

/-- `consolidate_candidate`, when no other writer comes between its two transactions. -/
def consolidateCandidate (lib : Texts σ) (k : Consolidation σ) (s : Store σ) : Except Error Result × Store σ :=
  match evolveMemory lib.toLibrary (k.call lib) s with
  | (.ok result,s) => (.ok result,linkAntecedent lib k result s)
  | (.error e,s) => (.error e,s)

/-- `correct_memory`; of the columns that `update_memory` sets it gives these. -/
def correctMemory (lib : Library σ) (id : MemoryId) (content : String) (taskStatus : Option (Option TaskStatus)) (now : Time)
    (s : Store σ) : Except Error (Store σ) :=
  match s.memories.find? id with
  | none => .ok s
  | some m => do
    let taskStatus ← correctedStatus m content taskStatus
    versionedUpdateRow m
      { content := some content,status := some .active,taskStatus,memoryKey := m.rekeyed lib m.subject content }
      (some "user_correct") none now s

end Suixinji.Memories.Local
