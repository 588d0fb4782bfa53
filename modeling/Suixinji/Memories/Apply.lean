import Suixinji.Memories.Store

/-! `apply_memory_decision` of repositories/postgres/memory.py: one transaction
that carries out a decision about a candidate and records it. -/
namespace Suixinji.Memories
open Relational Checked

variable {σ : Type}

/-- The arguments of the call, the id it would draw for a new memory, and its clock. -/
structure ApplyCall (σ : Type) where
  spaceId : SpaceId
  noteId : NoteId
  candidate : Candidate σ
  decision : Decision
  mergedContent : Option String := none
  newId : MemoryId
  now : Time

/-- The dictionary the call returns; a key that is not set is `none`, `false` or empty. -/
structure Result where
  action : DecisionAction
  relation : DecisionRelation
  decisionId : DecisionId
  memoryId : Option MemoryId := none
  targetMemoryId : Option MemoryId := none
  sourceAdded : Option Bool := none
  taskStatus : Option TaskStatus := none
  archivedDuplicateIds : List MemoryId := []
  idempotent : Bool := false
  resultMemoryIds : List MemoryId := []
  deriving DecidableEq

def Store.prior (s : Store σ) (spaceId : SpaceId) (candidateId : CandidateId) : Option DecisionRow :=
  latest (fun r => r.spaceId = spaceId && r.candidateId = candidateId && (r.status = .applied || r.status = .pendingReview))
    s.decisions.rows

def DecisionRow.replay (prior : DecisionRow) : Result where
  action := if prior.status = .pendingReview then .pendingReview else .addSource
  relation := if prior.status = .pendingReview then .conflict else .same
  decisionId := prior.id
  memoryId := prior.resultMemoryIds.head?
  sourceAdded := some false
  idempotent := true
  resultMemoryIds := prior.resultMemoryIds

/-- A card of the candidate's key is there, though the decision names none. -/
def ApplyCall.created (call : ApplyCall σ) (s : Store σ) : Prop :=
  call.decision.targetMemoryIds = [] ∧
    ∃ m ∈ s.memories, m.spaceId = call.spaceId ∧ m.memoryKey = call.candidate.memoryKey

instance (call : ApplyCall σ) (s : Store σ) : Decidable (call.created s) := inferInstanceAs (Decidable (_ ∧ _))

/-- The row of the first target. -/
def ApplyCall.target (call : ApplyCall σ) (s : Store σ) : Except Error (Option (Memory σ)) :=
  match call.decision.targetMemoryIds.head? with
  | none => .ok none
  | some id => do return some (← demand (s.memories.find? id) (.valueError s!"decision target memory not found: {id}"))

/-- A card is written only in the version the decision was made on. -/
def ApplyCall.checkCards (call : ApplyCall σ) (target : Option (Memory σ)) (s : Store σ) : Except Error Unit := do
  let c := call.candidate
  let known := call.decision.targetSnapshotVersion
  require (¬(c.memoryKeyVersion.taskCard ∧ call.created s)) (.taskVersionConflict "task card concurrently created")
  require (¬(c.memoryKeyVersion = .preferenceCardV1 ∧ call.created s)) (.cardVersionConflict "card concurrently created")
  require (¬(c.memoryKeyVersion.taskCard ∧ ∃ m ∈ target, m.spaceId ≠ call.spaceId ∨ some m.currentVersion ≠ known))
    (.taskVersionConflict "task card version changed")
  require (¬(c.memoryKeyVersion = .preferenceCardV1 ∧ ∃ m ∈ target, some m.currentVersion ≠ known))
    (.cardVersionConflict "card version changed")

/-- The target already says what the candidate does. -/
def Candidate.sameState (lib : Library σ) (c : Candidate σ) (m : Memory σ) : Prop :=
  c.effectiveMemoryKey lib = orEmpty m.memoryKey ∧
    if c.memoryType = .task then c.taskStatus = m.taskStatus
    else orEmpty c.objectValue ≠ "" ∧ c.objectValue = m.objectValue

instance (lib : Library σ) (c : Candidate σ) (m : Memory σ) : Decidable (c.sameState lib m) :=
  inferInstanceAs (Decidable (_ ∧ _))

def Decision.stale (d : Decision) (m : Memory σ) : Prop := ∃ v ∈ d.targetSnapshotVersion, v ≠ m.currentVersion

instance (d : Decision) (m : Memory σ) : Decidable (d.stale m) := inferInstanceAs (Decidable (∃ _ ∈ _, _))

/-- The decision that is carried out: one made on another version of the target is not. -/
def Decision.settled (lib : Library σ) (d : Decision) (c : Candidate σ) (m : Memory σ) : Decision :=
  if d.stale m then
    if c.sameState lib m then
      { d with relation := .same,recommendedAction := .addSource,reason := "concurrent_same_update_adds_source" }
    else
      { d with
        relation := .conflict
        recommendedAction := .pendingReview
        reason := "stale_target_snapshot_requires_readjudication" }
  else d

def archiveDuplicate (lib : Library σ) (spaceId : SpaceId) (target : MemoryId) (decisionId : DecisionId)
    (sourceNoteId : NoteId) (now : Time) (s : Store σ) (duplicate : Memory σ) : Except Error (Store σ) := do
  let s ← versionedUpdate lib duplicate.id { status := some .archived } (some "duplicate_task_identity_reconciled")
    (some sourceNoteId) now s
  let s := addRelation spaceId target duplicate.id .supersedes (some decisionId) s
  return addRelation spaceId duplicate.id target .supersededBy (some decisionId) s

/-- The active tasks of the space that the candidate counts as the same task. -/
def Store.duplicates (lib : Library σ) (c : Candidate σ) (t : Memory σ) (s : Store σ) : List (Memory σ) :=
  s.memories.rows.filter (fun m =>
    m.spaceId = t.spaceId && m.memoryType = .task && m.status = .active && m.id ≠ t.id && lib.taskFamilyCompatible c m)

/-- `_archive_terminal_task_duplicates`, for the target as it stands. -/
def archiveTerminalTaskDuplicates (lib : Library σ) (target : MemoryId) (c : Candidate σ) (decisionId : DecisionId)
    (sourceNoteId : NoteId) (now : Time) (s : Store σ) : Except Error (List MemoryId × Store σ) :=
  match s.memories.find? target with
  | none => .ok ([],s)
  | some t =>
    if c.memoryKeyVersion.taskCard || t.memoryType ≠ .task || t.taskStatus ≠ some .done then .ok ([],s)
    else do
      let duplicates := s.duplicates lib c t
      let s ← duplicates.foldlM (archiveDuplicate lib t.spaceId t.id decisionId sourceNoteId now) s
      return (duplicates.map Memory.id,s)

/-- What a decision came to: the reply, the ids it names and the rows it leaves. -/
abbrev Effect (σ : Type) := Result × List MemoryId × Store σ

/-- The actions `insert` and `pending_review`. -/
def insertDecided (lib : Library σ) (call : ApplyCall σ) (d : Decision) (status : MemoryStatus) (s : Store σ) :
    Except Error (Effect σ) := do
  let s ← insertMemory lib call.newId call.spaceId call.candidate call.noteId .createdFrom status call.now s
  return ({
    action := d.recommendedAction,relation := d.relation,decisionId := d.decisionId
    memoryId := some call.newId,targetMemoryId := d.targetMemoryIds.head? },[call.newId],s)

/-- The action `add_source`. -/
def supportTarget (lib : Library σ) (call : ApplyCall σ) (d : Decision) (t : Memory σ) (s : Store σ) :
    Except Error (Effect σ) := do
  let c := call.candidate
  let (added,s) := addSource t.id call.noteId .supportedBy s
  let s := if added then { s with memories := s.memories.put { t with
    confidence := strengthened t.confidence c.confidence,lastConfirmedAt := some call.now,updatedAt := call.now } } else s
  let (archived,s) ← (if added ∧ c.memoryType = .task ∧ c.taskStatus = some .done
    then archiveTerminalTaskDuplicates lib t.id c d.decisionId call.noteId call.now s else .ok ([],s))
  return ({
    action := d.recommendedAction,relation := d.relation,decisionId := d.decisionId
    memoryId := some t.id,sourceAdded := some added,archivedDuplicateIds := archived },[t.id],s)

/-- The columns that the actions `merge`, `update` and `update_task` set. -/
def ApplyCall.mutation (lib : Library σ) (call : ApplyCall σ) (d : Decision) (t : Memory σ) : Changes σ :=
  let c := call.candidate
  let isTaskUpdate := d.recommendedAction = .updateTask
  { content := some (if d.recommendedAction ≠ .merge then c.content
      else (call.mergedContent.filter (· ≠ "")).getD c.content)
    taskStatus := if isTaskUpdate then c.taskStatus.map TaskStatus.normalize else none
    subject := if isTaskUpdate then c.subject else none
    objectValue := c.objectValue
    scope := some c.scope
    memoryKey := some (c.effectiveMemoryKey lib)
    memoryKeyVersion := some c.memoryKeyVersion
    polarity := c.polarity
    confidence := some (raised t.confidence c.confidence)
    importance := some (max t.importance c.importance)
    lastConfirmedAt := some call.now }

/-- The actions `merge`, `update` and `update_task`. -/
def mutateTarget (lib : Library σ) (call : ApplyCall σ) (d : Decision) (t : Memory σ) (s : Store σ) :
    Except Error (Effect σ) := do
  let c := call.candidate
  let relation := if d.recommendedAction = .merge then SourceRelation.supportedBy else .updatedBy
  let (added,s) := addSource t.id call.noteId relation s
  let notes := if lib.referenceResolved c.scope then s.noteIds t.id ++ [call.noteId] else [call.noteId]
  let s ← versionedUpdate lib t.id (call.mutation lib d t) (some d.reason) (some call.noteId) call.now s notes
  let (archived,s) ← (if d.recommendedAction = .updateTask
    then archiveTerminalTaskDuplicates lib t.id c d.decisionId call.noteId call.now s else .ok ([],s))
  return ({
    action := d.recommendedAction,relation := d.relation,decisionId := d.decisionId
    memoryId := some t.id,sourceAdded := some added
    taskStatus := if d.recommendedAction = .updateTask then c.taskStatus else none
    archivedDuplicateIds := archived },[t.id],s)

/-- The actions `supersede` and `conflict`. -/
def replaceTarget (lib : Library σ) (call : ApplyCall σ) (d : Decision) (t : Memory σ) (s : Store σ) :
    Except Error (Effect σ) := do
  let supersedes := d.recommendedAction = .supersede
  let s := (addSource t.id call.noteId .contradictedBy s).2
  let s ← versionedUpdate lib t.id {
      status := some (if supersedes then .superseded else .conflicted)
      validUntil := if supersedes then some call.now else none }
    (some d.reason) (some call.noteId) call.now s
  let s ← insertMemory lib call.newId call.spaceId call.candidate call.noteId .createdFrom
    (if supersedes then .active else .conflicted) call.now s
  let relate := fun source target relation => addRelation (σ := σ) call.spaceId source target relation (some d.decisionId)
  let s := relate call.newId t.id (if supersedes then .supersedes else .conflictsWith) s
  let s := relate t.id call.newId (if supersedes then .supersededBy else .conflictsWith) s
  return ({
    action := d.recommendedAction,relation := d.relation,decisionId := d.decisionId
    memoryId := some call.newId,targetMemoryId := some t.id },[call.newId,t.id],s)

def perform (lib : Library σ) (call : ApplyCall σ) (d : Decision) (target : Option (Memory σ)) (s : Store σ) :
    Except Error (Effect σ) :=
  match d.recommendedAction,target with
  | .discard,_ => .ok ({ action := .discard,relation := d.relation,decisionId := d.decisionId },[],s)
  | .insert,_ => insertDecided lib call d .active s
  | .pendingReview,_ => insertDecided lib call d .pendingReview s
  | .addSource,some t => supportTarget lib call d t s
  | .merge,some t | .update,some t | .updateTask,some t => mutateTarget lib call d t s
  | .supersede,some t | .conflict,some t => replaceTarget lib call d t s
  | action,none => .error (.valueError s!"decision action cannot be applied: {action.value}")

/-- The row the reply names is marked, when the candidate is semantic and applied. -/
def markAffected (lib : Library σ) (c : Candidate σ) (result : Result) (s : Store σ) : Store σ :=
  let affected := if c.memoryType = .semantic && result.action ≠ .pendingReview
    then result.memoryId.bind s.memories.find? else none
  { s with derived := (affected.map (fun m => markSemanticProfileDirty lib m s.derived)).getD s.derived }

def ApplyCall.settled (lib : Library σ) (call : ApplyCall σ) (target : Option (Memory σ)) : Decision :=
  target.elim call.decision (call.decision.settled lib call.candidate)

def decidedStatus (action : DecisionAction) : DecisionStatus :=
  if action = .pendingReview then .pendingReview else .applied

/-- The transaction of `apply_memory_decision`. -/
def applyInSession (lib : Library σ) (call : ApplyCall σ) (s : Store σ) : Except Error (Result × Store σ) :=
  match s.prior call.spaceId call.candidate.candidateId with
  | some prior => .ok (prior.replay,s)
  | none => do
    let target ← call.target s
    call.checkCards target s
    let d := call.settled lib target
    let (result,ids,s) ← perform lib call d target s
    let s := markAffected lib call.candidate result s
    let s ← saveDecision call.spaceId call.noteId d (decidedStatus d.recommendedAction) ids none call.now s
    return (result,s)

def Error.typeName : Error → String
  | .taskVersionConflict _ => "TaskVersionConflict"
  | .cardVersionConflict _ => "CardVersionConflict"
  | .valueError _ => "ValueError"
  | .integrityError => "IntegrityError"
  | .multipleResultsFound => "MultipleResultsFound"

/-- The decision as the transaction held it when it failed. -/
def ApplyCall.attempted (lib : Library σ) (call : ApplyCall σ) (s : Store σ) : Decision :=
  call.settled lib (call.target s).toOption.join

def recordFailure (lib : Library σ) (call : ApplyCall σ) (e : Error) (s : Store σ) : Store σ :=
  (saveDecision call.spaceId call.noteId (call.attempted lib s) .failed [] (some e.typeName) call.now s).toOption.getD s

def applyMemoryDecision (lib : Library σ) (call : ApplyCall σ) (s : Store σ) : Except Error Result × Store σ :=
  match applyInSession lib call s with
  | .ok (result,s) => (.ok result,s)
  | .error e => (.error e,if e.versionConflict then s else recordFailure lib call e s)

end Suixinji.Memories
