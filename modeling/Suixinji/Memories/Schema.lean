import Suixinji.Relational.Table
import Mathlib.Algebra.Order.Ring.Unbundled.Rat

/-! The records of long-term memory (memory/models.py, infrastructure/schema.py).
Floats are read as the rationals they stand for, and an id that is drawn at
random as a number. The scope of a memory is any type `σ`. -/
namespace Suixinji.Memories
open Suixinji.Relational

/-- Seconds. -/
abbrev Time := Int
abbrev SpaceId := Nat
abbrev NoteId := Nat
abbrev MemoryId := Nat
abbrev CandidateId := Nat
abbrev DecisionId := Nat

inductive MemoryType where
  | episodic
  | semantic
  | preference
  | task
  deriving DecidableEq

def MemoryType.text : MemoryType → String
  | .episodic => "episodic"
  | .semantic => "semantic"
  | .preference => "preference"
  | .task => "task"

/-- `MEMORY_STATUSES`. -/
inductive MemoryStatus where
  | active
  | superseded
  | conflicted
  | forgotten
  | archived
  | pendingReview
  | deleted
  | expired
  deriving DecidableEq

/-- A stored task status: `TASK_STATUSES`, and what older rows still hold. -/
inductive TaskStatus where
  | todo
  | done
  | inProgress
  | blocked
  | cancelled
  | canceled
  deriving DecidableEq

/-- The texts of the two statuses, and of the older ones. -/
def TaskStatus.text : TaskStatus → String
  | .todo => "todo"
  | .done => "done"
  | .inProgress => "in_progress"
  | .blocked => "blocked"
  | .cancelled => "cancelled"
  | .canceled => "canceled"

/-- `normalize_task_status`, on the texts a row can hold. -/
def TaskStatus.normalize : TaskStatus → TaskStatus
  | .todo | .inProgress | .blocked => .todo
  | .done | .cancelled | .canceled => .done

/-- `TASK_STATUSES`: the ones a candidate may carry. -/
def TaskStatus.writable (s : TaskStatus) : Prop := s = .todo ∨ s = .done

instance (s : TaskStatus) : Decidable s.writable := inferInstanceAs (Decidable (_ ∨ _))

theorem todo_writable : TaskStatus.todo.writable := .inl rfl

theorem done_writable : TaskStatus.done.writable := .inr rfl

theorem none_writable : ∀ s ∈ (none : Option TaskStatus), s.writable := by simp

theorem TaskStatus.normalize_of_writable {s : TaskStatus} (writable : s.writable) : s.normalize = s := by
  rcases writable with rfl | rfl <;> rfl

/-- `can_transition`. -/
def canTransition (old new : Option TaskStatus) : Bool :=
  match new.map TaskStatus.normalize,old.map TaskStatus.normalize with
  | none,_ => true
  | some _,none => true
  | some new,some old => old = new || (old = .todo && new = .done) || (old = .done && new = .todo)

inductive KeyVersion where
  | memoryKeyV2
  | memoryKeyV3
  | taskCardV1
  | taskCardV2
  | preferenceCardV1
  deriving DecidableEq

def KeyVersion.taskCard (v : KeyVersion) : Bool := v = .taskCardV1 || v = .taskCardV2

/-- The versions whose key an edit of the content leaves alone. -/
def KeyVersion.keyKept (v : KeyVersion) : Bool := v = .memoryKeyV3 || v = .preferenceCardV1

/-- `SOURCE_RELATIONS`. -/
inductive SourceRelation where
  | createdFrom
  | supportedBy
  | updatedBy
  | contradictedBy
  | summarizedFrom
  deriving DecidableEq

/-- `DECISION_RELATIONS`. -/
inductive DecisionRelation where
  | new
  | same
  | merge
  | update
  | updateTask
  | supersede
  | conflict
  | orphanCompletion
  | ambiguousMatch
  deriving DecidableEq

def DecisionRelation.value : DecisionRelation → String
  | .new => "new"
  | .same => "same"
  | .merge => "merge"
  | .update => "update"
  | .updateTask => "update_task"
  | .supersede => "supersede"
  | .conflict => "conflict"
  | .orphanCompletion => "orphan_completion"
  | .ambiguousMatch => "ambiguous_match"

/-- `DECISION_ACTIONS`. -/
inductive DecisionAction where
  | insert
  | addSource
  | merge
  | update
  | updateTask
  | supersede
  | conflict
  | pendingReview
  | discard
  deriving DecidableEq

def DecisionAction.value : DecisionAction → String
  | .insert => "insert"
  | .addSource => "add_source"
  | .merge => "merge"
  | .update => "update"
  | .updateTask => "update_task"
  | .supersede => "supersede"
  | .conflict => "conflict"
  | .pendingReview => "pending_review"
  | .discard => "discard"

/-- `MEMORY_RELATION_TYPES`. -/
inductive RelationType where
  | supersedes
  | supersededBy
  | conflictsWith
  | supports
  | summarizedFrom
  | derivedFrom
  deriving DecidableEq

inductive DecisionStatus where
  | applied
  | pendingReview
  | failed
  | rejected
  deriving DecidableEq

inductive VectorStatus where
  | pending
  | processing
  | ready
  | failed
  deriving DecidableEq

/-- `memories`, less what no statement here reads. -/
structure Memory (σ : Type) where
  id : MemoryId
  spaceId : SpaceId
  memoryType : MemoryType
  content : String
  importance : ℚ
  confidence : ℚ
  status : MemoryStatus
  taskStatus : Option TaskStatus := none
  subject : Option String := none
  predicate : Option String := none
  objectValue : Option String := none
  memoryKey : Option String
  memoryKeyVersion : KeyVersion := .memoryKeyV2
  polarity : Option String := none
  scope : σ
  validFrom : Option Time := none
  validUntil : Option Time := none
  lastConfirmedAt : Option Time := none
  updatedAt : Time
  currentVersion : Nat := 1
  deriving DecidableEq

/-- `memory_sources`. -/
structure Source where
  memoryId : MemoryId
  noteId : NoteId
  relation : SourceRelation
  deriving DecidableEq

/-- `memory_versions`, with the notes of `memory_version_sources`. -/
structure Version where
  memoryId : MemoryId
  version : Nat
  content : String
  status : MemoryStatus
  taskStatus : Option TaskStatus
  confidence : ℚ
  importance : ℚ
  validFrom : Option Time
  validUntil : Option Time
  reason : Option String
  sourceNoteId : Option NoteId
  sourceNoteIds : List NoteId
  deriving DecidableEq

/-- `memory_relations`. -/
structure Relation where
  spaceId : SpaceId
  sourceMemoryId : MemoryId
  targetMemoryId : MemoryId
  relation : RelationType
  decisionId : Option DecisionId
  deriving DecidableEq

/-- The key of `uq_memory_relation`. -/
def Relation.key (r : Relation) : MemoryId × MemoryId × RelationType × Option DecisionId :=
  (r.sourceMemoryId,r.targetMemoryId,r.relation,r.decisionId)

/-- `memory_decisions`. -/
structure DecisionRow where
  id : DecisionId
  spaceId : SpaceId
  noteId : NoteId
  candidateId : CandidateId
  relation : DecisionRelation
  targetMemoryIds : List MemoryId
  reason : String
  recommendedAction : DecisionAction
  status : DecisionStatus
  resultMemoryIds : List MemoryId := []
  error : Option String := none
  targetSnapshotVersion : Option Nat := none
  createdAt : Time
  appliedAt : Option Time := none
  deriving DecidableEq

/-- `memory_candidates`, as far as the review commands touch it. -/
structure CandidateRow where
  candidateId : CandidateId
  content : String
  taskStatus : Option TaskStatus
  discarded : Bool := false
  lastError : Option String := none
  deriving DecidableEq

/-- A content hash: what `memory_content_hash` is a digest of. -/
structure ContentHash where
  text : String
  deriving DecidableEq

/-- `memory_vectors`, under one embedding contract. -/
structure MemoryVector where
  memoryId : MemoryId
  contentHash : ContentHash
  status : VectorStatus
  embedded : Bool := false
  attemptCount : Nat := 0
  deriving DecidableEq

/-- A task of type `memory_embedding`; its idempotency key is the memory and the hash. -/
structure EmbeddingTask where
  memoryId : MemoryId
  contentHash : ContentHash
  finished : Bool := false
  deriving DecidableEq

def EmbeddingTask.key (t : EmbeddingTask) : MemoryId × ContentHash := (t.memoryId,t.contentHash)

/-- `semantic_profile_projections`, less the text of the projection. -/
structure Projection where
  spaceId : SpaceId
  facet : String
  sourceMemoryIds : List MemoryId
  processedRevision : Nat
  targetRevision : Nat
  fresh : Bool
  deriving DecidableEq

def Projection.key (p : Projection) : SpaceId × String := (p.spaceId,p.facet)

/-- `MemoryCandidate`. -/
structure Candidate (σ : Type) where
  candidateId : CandidateId
  memoryType : MemoryType
  content : String
  importance : ℚ
  confidence : ℚ
  shouldStore : Bool := true
  taskStatus : Option TaskStatus := none
  reason : Option String := none
  extractionReason : Option String := none
  subject : Option String := none
  predicate : Option String := none
  objectValue : Option String := none
  validFrom : Option Time := none
  validUntil : Option Time := none
  memoryKey : Option String := none
  memoryKeyVersion : KeyVersion := .memoryKeyV2
  polarity : Option String := none
  scope : σ
  writable : ∀ s ∈ taskStatus, s.writable := by decide
  deriving DecidableEq

/-- `MemoryDecision`. -/
structure Decision where
  decisionId : DecisionId
  candidateId : CandidateId
  relation : DecisionRelation
  targetMemoryIds : List MemoryId
  confidence : ℚ
  reason : String
  recommendedAction : DecisionAction
  targetSnapshotVersion : Option Nat := none
  deriving DecidableEq

structure Derived where
  vectors : Table MemoryVector.memoryId
  tasks : Table EmbeddingTask.key
  projections : Table Projection.key

structure Store (σ : Type) where
  memories : Table (Memory.id (σ := σ))
  sources : Table (fun s : Source => s)
  versions : List Version
  relations : Table Relation.key
  decisions : Table DecisionRow.id
  candidates : Table CandidateRow.candidateId
  derived : Derived

def Store.empty (σ : Type) : Store σ := ⟨.empty,.empty,[],.empty,.empty,.empty,⟨.empty,.empty,.empty⟩⟩

/-- What the code of the embedding texts decides: the key of a memory, whether two
tasks are of one family or one instance, and whether a scope has its reference
resolved; with the two switches of the settings. -/
structure Library (σ : Type) where
  normalizeContent : String → String
  memoryKeyFor : MemoryType → Option String → Option String → Option String → String → String
  taskFamilyCompatible : Candidate σ → Memory σ → Bool
  taskInstanceAuthorized : Candidate σ → Memory σ → Bool
  referenceResolved : σ → Bool
  embeddingContract : String := "|memory-vector-v1"
  vectorLifecycle : Bool := true
  profileProjection : Bool := true

inductive Error where
  | taskVersionConflict (text : String)
  | cardVersionConflict (text : String)
  | valueError (text : String)
  | integrityError
  | multipleResultsFound
  deriving DecidableEq

/-- `TaskVersionConflict` and `CardVersionConflict`. -/
def Error.versionConflict : Error → Bool
  | .taskVersionConflict _ | .cardVersionConflict _ => true
  | .valueError _ | .integrityError | .multipleResultsFound => false

end Suixinji.Memories
