import Suixinji.Relational.Table
import Suixinji.Dispatch.Consistency

/-! The records of fact memory (memory/fact_memory.py), one space of them. The
digests that name facts, cards, questions and relations are taken to be free of
collisions: an id is the tuple of parts it is a digest of. -/
namespace Suixinji.Facts
open Suixinji.Relational

/-- Milliseconds. -/
abbrev Time := Int

inductive MemoryType where
  | semantic
  | episodic
  deriving DecidableEq

inductive FactStatus where
  | active
  | sourceChanged
  | forgotten
  deriving DecidableEq

inductive CardStatus where
  | active
  | invalidated
  | superseded
  | retracted
  | rejected
  | forgotten
  deriving DecidableEq

inductive QuestionStatus where
  | «open»
  | answered
  | resolved
  | cancelled
  deriving DecidableEq

inductive AssertionKind where
  | stated
  | inferred
  deriving DecidableEq

inductive ReviewStatus where
  | unreviewed
  | notRequired
  | confirmed
  | edited
  | rejected
  deriving DecidableEq

inductive Freshness where
  | fresh
  | stale
  deriving DecidableEq

/-- `key(text)`: what a note says at one time. -/
structure Revision where
  text : String
  deriving DecidableEq

/-- `"fact_" + key(note_id, revision, span, memory_type, content)`. -/
structure FactId where
  noteId : String
  sourceRevision : Revision
  evidenceSpan : String
  memoryType : MemoryType
  content : String
  deriving DecidableEq

/-- `"fm_" + key(run_id, len(touched), index, content)`. -/
structure CardId where
  runId : String
  touched : Nat
  index : Nat
  content : String
  deriving DecidableEq

/-- What a plan or a deletion names: `fact_...` or `fm_...`. -/
inductive EntityId where
  | fact (id : FactId)
  | card (id : CardId)
  deriving DecidableEq

/-- `"question_" + key(sources, question)`. -/
structure QuestionId where
  sources : List FactId
  question : String
  deriving DecidableEq

/-- A JSON object of texts; a null is `none`. -/
abbrev Scope := List (String × Option String)

/-- `scope.get(name)`. -/
def Scope.get (scope : Scope) (name : String) : Option String := (List.lookup name scope).join

/-- `scope.get(name) or ...`: an empty text counts as absent. -/
def Scope.truthy (scope : Scope) (name : String) : Option String := (scope.get name).filter (· ≠ "")

structure Resolution where
  text : String
  sourceFactIds : List FactId
  reason : String
  resolvedAt : Time
  deriving DecidableEq

/-- `reference_evidence`, as far as it is read. -/
structure Reference where
  contextFactIds : List FactId
  antecedentNoteId : Option String
  deriving DecidableEq

/-- `fm_fact`; the columns that the id is a digest of are read off it. -/
structure Fact where
  id : FactId
  scope : Scope := []
  status : FactStatus
  processedAt : Option Time := none
  referenceState : String := "not_applicable"
  resolution : Option Resolution := none
  relatedFactIds : List FactId := []
  referenceEvidence : Option Reference := none
  questionId : Option QuestionId := none
  deriving DecidableEq

/-- `fm_card`. -/
structure Card where
  id : CardId
  memoryType : MemoryType
  content : String
  status : CardStatus
  assertionKind : AssertionKind
  sourceFactIds : List FactId
  scope : Scope
  runId : String
  freshness : Freshness
  reviewStatus : ReviewStatus
  userLocked : Bool
  version : Nat
  deriving DecidableEq

/-- `fm_question`. -/
structure Question where
  id : QuestionId
  question : String
  sourceFactIds : List FactId
  candidateIds : List EntityId
  status : QuestionStatus
  runId : String
  deriving DecidableEq

/-- `fm_relation`, under the digest of its endpoints. -/
structure Relation where
  endpointIds : List EntityId
  targetIds : List EntityId
  sourceFactIds : List FactId
  relation : String
  reason : String
  deriving DecidableEq

/-- `fm_tombstone`, under the digest of both fields. -/
structure Tombstone where
  noteId : String
  evidenceSpan : String
  deriving DecidableEq

/-- `fm_source`: the revision last seen of a note. -/
structure Source where
  id : String
  revision : Revision
  deriving DecidableEq

/-- One row of a deletion preview. -/
structure Preview where
  id : EntityId
  version : Option Nat
  deriving DecidableEq

inductive DeleteStatus where
  | pending
  | partly
  | completed
  deriving DecidableEq

/-- `fm_delete`. -/
structure DeleteRequest where
  id : String
  candidates : List Preview
  approvedIds : List EntityId
  status : DeleteStatus
  deriving DecidableEq

/-- `fm_lease`, the one row `consolidation`. -/
structure Lease where
  runId : String
  «until» : Time
  deriving DecidableEq

structure Store where
  facts : Table Fact.id
  cards : Table Card.id
  questions : Table Question.id
  relations : Table Relation.endpointIds
  tombstones : Table (fun t : Tombstone => t)
  sources : Table Source.id
  deletes : Table DeleteRequest.id
  lease : Option Lease

def Store.empty : Store := ⟨.empty,.empty,.empty,.empty,.empty,.empty,.empty,none⟩

def Fact.active (f : Fact) : Bool := f.status = .active

def Card.active (c : Card) : Bool := c.status = .active

def Question.isOpen (q : Question) : Bool := q.status = .open

/-- `c` cites `f`. -/
def Card.cites (c : Card) (f : FactId) : Bool := f ∈ c.sourceFactIds

/-- `set(a) & set(b)`, as a condition. -/
def meets (a b : List FactId) : Bool := a.any (· ∈ b)

@[simp] theorem meets_iff {a b : List FactId} : meets a b ↔ ∃ f ∈ a, f ∈ b := by
  simp [meets]

/-- `_save_card`: the next version of a card. -/
def Card.saved (c : Card) : Card := { c with version := c.version + 1 }

def Store.saveCard (s : Store) (c : Card) : Store := { s with cards := s.cards.upsert c.saved }

/-- The library functions fact memory calls beside those on texts: the lexical
score above its bound, and the text that names a question. -/
structure Library extends Dispatch.Host where
  similar : String → String → Bool
  questionText : QuestionId → String

/-- The library functions on plain ASCII text, where nothing is similar. -/
def asciiLibrary : Library where
  toHost := Dispatch.asciiHost
  similar _ _ := false
  questionText q := q.question

end Suixinji.Facts
