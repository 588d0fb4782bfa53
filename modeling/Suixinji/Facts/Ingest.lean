import Suixinji.Facts.Access

/-! Facts as they come in: a note seen at a new revision, a fact stored, and the
cards and questions that rested on what is gone. -/
namespace Suixinji.Facts
open Relational Checked Dispatch
open Text (contains)

/-- The loop that ends cards: every active card that `hit` picks ends as `how`
says, and what it cites beside `gone` waits to be looked at again. -/
def Store.retire (s : Store) (hit : Card → Bool) (gone : List FactId) (how : Card → CardStatus) : Store :=
  { s with
    cards := s.cards.updateWhere (fun c => c.active && hit c) (fun c => { c with status := how c }.saved)
    facts := s.facts.updateWhere
      (fun f => f.active && f.id ∉ gone && s.cards.rows.any (fun c => c.active && hit c && c.cites f.id))
      (fun f => { f with processedAt := none }) }

def Card.leansOn (c : Card) (gone : List FactId) : Bool := meets c.sourceFactIds gone

def Store.endFacts (s : Store) (gone : List FactId) (status : FactStatus) : Store :=
  { s with facts := s.facts.updateWhere (·.id ∈ gone) (fun f => { f with status }) }

/-- `_invalidate_sources`: the ids of the facts whose text is gone. -/
def Store.outdated (s : Store) (noteId : String) (revision : Revision) : List FactId :=
  (s.facts.rows.filter fun f => f.id.noteId = noteId && f.id.sourceRevision ≠ revision && f.active).map Fact.id

def invalidateSources (s : Store) (noteId : String) (revision : Revision) : Store :=
  let changed := s.outdated noteId revision
  let s := s.endFacts changed .sourceChanged
  let s := s.retire (·.leansOn changed) changed (fun _ => .invalidated)
  { s with
    questions := s.questions.updateWhere (fun q => q.isOpen && meets q.sourceFactIds changed)
      (fun q => { q with status := .cancelled }) }

/-- `sync_source`, with its answer whether the source changed. -/
def syncSource (s : Store) (noteId text : String) : Store × Bool :=
  let revision : Revision := ⟨text⟩
  let previous := s.sources.find? noteId
  let changed := s.outdated noteId revision ≠ [] || previous.any (·.revision ≠ revision)
  let s := invalidateSources s noteId revision
  if previous = none || changed then ({ s with sources := s.sources.upsert ⟨noteId,revision⟩ },changed)
  else (s,changed)

/-- The arguments of `ingest_fact`; a memory type that is none of the two is `none`. -/
structure NewFact where
  noteId : String
  originalText : String
  content : String
  memoryType : Option MemoryType
  evidenceSpan : Option String := none
  referenceState : String := "not_applicable"
  scope : Scope := []
  deriving DecidableEq

/-- One span holds the other. -/
def overlap (a b : String) : Bool := contains b a || contains a b

def Store.entombed (s : Store) (noteId span : String) : Bool :=
  s.tombstones.rows.any (fun t => t.noteId = noteId && overlap t.evidenceSpan span)

/-- The checks of `ingest_fact`, and the id of the fact. -/
def NewFact.identify (lib : Library) (new : NewFact) : Except String FactId := do
  let memoryType ← demand new.memoryType "fact memory accepts only semantic/episodic"
  let span := orText new.evidenceSpan new.originalText
  require (lib.strip new.content ≠ "" ∧ span ≠ "" ∧ contains new.originalText span)
    "fact requires verbatim source evidence"
  return ⟨new.noteId,⟨new.originalText⟩,span,memoryType,lib.strip new.content⟩

def NewFact.row (s : Store) (new : NewFact) (id : FactId) : Fact where
  id := id
  scope := new.scope
  status := if s.entombed id.noteId id.evidenceSpan then .forgotten else .active
  referenceState := new.referenceState

/-- `ingest_fact`: the row it returns is the one stored, or the one already there. -/
def ingestFact (lib : Library) (new : NewFact) (s : Store) : Except String (Store × Fact) := do
  let id ← new.identify lib
  match (s.facts.find? id).filter (·.status ≠ .sourceChanged) with
  | some existing => return (s,existing)
  | none =>
    let s := invalidateSources s id.noteId id.sourceRevision
    let fact := new.row s id
    return ({ s with
      facts := s.facts.upsert fact
      cards := s.cards.updateWhere (fun c => c.active && lib.similar new.content c.content)
        (fun c => { c with freshness := .stale }) },fact)

/-- What `ingest_candidate` adds to the row it got, if the candidate refers to
another: the copy it then writes back with a `put` of its own. -/
def withReference (fact : Fact) (reference : Reference) : Option Fact :=
  if reference.contextFactIds ≠ [] || reference.antecedentNoteId.any (· ≠ "") then
    some { fact with relatedFactIds := reference.contextFactIds, referenceEvidence := some reference }
  else none

def Store.putFact (s : Store) (fact : Fact) : Store := { s with facts := s.facts.upsert fact }

end Suixinji.Facts
