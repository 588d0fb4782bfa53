import Suixinji.Facts.Ingest

/-! What the user decides: a card reviewed, a question answered, a memory forgotten. -/
namespace Suixinji.Facts
open Relational Checked Dispatch

inductive Decision where
  | confirm
  | edit
  | reject
  deriving DecidableEq

/-- The review status a decision leaves; a confirmed correction stays a correction. -/
def Decision.reviewStatus (decision : Decision) (card : Card) : ReviewStatus :=
  match decision with
  | .confirm => if card.reviewStatus = .edited then .edited else .confirmed
  | .edit => .edited
  | .reject => .rejected

/-- The cards an edit of `card` supersedes: unlocked ones on shared evidence. -/
def Card.displaces (card derived : Card) : Bool :=
  derived.id ≠ card.id && !derived.userLocked && meets card.sourceFactIds derived.sourceFactIds

/-- On an edit the user's words take the place of the card's, and of every card
derived from its evidence. -/
def editCard (lib : Library) (decision : Decision) (content : Option String) (s : Store) (card : Card) :
    Except String (Store × Card) :=
  if decision = .edit then do
    let text := lib.strip (content.getD "")
    require (text ≠ "") "edited content is required"
    return (s.retire card.displaces card.sourceFactIds (fun _ => .superseded),{ card with content := text })
  else .ok (s,card)

/-- `review_memory`; an unknown decision is `none`. -/
def reviewMemory (lib : Library) (ident : CardId) (decision : Option Decision) (content : Option String)
    (expectedVersion : Nat) (s : Store) : Except String Store := do
  let decision ← demand decision "unknown review decision"
  let card ← demand (s.cards.find? ident) "memory missing or changed; refresh before reviewing"
  require (card.active ∧ card.version = expectedVersion) "memory missing or changed; refresh before reviewing"
  let (s,card) ← editCard lib decision content s card
  return s.saveCard { card with
    reviewStatus := decision.reviewStatus card
    userLocked := true
    status := if decision = .reject then .rejected else card.status }

/-- The user's answer as new evidence, with an explicit link to the question. -/
def followUp (lib : Library) (question : Question) (answer : String) (related : Fact) : NewFact :=
  let text := "针对“" ++ question.question ++ "”，用户补充：" ++ lib.strip answer
  { noteId := "review:" ++ lib.questionText question.id
    originalText := text
    content := text
    memoryType := some related.id.memoryType
    scope := related.scope }

theorem Fact.unprocessed_id (f : Fact) : { f with processedAt := none }.id = f.id := rfl

/-- The first transaction of `answer_question`, and the fact it then ingests. -/
def answerQuestion (lib : Library) (ident : QuestionId) (answer : String) (s : Store) :
    Except String (Store × Option NewFact) := do
  require (lib.strip answer ≠ "") "answer cannot be empty"
  let question ← demand (s.questions.find? ident) "question missing or already answered"
  require question.isOpen "question missing or already answered"
  let related := (question.sourceFactIds.filterMap (s.facts.find? ·)).filter Fact.active
  let s := { s with
    questions := s.questions.upsert { question with status := .answered }
    facts := s.facts.updateWhere (fun f => f.active && f.id ∈ question.sourceFactIds)
      (fun f => { f with processedAt := none }) Fact.unprocessed_id }
  return (s,related.head?.map (followUp lib question answer))

/-- The last transaction of `answer_question`: the stored answer names its question. -/
def attachAnswer (ident : QuestionId) (sources : List FactId) (stored : FactId) (s : Store) : Except String Store := do
  let fact ← demand (s.facts.find? stored) "no such fact"
  return s.putFact { fact with questionId := some ident, relatedFactIds := sources }

/-- `request_forget`: the preview of what the search found. -/
def requestForget (lib : Library) (id query : String) (candidates : List Preview) (s : Store) : Except String Store := do
  require (lib.strip query ≠ "") "deletion topic cannot be empty"
  return { s with deletes := s.deletes.upsert ⟨id,candidates,[],.pending⟩ }

def DeleteRequest.previewed (request : DeleteRequest) (ident : EntityId) : Option Nat :=
  (request.candidates.reverse.find? (·.id = ident)).bind Preview.version

def forgets (s : Store) (request : DeleteRequest) (ident : EntityId) : Except String (List FactId) :=
  if ident ∈ request.approvedIds then .ok []
  else match ident with
    | .card id => do
      let card ← demand (s.cards.find? id) "selected record is no longer active"
      require card.active "selected record is no longer active"
      require (request.previewed ident = some card.version) "memory changed after deletion preview"
      return card.sourceFactIds
    | .fact id => do
      let fact ← demand (s.facts.find? id) "selected record is no longer active"
      require fact.active "selected record is no longer active"
      return [id]

def FactId.tombstone (f : FactId) : Tombstone := ⟨f.noteId,f.evidenceSpan⟩

theorem Question.cancelled_id (q : Question) : { q with status := .cancelled }.id = q.id := rfl

/-- The facts are gone: their rows, the cards and the questions on them, with a
tombstone for each. -/
def Store.forget (s : Store) (gone : List FactId) (selected : List EntityId) : Store :=
  let s := s.endFacts gone .forgotten
  let s := { s with tombstones := gone.foldl (fun t (f : FactId) => t.upsert f.tombstone) s.tombstones }
  let s := s.retire (·.leansOn gone) gone (fun c => if EntityId.card c.id ∈ selected then .forgotten else .invalidated)
  { s with
    questions := s.questions.updateWhere (fun q => meets q.sourceFactIds gone)
      (fun q => { q with status := .cancelled }) Question.cancelled_id }

def DeleteRequest.approve (request : DeleteRequest) (selected : List EntityId) : DeleteRequest :=
  let approved := selected ∪ request.approvedIds
  { request with
    approvedIds := approved
    status := if ∀ c ∈ request.candidates, c.id ∈ approved then .completed else .partly }

/-- `approve_forget`. -/
def approveForget (requestId : String) (selected : List EntityId) (s : Store) : Except String Store := do
  require (selected ≠ []) "select at least one memory"
  let request ← demand (s.deletes.find? requestId) "ids must come from the preview"
  require (∀ ident ∈ selected, ident ∈ request.candidates.map Preview.id) "ids must come from the preview"
  let gone := (← selected.mapM (forgets s request)).flatten
  require (∀ f ∈ gone, (s.facts.find? f).isSome) "no such fact"
  return { s.forget gone selected with deletes := s.deletes.upsert (request.approve selected) }

end Suixinji.Facts
