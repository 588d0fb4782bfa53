import Suixinji.Facts.Ingest

/-! A consolidation plan and its commit (`apply_plan`): the whole proposal is
checked and written in one transaction, or nothing of it is. -/
namespace Suixinji.Facts
open Relational Checked Dispatch

inductive Tool where
  | create
  | addEvidence
  | revise
  | merge
  | split
  | link
  | retract
  | resolveReference
  | defer
  deriving DecidableEq

/-- A card a plan asks for. A type or kind outside the two is `none`; a kind that
is not given is `stated`. -/
structure Output where
  content : String
  memoryType : Option MemoryType
  assertionKind : Option AssertionKind := some .stated
  sourceFactIds : Option (List FactId) := none
  deriving DecidableEq

/-- One action of the planner's answer; an unknown tool is `none`, an absent text is empty. -/
structure Action where
  action : Option Tool
  sourceFactIds : List FactId
  reason : String
  targetIds : List EntityId := []
  content : String := ""
  memoryType : Option MemoryType := none
  assertionKind : Option AssertionKind := some .stated
  outputs : List Output := []
  question : String := ""
  resolution : String := ""
  resolveFactIds : List FactId := []
  questionIds : List QuestionId := []
  relation : String := "related"
  deriving DecidableEq

/-- `_snapshot`: the active facts and cards at one time. -/
structure Snapshot where
  facts : Table Fact.id
  memories : Table Card.id

/-- The arguments of `apply_plan` beside the plan, with the clock it reads. -/
structure PlanCall where
  snapshot : Snapshot
  runId : String
  batchIds : List FactId
  now : Time

/-- The transaction so far, and the targets its actions had. -/
structure Draft where
  store : Store
  touched : List EntityId

/-- The actions whose evidence a user's edit protects. -/
def Tool.derives : Tool → Bool
  | .create | .revise | .merge | .split | .addEvidence => true
  | _ => false

/-- The source is active and of the revision the snapshot shows. -/
def PlanCall.intact (call : PlanCall) (s : Store) (f : FactId) : Bool :=
  match call.snapshot.facts.find? f,s.facts.find? f with
  | some old,some current => current.active && current.id.sourceRevision = old.id.sourceRevision
  | _,_ => false

def checkEvidence (call : PlanCall) (s : Store) (a : Action) : Except String Unit := do
  require (a.sourceFactIds ≠ [] ∧ (∀ f ∈ a.sourceFactIds, (call.snapshot.facts.find? f).isSome) ∧ a.reason ≠ "")
    "action requires known evidence and reason"
  require (∀ f ∈ a.sourceFactIds, call.intact s f) "source changed or forgotten"

def Action.protectedBy (a : Action) (edited : List Card) : List Card :=
  edited.filter (fun c => meets a.sourceFactIds c.sourceFactIds)

def checkProtected (edited : List Card) (tool : Tool) (a : Action) : Except String Unit :=
  let shielded := a.protectedBy edited
  require (tool.derives → shielded = [] ∨
      (tool = .addEvidence ∧ a.targetIds ≠ [] ∧ ∀ t ∈ a.targetIds, t ∈ shielded.map (fun c => .card c.id)))
    "user-edited evidence cannot derive another card; keep the edited card and organize only new sources separately"

/-- The version of a row that a link may end at; facts have none. -/
def versionOf (cards : Table Card.id) (facts : Table Fact.id) : EntityId → Option (Option Nat)
  | .card id => (cards.find? id).map (fun c => some c.version)
  | .fact id => (facts.find? id).map (fun _ => none)

def Store.isActive (s : Store) : EntityId → Bool
  | .card id => (s.cards.find? id).any Card.active
  | .fact id => (s.facts.find? id).any Fact.active

def Action.endpoints (a : Action) : List EntityId := (a.sourceFactIds.map EntityId.fact ++ a.targetIds).eraseDups

def checkEndpoint (call : PlanCall) (d : Draft) (ident : EntityId) : Except String Unit := do
  let old ← demand (versionOf call.snapshot.memories call.snapshot.facts ident) "link endpoint is unavailable"
  require (d.store.isActive ident) "link endpoint is unavailable"
  require (ident ∉ d.touched → versionOf d.store.cards d.store.facts ident = some old) "target version changed"

def linkAction (call : PlanCall) (d : Draft) (a : Action) : Except String Draft := do
  require (2 ≤ a.endpoints.length) "link requires two distinct endpoints"
  a.targetIds.forM (checkEndpoint call d)
  let relation : Relation := ⟨a.endpoints,a.targetIds,a.sourceFactIds,a.relation,a.reason⟩
  return { d with store := { d.store with relations := d.store.relations.upsert relation } }

def EntityId.card? : EntityId → Option CardId
  | .card id => some id
  | .fact _ => none

/-- The card a target names, as it is now: untouched, active, of the snapshot's version. -/
def selectTarget (call : PlanCall) (d : Draft) (tool : Tool) (ident : EntityId) : Except String Card := do
  require (ident ∉ d.touched) "duplicate target; combine its changes into one action"
  let id ← demand ident.card? "target version changed"
  let old ← demand (call.snapshot.memories.find? id) "target version changed"
  let current ← demand (d.store.cards.find? id) "target version changed"
  require (current.active ∧ current.version = old.version) "target version changed"
  require (current.userLocked → tool = .addEvidence) "user-reviewed memory cannot be automatically rewritten"
  return current

def checkSelected (tool : Tool) (selected : List Card) : Except String Unit := do
  require (tool ∈ [Tool.create,.defer,.resolveReference] ∨ selected ≠ []) "tool requires target"
  require (tool = .merge → 2 ≤ selected.length) "tool requires multiple targets"
  require (tool = .merge → (selected.map Card.memoryType).eraseDups.length = 1)
    "different memory types must be linked, not merged"

def deferAction (lib : Library) (call : PlanCall) (a : Action) (s : Store) : Except String Store := do
  let question := lib.strip a.question
  require (question ≠ "") "defer requires a question"
  let asked : Question := ⟨⟨a.sourceFactIds,question⟩,question,a.sourceFactIds,a.targetIds,.open,call.runId⟩
  return { s with questions := s.questions.upsert asked }

def resolveFact (lib : Library) (call : PlanCall) (a : Action) (s : Store) (ident : FactId) : Except String Store := do
  require (ident ∈ a.sourceFactIds) "resolved fact must be included in evidence"
  let fact ← demand (s.facts.find? ident) "no such fact"
  return s.putFact { fact with
    resolution := some ⟨lib.strip a.resolution,a.sourceFactIds,a.reason,call.now⟩
    referenceState := "resolved" }

def resolveQuestion (a : Action) (s : Store) (ident : QuestionId) : Except String Store := do
  let question ← demand (s.questions.find? ident) "question is outside resolution evidence"
  require (∀ f ∈ question.sourceFactIds, f ∈ a.sourceFactIds) "question is outside resolution evidence"
  return { s with questions := s.questions.upsert { question with status := .resolved } }

def resolveReference (lib : Library) (call : PlanCall) (a : Action) (s : Store) : Except String Store := do
  require (lib.strip a.resolution ≠ "") "reference resolution requires text"
  let s ← a.resolveFactIds.foldlM (resolveFact lib call a) s
  a.questionIds.foldlM (resolveQuestion a) s

def endCards (status : CardStatus) (s : Store) (selected : List Card) : Store :=
  selected.foldl (fun s c => s.saveCard { c with status }) s

/-- `evidence_scope([tx.get("fm_fact", s) for s in ids])`. -/
def Store.scopeOf (s : Store) (ids : List FactId) : Except String Scope := do
  let facts ← ids.mapM (fun f => demand (s.facts.find? f) "no such fact")
  evidenceScope facts

/-- The action brings a text, and it is not the card's. -/
def Action.rewrites (lib : Library) (a : Action) (card : Card) : Bool :=
  a.content ≠ "" && lib.strip a.content ≠ card.content

def addEvidence (lib : Library) (a : Action) (s : Store) (card : Card) : Except String Store := do
  let sources := (card.sourceFactIds ++ a.sourceFactIds).eraseDups
  let scope ← s.scopeOf sources
  require (a.rewrites lib card → card.userLocked = false) "user-reviewed memory cannot be automatically rewritten"
  return s.saveCard { card with
    sourceFactIds := sources
    scope
    content := if a.rewrites lib card then lib.strip a.content else card.content
    freshness := .fresh }

/-- The card that an output rewrites; `create` and `split` have none. -/
def baseOf (tool : Tool) (selected : List Card) : Option Card :=
  if tool = .revise ∨ tool = .merge then selected.head? else none

def evidenceIds (tool : Tool) (selected : List Card) (outputSources : List FactId) : List FactId :=
  let ids := ((baseOf tool selected).elim [] Card.sourceFactIds ++ outputSources).eraseDups
  if tool = .merge then (ids ++ selected.flatMap Card.sourceFactIds).eraseDups else ids

/-- The owners the snapshot's facts name, an empty name among them. -/
def PlanCall.owners (call : PlanCall) (ids : List FactId) : List String :=
  (ids.filterMap (fun f => (call.snapshot.facts.find? f).bind (·.scope.get "owner_id"))).eraseDups

/-- An inference the user rejected, on evidence that includes all of this. -/
def Store.rejects (s : Store) (ids : List FactId) : Bool :=
  s.cards.rows.any (fun c => c.status = .rejected && ids.all (· ∈ c.sourceFactIds))

def writeOutput (lib : Library) (call : PlanCall) (tool : Tool) (a : Action) (selected : List Card) (touched : Nat)
    (s : Store) (numbered : Output × Nat) : Except String Store := do
  let (output,index) := numbered
  let content := lib.strip output.content
  require (content ≠ "") "invalid card content/type/assertion kind"
  let memoryType ← demand output.memoryType "invalid card content/type/assertion kind"
  let assertionKind ← demand output.assertionKind "invalid card content/type/assertion kind"
  let outputSources := output.sourceFactIds.getD a.sourceFactIds
  require (outputSources ≠ [] ∧ ∀ f ∈ outputSources, f ∈ a.sourceFactIds) "output evidence outside action"
  let base := baseOf tool selected
  require (∀ b ∈ base, assertionKind = b.assertionKind) "assertion class changes require separate card"
  let ids := evidenceIds tool selected outputSources
  require ((call.owners ids).length ≤ 1) "cannot merge different owners"
  -- a rejected inference with unchanged evidence must not silently return
  require (assertionKind = .inferred → s.rejects ids = false) "inference rejected by user for this evidence"
  let scope ← s.scopeOf ids
  return s.saveCard {
    id := base.elim ⟨call.runId,touched,index,content⟩ Card.id
    memoryType
    content
    status := .active
    assertionKind
    sourceFactIds := ids
    scope
    runId := call.runId
    freshness := .fresh
    reviewStatus := if assertionKind = .inferred then .unreviewed else .notRequired
    userLocked := base.elim false Card.userLocked
    version := base.elim 0 Card.version }

def Action.asOutput (a : Action) : Output := ⟨a.content,a.memoryType,a.assertionKind,some a.sourceFactIds⟩

def Action.outputsOf (tool : Tool) (a : Action) : List Output := if tool = .split then a.outputs else [a.asOutput]

def retiredBy (tool : Tool) (selected : List Card) : List Card :=
  match tool with
  | .merge => selected.tail
  | .split => selected
  | _ => []

/-- `create`, `revise`, `merge` and `split`. -/
def deriveCards (lib : Library) (call : PlanCall) (tool : Tool) (a : Action) (selected : List Card) (touched : Nat)
    (s : Store) : Except String Store := do
  let outputs := a.outputsOf tool
  require (outputs ≠ [] ∧ (tool = .split → 2 ≤ outputs.length)) "split requires at least two outputs"
  require (tool = .merge → (selected.map Card.assertionKind).eraseDups.length = 1)
    "do not merge inferred and stated memories"
  let s ← outputs.zipIdx.foldlM (writeOutput lib call tool a selected touched) s
  return endCards .superseded s (retiredBy tool selected)

def perform (lib : Library) (call : PlanCall) (tool : Tool) (a : Action) (selected : List Card) (d : Draft) :
    Except String Store :=
  match tool with
  | .defer => deferAction lib call a d.store
  | .resolveReference => resolveReference lib call a d.store
  | .retract => .ok (endCards .retracted d.store selected)
  | .addEvidence => selected.foldlM (addEvidence lib a) d.store
  | tool => deriveCards lib call tool a selected d.touched.length d.store

def applyAction (lib : Library) (call : PlanCall) (edited : List Card) (d : Draft) (a : Action) :
    Except String Draft := do
  let tool ← demand a.action "unknown memory tool"
  checkEvidence call d.store a
  checkProtected edited tool a
  if tool = .link then linkAction call d a
  else
    let selected ← a.targetIds.mapM (selectTarget call d tool)
    checkSelected tool selected
    let store ← perform lib call tool a selected d
    return ⟨store,a.targetIds ∪ d.touched⟩

/-- The cards with a user's words, as the transaction finds them. -/
def Store.edited (s : Store) : List Card := s.cards.rows.filter (fun c => c.active && c.reviewStatus = .edited)

def Store.markProcessed (s : Store) (batchIds : List FactId) (now : Time) : Store :=
  { s with facts := s.facts.updateWhere (·.id ∈ batchIds) (fun f => { f with processedAt := some now }) }

def applyPlan (lib : Library) (call : PlanCall) (actions : List Action) (s : Store) : Except String Store := do
  require (∀ f ∈ call.batchIds, f ∈ actions.flatMap Action.sourceFactIds)
    "plan must account for every new fact, using defer if necessary"
  let lease ← demand s.lease "consolidation lease expired or replaced"
  require (lease.runId = call.runId ∧ call.now < lease.until) "consolidation lease expired or replaced"
  let d ← actions.foldlM (applyAction lib call s.edited) ⟨s,[]⟩
  return d.store.markProcessed call.batchIds call.now

end Suixinji.Facts
