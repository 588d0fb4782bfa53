import Suixinji.TaskCards.Plan
import Suixinji.Memories.Apply

/-! How a message becomes a decision about a card: `apply_task` (memory/task_cards.py) and
the completions of a list of tasks (memory/task_commands.py), up to the transaction
that `apply_memory_decision` is. -/
namespace Suixinji.TaskCards
open Relational Checked Memories
open Text (stripped)

structure Ids where
  decision : SpaceId → CandidateId → DecisionId
  commandCandidate : NoteId → MemoryId → CandidateId
  commandDecision : NoteId → MemoryId → DecisionId

variable (t : Texts)

/-- `candidate_from_row`; of a row that does not validate only the error is kept. -/
def candidateFromRow (candidateId : CandidateId) (raw : String) (row : Except String TaskInput) : Candidate Scope :=
  match row with
  | .ok value => {
      candidateId,memoryType := .task,content := orElse (some value.task) (orElse (some value.evidenceSpan) raw)
      importance := value.importance,confidence := value.confidence,taskStatus := some value.taskStatus
      shouldStore := Text.present value.unresolvedReason || value.shouldStore
      subject := some (orElse (some value.subject) "用户"),predicate := some "task",objectValue := some value.task
      memoryKey := some (t.cardKey (some (orElse (some value.subject) "用户")) value.task value.taskInstance "owner")
      memoryKeyVersion := .taskCardV2,scope := { taskInput := some value }
      writable := fun _ member => by rw [← Option.mem_some.mp member]; exact value.binary }
  | .error error => {
      candidateId,memoryType := .task,content := raw,importance := 3/5,confidence := 9/10
      subject := some "用户",predicate := some "task"
      memoryKeyVersion := .taskCardV2,scope := { taskError := some error }
      writable := Memories.none_writable }

/-- `source_for`. -/
def sourceFor (note : Note) (value : TaskInput) : Except Error CardSource := do
  let timing ← t.taskTimeFields value note
  return {
    id := "task-source:" ++ t.stableId [some (toString note.id),some note.text,some value.evidenceSpan]
    noteId := note.id,originalText := some note.text,messageTime := note.messageTime,intent := some value.intent
    correctionFields := value.correctionFields,changeEvidence := value.changeEvidence,resolvedTime := timing
    evidenceSpan := some value.evidenceSpan,antecedentNoteId := value.antecedentNoteId
    antecedentEvidenceSpan := value.antecedentEvidenceSpan }

theorem prepare_status {scope : Scope} {note : Note} {value : TaskInput} (ok : prepare t scope note = .ok value) :
    ∃ input, scope.taskInput = some input ∧ input.taskStatus = value.taskStatus ∧ input.intent = value.intent ∧
      input.correctionFields = value.correctionFields := by
  obtain ⟨_,_,ok⟩ := bind_ok.mp ok
  obtain ⟨input,there,ok⟩ := bind_ok.mp ok
  obtain ⟨_,_,ok⟩ := bind_ok.mp ok
  obtain ⟨_,_,ok⟩ := bind_ok.mp ok
  obtain ⟨_,_,ok⟩ := bind_ok.mp ok
  obtain ⟨_,_,ok⟩ := bind_ok.mp ok
  obtain ⟨_,_,ok⟩ := bind_ok.mp ok
  obtain ⟨timing,_,ok⟩ := bind_ok.mp ok
  refine ⟨input,demand_ok.mp there,?_⟩
  split at ok <;> cases ok <;> split <;> exact ⟨rfl,rfl,rfl⟩

theorem candidateFromRow_agrees {candidateId : CandidateId} {raw : String} {row : Except String TaskInput} {note : Note}
    {value : TaskInput} (ok : prepare t (candidateFromRow t candidateId raw row).scope note = .ok value) :
    (candidateFromRow t candidateId raw row).taskStatus = some value.taskStatus := by
  obtain ⟨input,there,same,_⟩ := prepare_status t ok
  cases row with
  | error e => cases there
  | ok input' =>
    cases there
    exact congrArg some same

theorem candidateFromRow_type {candidateId : CandidateId} {raw : String} {row : Except String TaskInput} :
    (candidateFromRow t candidateId raw row).memoryType = .task := by
  cases row <;> rfl

/-- A message whose task has been checked, and its source. -/
structure Prepared where
  note : Note
  candidate : Candidate Scope
  value : TaskInput
  source : CardSource
  agrees : candidate.taskStatus = some value.taskStatus
  typed : candidate.memoryType = .task

/-- What `apply_task` does before its first attempt. -/
def begin (note : Note) (candidateId : CandidateId) (row : Except String TaskInput) : Except Error Prepared :=
  let candidate := candidateFromRow t candidateId note.text row
  match prepared : prepare t candidate.scope note with
  | .error e => .error e
  | .ok value => do return ⟨note,candidate,value,← sourceFor t note value,candidateFromRow_agrees t prepared,
      candidateFromRow_type t⟩

/-- `records` passes over the row, as it was read. -/
def Record.listed (r : Record) (spaceId : SpaceId) (owner : String) (now : Time) : Prop :=
  r.row.spaceId = spaceId ∧ r.row.memoryType = .task ∧ r.row.status = .active ∧ r.row.scope.owner = owner ∧
    ∀ until' ∈ r.row.validUntil, now < until'

instance (r : Record) (spaceId : SpaceId) (owner : String) (now : Time) : Decidable (r.listed spaceId owner now) :=
  inferInstanceAs (Decidable (_ ∧ _ ∧ _ ∧ _ ∧ _))

variable {t}

/-- What `recall` selects, in the order of its ranking. -/
def selected (available : List (Entry t)) (ranking : List MemoryId) : List (Entry t) :=
  ranking.filterMap (fun id => available.find? (fun e => e.id = id))

/-- The decision about a card, and the candidate it is about. -/
structure CardCall where
  spaceId : SpaceId
  noteId : NoteId
  candidate : Candidate Scope
  decision : Decision

/-- What an attempt comes to: the message is there already, or a decision is to be applied. -/
inductive Attempted where
  | present (id : MemoryId)
  | decided (call : CardCall)

def cardScope (current : Option (Entry t)) (card : TaskCard) (owner : String) : Scope :=
  let scope := current.elim {} (fun e => e.record.row.scope)
  let moved := current.any (fun e => card.subject ≠ e.card.subject)
  { scope with
    taskCard := some card
    ownerId := some owner
    accessScope := some (scope.accessScope.getD "owner")
    canonicalTopic := some card.task
    taskFamilyKey := some (t.familyKey card.subject card.task owner)
    closureReason := none
    subjectId := if card.subject = some "用户" then some ("user:" ++ owner) else if moved then none else scope.subjectId }

def writtenKey (p : Prepared) (current : Option (Entry t)) (card : TaskCard) : Option String :=
  let owner := p.note.owner
  match current with
  | none => some (t.cardKey (some p.value.subject) p.value.task p.value.taskInstance owner
      (if p.value.intent = .new then some (toString p.candidate.candidateId) else none))
  | some e =>
    if card.subject ≠ e.card.subject || card.task ≠ e.card.task then
      some (t.cardKey card.subject card.task card.taskInstance owner (some (toString e.id)))
    else e.record.row.memoryKey

/-- The decision that writes the card. -/
def Prepared.call (p : Prepared) (ids : Ids) (current : Option (Entry t)) (plan : TaskPlan) (card : TaskCard) : CardCall where
  spaceId := p.note.spaceId
  noteId := p.note.id
  candidate := { p.candidate with
    content := card.searchText,subject := card.subject,predicate := some "task",objectValue := some card.task
    scope := cardScope current card p.note.owner,memoryKey := writtenKey p current card,memoryKeyVersion := .taskCardV2 }
  decision := {
    decisionId := ids.decision p.note.spaceId p.candidate.candidateId
    candidateId := p.candidate.candidateId
    relation := if current.isSome then .updateTask else .new
    recommendedAction := if current.isSome then .updateTask else .insert
    targetMemoryIds := (current.map Entry.id).toList
    targetSnapshotVersion := current.map (fun e => e.record.row.currentVersion)
    confidence := p.candidate.confidence
    reason := orElse (some plan.reason) "task_card_write" }

/-- One round of `apply_task`, on the cards it found and the plan the model would answer. -/
def attempt (ids : Ids) (p : Prepared) (found : List (Entry t)) (answer : TaskPlan) : Except Error Attempted :=
  match found.find? (fun e => e.card.sources.any (fun s => s.id = p.source.id)) with
  | some replay => .ok (.present replay.id)
  | none => do
    let plan := decidePlan p.value found answer
    let current ← checkPlan p.value plan found
    let card ← merge p.value current plan p.source
    match current.filter (fun e => e.record.row.memoryKeyVersion = .taskCardV2 && e.card = card) with
    | some same => return .present same.id
    | none => return .decided (p.call ids current plan card)

/-- An operation on a list of tasks (`task_number_operation`). -/
structure Operation where
  noteId : NoteId
  text : String
  createdAt : String
  snapshotId : Nat
  named : Bool := false
  resolutionReason : String := ""
  deriving DecidableEq

/-- `_allowed`, with the decision of `memory_access_allowed`. -/
def Record.allowed (r : Record) (spaceId : SpaceId) (owner : String) (now : Time) (access : Record → Bool) : Prop :=
  r.listed spaceId owner now ∧ access r

instance (r : Record) (spaceId : SpaceId) (owner : String) (now : Time) (access : Record → Bool) :
    Decidable (r.allowed spaceId owner now access) := inferInstanceAs (Decidable (_ ∧ _))

/-- What a completion says about the card; a card that `TaskInput` does not take is refused. -/
def completed (e : Entry t) (text : String) : Except Error TaskInput := do
  let subject ← demand e.card.subject (.valueError "subject")
  require (stripped subject ≠ "") (.valueError "subject")
  require (stripped e.card.task ≠ "") (.valueError "task")
  require (stripped text ≠ "") (.valueError "evidence_span")
  return {
    subject := stripped subject,task := stripped e.card.task
    taskInstance := (e.card.taskInstance.map stripped).filter (· ≠ ""),taskStatus := .done
    description := "用户确认：" ++ e.card.task ++ "已完成。",evidenceSpan := stripped text,intent := .update }

def completionPlan (op : Operation) (e : Entry t) (value : TaskInput) : TaskPlan where
  action := .update
  targetId := some e.id
  description := some value.description
  subjectRelation := .same
  instanceRelation := .same
  reason := orElse (some op.resolutionReason) "用户明确指定清单编号完成任务"

/-- `_complete_one`, up to its transaction. -/
def completeOne (ids : Ids) (spaceId : SpaceId) (op : Operation) (number : Nat) (e : Entry t) : Except Error CardCall := do
  let note : Note := { id := op.noteId,spaceId,text := op.text,ts := some op.createdAt }
  let value ← completed e op.text
  let plan := completionPlan op e value
  let _ ← checkPlan value plan [e]
  let source ← sourceFor t note value
  let merged ← merge value (some e) plan { source with
    taskListSnapshotId := some op.snapshotId,taskNumber := some number
    resolutionMethod := some (if op.named then "name_or_context" else "list_number") }
  let candidate := candidateFromRow t (ids.commandCandidate op.noteId e.id) op.text (.ok value)
  return {
    spaceId,noteId := op.noteId
    candidate := { candidate with
      content := merged.searchText,memoryKey := e.record.row.memoryKey,memoryKeyVersion := .taskCardV2
      scope := { e.record.row.scope with taskCard := some merged,taskInput := some value,closureReason := none } }
    decision := {
      decisionId := ids.commandDecision op.noteId e.id
      candidateId := ids.commandCandidate op.noteId e.id
      relation := .updateTask,recommendedAction := .updateTask,targetMemoryIds := [e.id]
      targetSnapshotVersion := some e.record.row.currentVersion,confidence := 1,reason := plan.reason } }

/-- The call of `apply_memory_decision`, with the id it draws and its clock. -/
def CardCall.apply (call : CardCall) (newId : MemoryId) (now : Time) : ApplyCall Scope where
  spaceId := call.spaceId
  noteId := call.noteId
  candidate := call.candidate
  decision := call.decision
  newId
  now

end Suixinji.TaskCards
