import Suixinji.Memories.Store
import Suixinji.Relational.Firsts
import Suixinji.Relational.Text

/-! Task cards: what is extracted from a message about a task (memory/task_schema.py),
the card of a task, and how a stored memory is read as one (memory/task_cards.py). -/
namespace Suixinji.TaskCards
open Relational Memories
open Text (isSpace present stripChars)

def orElse (text : Option String) (other : String) : String := (text.filter (· ≠ "")).getD other

inductive Intent where
  | auto
  | new
  | update
  | reopen
  | correct
  | transfer
  deriving DecidableEq

/-- The intents that may change who the card is about, or what. -/
def Intent.special (i : Intent) : Bool := i = .correct || i = .transfer

def Intent.needsCard (i : Intent) : Bool := i = .update || i = .reopen || i.special

/-- What a correction says it corrects. -/
inductive Field where
  | subject
  | task
  | taskStatus
  | description
  | time
  deriving DecidableEq

theorem Intent.update_reopens {s : TaskStatus} : Intent.update = .reopen → s = .todo := by simp

structure TaskInput where
  subject : String := "用户"
  task : String
  taskInstance : Option String := none
  periodExpression : Option String := none
  dueExpression : Option String := none
  taskStatus : TaskStatus
  description : String := ""
  evidenceSpan : String
  intent : Intent := .auto
  changeEvidence : Option String := none
  correctionFields : List Field := []
  antecedentNoteId : Option NoteId := none
  antecedentEvidenceSpan : Option String := none
  unresolvedReason : Option String := none
  confidence : ℚ := 9/10
  importance : ℚ := 3/5
  shouldStore : Bool := true
  /-- Only `todo` and `done` are taken. -/
  binary : taskStatus.writable := by decide
  /-- `check_lifecycle`. -/
  reopens : intent = .reopen → taskStatus = .todo := by decide
  deriving DecidableEq

/-- A message that a task is extracted from, with the messages before it that can be referred to. -/
structure Note where
  id : NoteId
  spaceId : SpaceId
  text : String
  ts : Option String := none
  createdAt : Option String := none
  userId : Option String := none
  recent : List (NoteId × String) := []
  deriving DecidableEq

/-- `str(note.get('user_id') or 'owner')`. -/
def Note.owner (note : Note) : String := orElse note.userId "owner"

def Note.messageTime (note : Note) : Option String := note.ts.filter (· ≠ "") <|> note.createdAt

/-- What `task_time_fields` resolves. -/
structure Timing where
  periodStart : Option String := none
  periodEnd : Option String := none
  dueAt : Option String := none
  deriving DecidableEq

/-- An ISO time: the moment, and whether it names its zone. -/
structure Stamp where
  moment : Time
  zoned : Bool
  deriving DecidableEq

/-- `stable_id` of some texts, `str.casefold`, `datetime.fromisoformat`, the dates and the
numbered rounds that two regular expressions find in a text, and `task_time_fields`. -/
structure Texts where
  stableId : List (Option String) → String
  casefold : String → String
  fromisoformat : String → Option Stamp
  dates : String → List String
  rounds : String → List String
  taskTimeFields : TaskInput → Note → Except Error Timing

variable (t : Texts)

/-- `name`. -/
def Texts.name (value : Option String) : String :=
  stripChars "，。！？!?".toList (t.casefold (String.ofList ((orEmpty value).toList.filter (fun c => !isSpace c))))

/-- `instance_conflict`: the dates of both are there and differ, or the rounds are. -/
def Texts.instanceConflict (left right : Option String) : Bool :=
  let apart := fun (found : String → List String) =>
    let (x,y) := (found (t.name left),found (t.name right))
    !x.isEmpty && !y.isEmpty && x.all (fun a => a ∉ y)
  apart t.dates || apart t.rounds

def Texts.familyKey (subject : Option String) (task owner : String) : String :=
  "task-family:" ++ t.stableId [some owner,some (t.name subject),some (t.name (some task))]

def Texts.cardKey (subject : Option String) (task : String) (taskInstance : Option String) (owner : String)
    (occurrence : Option String := none) : String :=
  "task-card:" ++
    t.stableId [some owner,some (t.name subject),some (t.name (some task)),some (t.name taskInstance),occurrence]

/-- What a source changed in the card. -/
structure FieldChange where
  field : Field
  before : Option String
  after : Option String
  deriving DecidableEq

/-- A source of a card; one that was made for an older memory has its id and note only. -/
structure CardSource where
  id : String
  noteId : NoteId
  originalText : Option String := none
  messageTime : Option String := none
  intent : Option Intent := none
  correctionFields : List Field := []
  changeEvidence : Option String := none
  resolvedTime : Timing := {}
  evidenceSpan : Option String := none
  antecedentNoteId : Option NoteId := none
  antecedentEvidenceSpan : Option String := none
  fieldChanges : List FieldChange := []
  taskListSnapshotId : Option Nat := none
  taskNumber : Option Nat := none
  resolutionMethod : Option String := none
  deriving DecidableEq

/-- A detail of a card of the first version. -/
structure Detail where
  condition : Option String
  description : String
  active : Bool
  deriving DecidableEq

/-- `scope['task_card']`; the last two are of the first version. -/
structure TaskCard where
  subject : Option String
  task : String
  taskInstance : Option String
  taskStatus : Option TaskStatus
  description : String
  sources : List CardSource
  periodStart : Option String := none
  periodEnd : Option String := none
  dueAt : Option String := none
  details : List Detail := []
  closureReason : Option String := none
  deriving DecidableEq

structure Scope where
  taskInput : Option TaskInput := none
  taskError : Option String := none
  taskCard : Option TaskCard := none
  ownerId : Option String := none
  accessScope : Option String := none
  canonicalTopic : Option String := none
  taskFamilyKey : Option String := none
  subjectId : Option String := none
  closureReason : Option String := none
  deriving DecidableEq

/-- The owner a task is read under. -/
def Scope.owner (scope : Scope) : String := scope.ownerId.getD "owner"

/-- A memory as `get_memory` returns it: the task status normalised, the notes beside it. -/
structure Record where
  row : Memory Scope
  noteIds : List NoteId
  deriving DecidableEq

/-- `normalize_task_status` of a row. -/
def normalized (m : Memory Scope) : Memory Scope := { m with taskStatus := m.taskStatus.map TaskStatus.normalize }

def readRecord (s : Store Scope) (m : Memory Scope) : Record := ⟨normalized m,s.noteIds m.id⟩

/-- `'；'.join(dict.fromkeys(..))` of what there is. -/
def joined (texts : List String) : String := "；".intercalate texts

def closureText (reason : Option String) : Option String :=
  match reason with
  | some "cancelled" => some "已取消"
  | some "abandoned" => some "已放弃"
  | some "completed" => some "已完成"
  | _ => none

def TaskCard.flattened (card : TaskCard) : String :=
  let details := joined (Firsts.firsts id ((card.details.filter (·.active)).map (fun d =>
    (if present d.condition then orEmpty d.condition ++ "：" else "") ++ d.description)))
  match closureText card.closureReason with
  | none => details
  | some closed => joined ([details,closed].filter (· ≠ ""))

/-- `project`; a row of the current version without a card raises a KeyError. -/
def project (r : Record) : Option TaskCard :=
  if r.row.memoryKeyVersion = .taskCardV2 then r.row.scope.taskCard
  else match r.row.scope.taskCard with
  | some old => some {
      subject := old.subject,task := old.task,taskInstance := old.taskInstance,taskStatus := old.taskStatus
      sources := old.sources,description := old.flattened }
  | none => some {
      subject := r.row.subject
      task := orElse r.row.scope.canonicalTopic (orElse r.row.objectValue r.row.content)
      taskInstance := none
      taskStatus := r.row.taskStatus
      description := r.row.content
      sources := r.noteIds.map (fun noteId => {
        id := "legacy-source:" ++ t.stableId [some (toString r.row.id),some (toString noteId)]
        noteId }) }

/-- A memory that could be read as a card, with the card. -/
structure Entry where
  record : Record
  card : TaskCard
  projects : project t record = some card

instance : DecidableEq (Entry t) := fun a b =>
  decidable_of_iff (a.record = b.record ∧ a.card = b.card) (by cases a; cases b; simp)

variable {t}

def Entry.id (e : Entry t) : MemoryId := e.record.row.id

theorem Entry.card_of_current (e : Entry t) (current : e.record.row.memoryKeyVersion = .taskCardV2) :
    e.record.row.scope.taskCard = some e.card := by
  have projects := e.projects
  rwa [project,if_pos current] at projects

/-- `search_text`. -/
def TaskCard.searchText (card : TaskCard) : String :=
  joined ([orEmpty card.subject,card.task,orEmpty card.taskInstance,
    if card.taskStatus = some .todo then "待办" else "已结束",card.description].filter (· ≠ ""))

end Suixinji.TaskCards
