import Suixinji.TaskCards.Card
import Suixinji.Relational.Checked

/-! What a message may do to a card (memory/task_cards.py): the checks on what was
extracted, the plan of the model, the checks on the plan, and the card it makes. -/
namespace Suixinji.TaskCards
open Relational Checked Memories
open Text (contains mentionsAny present)

/-- `re.findall` of a quotation: what stands between an opening and a closing mark. -/
def quotationsIn : Nat → List Char → List (List Char)
  | 0,_ => []
  | _ + 1,[] => []
  | n + 1,c::cs =>
    let inside := cs.takeWhile (fun d => d ∉ ['”','」','"'])
    if c ∈ ['“','「','"'] && !inside.isEmpty then
      match cs.drop inside.length with
      | [] => quotationsIn n cs
      | _::rest => inside::quotationsIn n rest
    else quotationsIn n cs

def quotations (raw : String) : List (List Char) := quotationsIn raw.length raw.toList

/-- The text comes before the sentence ends. -/
def reaches (text : List Char) : List Char → Bool
  | [] => text.isEmpty
  | c::cs => text.isPrefixOf (c::cs) || (c ∉ ['。','！','？','?','\n'] && reaches text cs)

/-- A condition or a negation stands before the text in its sentence. -/
def conditioned (raw text : String) : Bool :=
  raw.toList.tails.any (fun rest => ["如果","假如","不要","是否"].any (fun word =>
    word.toList.isPrefixOf rest && reaches text.toList (rest.drop word.length)))

/-- The words of a doubt, a condition, a negation or an example. -/
def doubts : List String := ["？","?","如果","假如","是否","要不要","不要","不必","别转","别改","引用","示例"]

/-- The words that correct something, or hand it over. -/
def Intent.cues (i : Intent) : List String :=
  if i = .correct then ["纠正","更正","口误","说错","写错","记错","填错","搞错"]
  else ["改由","转交","转给","交给","接手","改为","换成","换人","移交"]

/-- `check_change_evidence`. -/
def checkChangeEvidence (value : TaskInput) (raw : Option String) : Except Error Unit := do
  let text := orEmpty value.changeEvidence
  whenever (present raw ∧ text ≠ "") do
    require (¬(quotations (orEmpty raw)).any (fun quoted => text.toList <:+: quoted)) (.valueError "引用文本不是任务修改授权")
    require (¬conditioned (orEmpty raw) text) (.valueError "不能截掉条件或否定词作为修改证据")
  require (¬mentionsAny text doubts) (.valueError "疑问、假设或否定不是纠正/转交授权")
  require (mentionsAny text value.intent.cues) (.valueError "缺少明确的纠正或转交表达")

variable (t : Texts)

def Texts.labelled (period : String) (taskInstance : Option String) : String :=
  let round := orEmpty taskInstance
  period ++ if round ≠ "" && !mentionsAny round ["周","月","年"] && (t.dates round).isEmpty then " / " ++ round else ""

def TaskInput.carriedOver (value : TaskInput) (raw : String) : Bool :=
  let due := orEmpty value.dueExpression
  due ≠ "" && !contains raw due && contains (orEmpty value.antecedentEvidenceSpan) due &&
    mentionsAny raw ["时间不变","时间照旧"]

/-- `prepare`. -/
def prepare (scope : Scope) (note : Note) : Except Error TaskInput := do
  require (¬present scope.taskError) (.valueError (orEmpty scope.taskError))
  let value ← demand scope.taskInput (.valueError "未取得任务专属字段，请重新处理或补充任务信息")
  require (¬present value.unresolvedReason) (.valueError (orEmpty value.unresolvedReason))
  whenever value.intent.special do
    require (present value.changeEvidence ∧ contains note.text (orEmpty value.changeEvidence))
      (.valueError "纠正或转交缺少当前消息的明确原文证据")
    checkChangeEvidence value (some note.text)
  require (contains note.text value.evidenceSpan) (.valueError "任务或细节的证据无法对应原文")
  require (¬(value.intent = .correct ∧ value.correctionFields = [])) (.valueError "纠正缺少明确的修改字段")
  require (∀ id ∈ value.antecedentNoteId, ∃ text ∈ note.recent, note.recent.filter (·.1 = id) = [text] ∧
    present value.antecedentEvidenceSpan ∧ contains text.2 (orEmpty value.antecedentEvidenceSpan))
    (.valueError "任务指代缺少可核验的前文来源")
  let value := if value.antecedentNoteId.isSome && value.carriedOver note.text then { value with dueExpression := none } else value
  let timing ← t.taskTimeFields value note
  match timing.periodStart.filter (· ≠ "") with
  | none => return value
  | some start => return { value with
      taskInstance := some (t.labelled (start ++ "～" ++ orEmpty timing.periodEnd) value.taskInstance) }

inductive PlanAction where
  | new
  | update
  | pending
  deriving DecidableEq

inductive Likeness where
  | same
  | different
  | uncertain
  deriving DecidableEq

/-- `TaskPlan`, with the two fields of `TaskChanges`. -/
structure TaskPlan where
  action : PlanAction
  targetId : Option MemoryId := none
  description : Option String := none
  reason : String := ""
  subject : Option String := none
  task : Option String := none
  subjectRelation : Likeness := .uncertain
  instanceRelation : Likeness := .uncertain
  deriving DecidableEq

/-- `plan.changes.model_dump(exclude_none=True)`. -/
def TaskPlan.patches (plan : TaskPlan) : List (Field × String) :=
  (plan.subject.map (Field.subject,·)).toList ++ (plan.task.map (Field.task,·)).toList

variable {t}

def Entry.cites (e : Entry t) (value : TaskInput) : Bool :=
  value.antecedentNoteId.any (fun id => e.card.sources.any (fun source => source.noteId = id))

def family (value : TaskInput) (found : List (Entry t)) : List (Entry t) :=
  found.filter (fun e => (value.intent.special || t.name e.card.subject = t.name (some value.subject)) &&
    t.name (some e.card.task) = t.name (some value.task))

/-- `decide`, with the plan the model would answer. -/
def decidePlan (value : TaskInput) (found : List (Entry t)) (answer : TaskPlan) : TaskPlan :=
  if value.intent = .new then { action := .new }
  else if found = [] then
    if value.intent.needsCard then { action := .pending,reason := "找不到要修改的任务，请补充任务或轮次" } else { action := .new }
  else
    let family := family value found
    if !present value.taskInstance && 1 < family.length && value.antecedentNoteId = none then
      { action := .pending,reason := "存在多次相似任务，请说明要更新哪一次" }
    else if value.intent = .auto && !found.any (·.cites value) && !family.isEmpty && family.length = found.length &&
        family.all (fun e => t.instanceConflict value.taskInstance e.card.taskInstance) then { action := .new }
    else answer

def Entry.sameTask (e : Entry t) (value : TaskInput) : Bool :=
  t.name e.card.subject = t.name (some value.subject) && t.name (some e.card.task) = t.name (some value.task) &&
    t.name e.card.taskInstance = t.name value.taskInstance

/-- A field a plan can patch, as the message has it. -/
def TaskInput.field (value : TaskInput) : Field → Option String
  | .subject => some value.subject
  | .task => some value.task
  | _ => none

def TaskCard.field (card : TaskCard) : Field → Option String
  | .subject => card.subject
  | .task => some card.task
  | _ => none

/-- The message may change the subject. -/
def TaskInput.editsSubject (value : TaskInput) : Bool :=
  value.intent = .transfer || (value.intent = .correct && .subject ∈ value.correctionFields)

/-- What a correction or a transfer needs. -/
def checkSpecial (value : TaskInput) (plan : TaskPlan) (found : List (Entry t)) (current : Entry t) : Except Error Unit := do
  checkChangeEvidence value none
  require (plan.reason ≠ "") (.valueError "纠正/转交缺少原卡关联理由")
  require (¬(value.antecedentNoteId.isSome ∧ ¬found.any (fun e => e.id = current.id && e.cites value)))
    (.valueError "纠正/转交目标与前文来源不一致")

variable (t) in
/-- One patch is what the message says, and what its intent allows. -/
def checkPatch (value : TaskInput) (patch : Field × String) : Except Error Unit := do
  require (t.name (some patch.2) = t.name (value.field patch.1)) (.valueError "字段修改与当前消息抽取结果不一致")
  require (¬(value.intent = .correct ∧ patch.1 ∉ value.correctionFields)) (.valueError "不能修改本次未明确纠正的字段")
  require (¬(patch.1 = .task ∧ value.intent ≠ .correct)) (.valueError "只有明确纠正才能修改原任务名称")
  require (¬(patch.1 = .subject ∧ ¬value.intent.special)) (.valueError "只有明确转交或纠正才能修改原执行人")

variable (t) in
def checkTransfer (value : TaskInput) (plan : TaskPlan) (card : TaskCard) : Except Error Unit := do
  require (∃ subject ∈ plan.subject, t.name (some subject) ≠ t.name card.subject) (.valueError "转交必须明确新的执行人")
  require (some value.taskStatus = card.taskStatus) (.valueError "转交不能同时改变任务完成状态")

variable (t) in
def checkCorrection (value : TaskInput) (plan : TaskPlan) (card : TaskCard) : Except Error Unit := do
  require (¬(.taskStatus ∉ value.correctionFields ∧ some value.taskStatus ≠ card.taskStatus))
    (.valueError "不能修改本次未明确纠正的任务状态")
  require (∀ field ∈ [Field.subject,.task], ¬(field ∈ value.correctionFields ∧
    t.name (value.field field) ≠ t.name (card.field field) ∧ field ∉ plan.patches.map Prod.fst))
    (.valueError "纠正必须同步修改对应身份字段")

variable (t) in
/-- The message and the card are about one subject and one round. -/
def checkIdentity (value : TaskInput) (plan : TaskPlan) (card : TaskCard) : Except Error Unit := do
  require (¬(plan.instanceRelation = .different ∨ (plan.subjectRelation = .different ∧ ¬value.editsSubject)))
    (.valueError "明确不同主体或轮次不能更新同一任务")
  require (¬(¬value.editsSubject ∧ t.name (some value.subject) ≠ t.name card.subject ∧
    (plan.subjectRelation ≠ .same ∨ plan.reason = ""))) (.valueError "主体名称不同，缺少同一身份的证据")
  require (¬t.instanceConflict value.taskInstance card.taskInstance) (.valueError "不能跨明确的日期或轮次更新任务")
  require (¬(present value.taskInstance ∧ present card.taskInstance ∧ t.name value.taskInstance ≠ t.name card.taskInstance ∧
    (plan.instanceRelation ≠ .same ∨ plan.reason = ""))) (.valueError "轮次表述不同，缺少同一次任务的证据")

def TaskInput.reverts (value : TaskInput) (card : TaskCard) : Prop :=
  card.taskStatus = some .done ∧ value.taskStatus = .todo

instance (value : TaskInput) (card : TaskCard) : Decidable (value.reverts card) := inferInstanceAs (Decidable (_ ∧ _))

def checkReverts (value : TaskInput) (card : TaskCard) : Except Error Unit := do
  require (¬(value.reverts card ∧ value.intent = .correct ∧ ¬(.taskStatus ∈ value.correctionFields ∧
    mentionsAny (orEmpty value.changeEvidence) ["没","未","待办","尚","不曾"]))) (.valueError "缺少原任务实际尚未完成的纠正证据")
  require (¬(value.reverts card ∧ value.intent ≠ .reopen ∧ value.intent ≠ .correct))
    (.valueError "任务已经结束，需要明确是重开原任务还是创建新任务")

def checkUpdate (value : TaskInput) (plan : TaskPlan) (found : List (Entry t)) (current : Entry t) : Except Error Unit := do
  whenever value.intent.special (checkSpecial value plan found current)
  plan.patches.forM (checkPatch t value)
  whenever (value.intent = .transfer) (checkTransfer t value plan current.card)
  whenever (value.intent = .correct) (checkCorrection t value plan current.card)
  checkIdentity t value plan current.card
  checkReverts value current.card
  require plan.description.isSome (.valueError "更新缺少完整任务描述")

/-- `check_plan`: the card that is updated, if any. -/
def checkPlan (value : TaskInput) (plan : TaskPlan) (found : List (Entry t)) : Except Error (Option (Entry t)) :=
  match plan.action with
  | .pending => .error (.valueError (orElse (some plan.reason) "无法确定任务更新对象"))
  | .new => do
    require (¬(value.intent ≠ .new ∧ found.any (·.sameTask value))) (.valueError "已存在同一次任务，不能重复新建")
    require (¬(value.intent.needsCard ∨ plan.targetId.isSome)) (.valueError "修改已有任务不能改为新建任务")
    return none
  | .update => do
    let current ← demand (found.find? (fun e => some e.id = plan.targetId)) (.valueError "任务更新目标不在本次检索结果中")
    checkUpdate value plan found current
    return some current

/-- The card of a message that starts one. -/
def TaskInput.card (value : TaskInput) : TaskCard where
  subject := some value.subject
  task := value.task
  taskInstance := value.taskInstance
  taskStatus := some value.taskStatus
  description := value.description
  sources := []

/-- A card is not changed by a message older than what it rests on. -/
def checkOrder (t : Texts) (card : TaskCard) (source : CardSource) : Except Error Unit := do
  let priorTimes := card.sources.filterMap (fun s => s.messageTime.filter (· ≠ ""))
  whenever (present source.messageTime ∧ priorTimes ≠ []) do
    let stamp := fun text => demand (t.fromisoformat text) (.valueError s!"Invalid isoformat string: {text}")
    let incoming ← stamp (orEmpty source.messageTime)
    let parsed ← priorTimes.mapM stamp
    require (¬(incoming.zoned ∧ parsed.all (·.zoned) ∧ ∃ time ∈ parsed, incoming.moment < time.moment))
      (.valueError "这条消息早于任务当前证据，需要确认历史信息是否仍然有效")

def fieldChanges (value : TaskInput) (changes : List (Field × String)) (card : TaskCard) : List FieldChange :=
  let patched := (changes.filter (fun patch => card.field patch.1 ≠ some patch.2)).map
    (fun patch => ⟨patch.1,card.field patch.1,some patch.2⟩)
  patched ++ if card.taskStatus = some value.taskStatus then []
    else [⟨.taskStatus,card.taskStatus.map TaskStatus.text,some value.taskStatus.text⟩]

/-- The message says nothing about the time of the card. -/
def TaskInput.keepsTime (value : TaskInput) : Bool :=
  value.intent = .transfer || (value.intent = .correct && .time ∉ value.correctionFields)

/-- `merge`. -/
def merge (value : TaskInput) (current : Option (Entry t)) (plan : TaskPlan) (source : CardSource) :
    Except Error TaskCard := do
  let card := current.elim value.card Entry.card
  whenever current.isSome (checkOrder t card source)
  let changes := if current.isSome then plan.patches else []
  let source := { source with fieldChanges := fieldChanges value changes card }
  let keepTime := current.isSome && value.keepsTime
  let timing := if keepTime then {} else source.resolvedTime
  return { card with
    subject := (if current.isSome then plan.subject else none) <|> card.subject
    task := ((if current.isSome then plan.task else none)).getD card.task
    sources := if card.sources.any (fun s => s.id = source.id) then card.sources else card.sources ++ [source]
    description := if current.isSome then orEmpty plan.description else value.description
    taskInstance := if present value.taskInstance && !present card.taskInstance && !keepTime then value.taskInstance
      else card.taskInstance
    periodStart := timing.periodStart <|> card.periodStart
    periodEnd := timing.periodEnd <|> card.periodEnd
    dueAt := timing.dueAt <|> card.dueAt
    taskStatus := some value.taskStatus }

end Suixinji.TaskCards
