import Suixinji.Ask.Plan
import Suixinji.Relational.Search
import Mathlib.Data.List.Infix

/-! What becomes of the planner's output (agent/ask_plan_validator.py): the units
that are kept, each with the text of the question it can show, and the fallback
when there is none or when they wait for one another. The planner's output is
what `AskPlan.model_validate` makes of it, none when it refuses. -/
namespace Suixinji.Ask
open Memories (MemoryType)
open Text (isSpace)

/-- `_INTENT_MEMORY_TYPE`. -/
def intentMemoryType : Intent → Option MemoryType
  | .taskState | .taskInventory => some .task
  | .preferenceCurrent => some .preference
  | .semanticCurrent | .semanticHistory => some .semantic
  | .episodicHistory => some .episodic
  | .noteLookup | .memoryHistory => none

inductive SessionValue where
  | text (value : String)
  | mapping (values : List (Option String))
  | other

def blank (value : String) : Bool := value.toList.all isSpace

/-- `_session_texts`. -/
def sessionTexts (context : List SessionValue) : List String :=
  context.flatMap fun
    | .text value => if blank value then [] else [value]
    | .mapping values => values.reduceOption.filter (fun value => !blank value)
    | .other => []

def timelineCues : List String := ["历史","变化","经历","过程","时间线","从开始","从最初","之前","后来"]
def currentCues : List String := ["现在","当前","目前","眼下"]
def taskInventoryCues : List String := ["有哪些","列出","清单"]
def taskInventoryDomains : List String := ["任务","项目","待办"]
def taskEventTimeCues : List String := ["何时","什么时候","截止","哪天","几号"]
def taskEventActionCues : List String := ["提交","完成","参加","上线","发布","交付","开始"]
def ambiguousReferenceCues : List String := ["那个","这个","那件","这件","它"]
def taskStateCues : List String := ["怎么样","进度","状态","完成","做完","还要","是否"]
def episodeCues : List String := ["经历","发生","最近记录"]

/-- `_ANCHOR_GENERIC_NGRAMS`. -/
def anchorGenericNgrams : List String :=
  ["什么","喜欢","不喜","最喜","我最","现在","当前","目前","哪里","怎么","哪个","这个","那个","有哪"]

section Validator

variable (casefold : Char → List Char)

/-- `_compact`. -/
def compact (value : String) : List Char := (value.toList.filter (fun c => !isSpace c)).flatMap casefold

def mentions (cues : List String) (text : List Char) : Bool := cues.any (fun cue => decide (compact casefold cue <:+: text))

/-- Which cues are in a question. -/
structure Cues where
  ambiguous : Bool
  timeline : Bool
  episode : Bool
  event : Bool
  listed : Bool

def cuesOf (question : String) : Cues where
  ambiguous := mentions casefold ambiguousReferenceCues (compact casefold question) &&
    mentions casefold taskStateCues (compact casefold question)
  timeline := mentions casefold timelineCues (compact casefold question)
  episode := mentions casefold episodeCues (compact casefold question)
  event := mentions casefold taskEventTimeCues (compact casefold question) &&
    mentions casefold taskEventActionCues (compact casefold question)
  listed := mentions casefold taskInventoryCues (compact casefold question) &&
    mentions casefold taskInventoryDomains (compact casefold question)

/-- Whether the question of a unit has a cue for the present. -/
def asksNow (question : String) : Bool := mentions casefold currentCues (compact casefold question)

/-- The timeline branch is open: a timeline cue, and not `asks_current_state`. -/
def Cues.timely (cues : Cues) (now : Bool) (unit : QueryUnit) : Bool := cues.timeline && !(unit.timeMode = .current && now)

def Cues.repair (cues : Cues) (now : Bool) (unit : QueryUnit) : QueryUnit :=
  if cues.ambiguous then
    { unit with intent := .taskInventory, memoryType := some .task, timeMode := .current, evidenceMode := .inventory }
  else if cues.timely now unit && unit.intent = .noteLookup && cues.episode then
    { unit with
      intent := .episodicHistory
      memoryType := some .episodic
      timeMode := .recent
      evidenceMode := .timeline
      needSourceEvidence := true }
  else if cues.timely now unit && unit.intent ∉ [Intent.episodicHistory,.noteLookup] then
    { unit with
      intent := .memoryHistory
      memoryType := none
      timeMode := .history
      evidenceMode := .timeline
      needSourceEvidence := true }
  else if cues.event && unit.intent ∈ [Intent.semanticCurrent,.noteLookup] then
    { unit with intent := .taskState, memoryType := some .task, timeMode := .current, evidenceMode := .currentState }
  else if (unit.evidenceMode = .inventory || cues.listed) &&
      unit.intent ∈ [Intent.taskState,.semanticCurrent,.semanticHistory,.noteLookup] then
    { unit with intent := .taskInventory, memoryType := some .task, timeMode := .current, evidenceMode := .inventory }
  else unit

/-- `_repair_intent_for_query`. -/
def repairIntentForQuery (unit : QueryUnit) (question : String) : QueryUnit :=
  (cuesOf casefold question).repair (asksNow casefold unit.question) unit

/-- Whether a span of the unit is in the question or in the session. -/
def supported (sources : List (List Char)) (span : String) : Bool :=
  !(compact casefold span).isEmpty && sources.any (fun source => decide (compact casefold span <:+: source))

def sources (question : String) (session : List String) : List (List Char) := (question::session).map (compact casefold)

def hasSupportedSpan (unit : QueryUnit) (question : String) (session : List String) : Bool :=
  unit.sourceSpans.any (supported casefold (sources casefold question session))

/-- `_anchor_ngrams`. -/
def anchorNgrams (value : String) : List (List Char) :=
  let text := compact casefold value
  ((List.range (text.length - 1)).map (fun i => (text.drop i).take 2)).filter (fun gram => String.ofList gram ∉ anchorGenericNgrams)

def repairQueryAnchor (unit : QueryUnit) (question : String) (session : List String) : QueryUnit :=
  match unit.sourceSpans.find? (supported casefold (sources casefold question session)) with
  | none => unit
  | some anchor =>
    let terms := anchorNgrams casefold anchor
    if !terms.isEmpty && terms.all (· ∉ anchorNgrams casefold unit.question) then
      { unit with question := anchor, topic := some anchor }
    else unit

/-- One turn of the loop, before the question whether the same was kept already. -/
def acceptUnit (question : String) (session known : List String) (unit : QueryUnit) : Option QueryUnit :=
  let unit := repairIntentForQuery casefold unit question
  let expected := intentMemoryType unit.intent
  if expected.isSome && unit.memoryType ∉ [none,expected] then none
  else
    let unit := { unit with memoryType := expected.or unit.memoryType }
    if unit.sourceSpans.isEmpty || !hasSupportedSpan casefold unit question session then none
    else
      let unit := repairQueryAnchor casefold unit question session
      some { unit with dependsOn := unit.dependsOn.filter (fun item => item ∈ known && item ≠ unit.id) }

/-- What two kept units differ in; their ids are not part of it. -/
def identity (unit : QueryUnit) : Intent × List Char × TimeMode × EvidenceMode :=
  (unit.intent,compact casefold (unit.topic.getD ""),unit.timeMode,unit.evidenceMode)

def collect (question : String) (session known : List String) :
    List QueryUnit → List (Intent × List Char × TimeMode × EvidenceMode) → List QueryUnit
  | [],_ => []
  | unit::rest,seen =>
    match acceptUnit casefold question session known unit with
    | none => collect question session known rest seen
    | some unit =>
      if identity casefold unit ∈ seen then collect question session known rest seen
      else unit::collect question session known rest (identity casefold unit::seen)

/-- The units that `collect` keeps, as they came. -/
def originals (question : String) (session known : List String) :
    List QueryUnit → List (Intent × List Char × TimeMode × EvidenceMode) → List QueryUnit
  | [],_ => []
  | unit::rest,seen =>
    match acceptUnit casefold question session known unit with
    | none => originals question session known rest seen
    | some next =>
      if identity casefold next ∈ seen then originals question session known rest seen
      else unit::originals question session known rest (identity casefold next::seen)

def among (ids : List String) (unit : QueryUnit) : QueryUnit :=
  { unit with dependsOn := unit.dependsOn.filter (fun item => item ∈ ids && item ≠ unit.id) }

def kept (plan : AskPlan) (question : String) (context : List SessionValue) (maxUnits : Int) : List QueryUnit :=
  let read := plan.units.take (max 1 (min maxUnits 6)).toNat
  let accepted := collect casefold question (sessionTexts context) (plan.units.map (·.id)) read []
  accepted.map (among (accepted.map (·.id)))

end Validator

/-- The graph of `_has_cycle`: of units with one id it holds the last. -/
def parents (units : List QueryUnit) (id : String) : List String :=
  match units.reverse.find? (fun unit => unit.id = id) with
  | none => []
  | some unit => unit.dependsOn.filter (fun parent => parent ∈ units.map (·.id))

/-- `_has_cycle`. -/
def hasCycle (units : List QueryUnit) : Bool := (Search.hasCycle (parents units) (units.map (·.id)).eraseDups).getD true

/-- Whether the kept units make a plan. -/
def Usable (units : List QueryUnit) : Prop := units ≠ [] ∧ hasCycle units = false

instance (units : List QueryUnit) : Decidable (Usable units) := inferInstanceAs (Decidable (_ ∧ _))

def validateAskPlan (casefold : Char → List Char) (raw : Option AskPlan) (question : String) (context : List SessionValue)
    (maxUnits : Int) : Except ValidationError AskPlan :=
  match raw with
  | none => safeFallbackPlan question
  | some plan =>
    let units := kept casefold plan question context maxUnits
    if Usable units then AskPlan.make (clean question) plan.context units plan.answerMode else safeFallbackPlan question

/-- The search has calls enough, so the default is never taken. -/
theorem hasCycle_found (units : List QueryUnit) :
    Search.hasCycle (parents units) (units.map (·.id)).eraseDups = some (hasCycle units) := by
  have closed : ∀ id ∈ (units.map (·.id)).eraseDups, parents units id ⊆ (units.map (·.id)).eraseDups := by
    intro id _ parent member
    unfold parents at member
    split at member
    · cases member
    · have inside := (List.mem_filter.mp member).2
      exact List.mem_eraseDups.mpr (of_decide_eq_true inside)
  obtain ⟨found,ran⟩ := Option.isSome_iff_exists.mp (Search.hasCycle_isSome closed)
  simp [hasCycle,ran]

section Kept

variable {casefold : Char → List Char} {plan : AskPlan} {question : String} {context : List SessionValue} {maxUnits : Int}

theorem collect_length {session known : List String} : ∀ (units : List QueryUnit) seen,
    (collect casefold question session known units seen).length ≤ units.length := by
  intro units
  induction units with
  | nil => exact fun _ => Nat.le_refl 0
  | cons unit rest ih =>
    intro seen
    rw [collect]
    split
    · exact Nat.le_succ_of_le (ih _)
    · split
      · exact Nat.le_succ_of_le (ih _)
      · exact Nat.succ_le_succ (ih _)

theorem kept_length : (kept casefold plan question context maxUnits).length ≤ 16 := by
  unfold kept
  rw [List.length_map]
  calc (collect casefold question (sessionTexts context) _ _ []).length
      ≤ (plan.units.take (max 1 (min maxUnits 6)).toNat).length := collect_length _ _
    _ ≤ plan.units.length := List.length_take_le' _ _
    _ ≤ 16 := plan.units_fit.2

theorem kept_ids (accepted : List QueryUnit) (ids : List String) : (accepted.map (among ids)).map (·.id) = accepted.map (·.id) := by
  rw [List.map_map]
  rfl

theorem kept_dependsOn {unit : QueryUnit} (member : unit ∈ kept casefold plan question context maxUnits) {parent : String}
    (waits : parent ∈ unit.dependsOn) : parent ∈ (kept casefold plan question context maxUnits).map (·.id) := by
  unfold kept at member ⊢
  obtain ⟨before,-,rfl⟩ := List.mem_map.mp member
  have inside := (List.mem_filter.mp waits).2
  rw [kept_ids]
  simp only [Bool.and_eq_true,decide_eq_true_eq] at inside
  exact inside.1

theorem validate_usable (text : clean question ≠ "") (fits : question.length ≤ 2000)
    (usable : Usable (kept casefold plan question context maxUnits)) :
    ∃ p, validateAskPlan casefold (some plan) question context maxUnits = .ok p ∧ p.units = kept casefold plan question context maxUnits := by
  have some_text : 1 ≤ (clean question).length := Nat.one_le_iff_ne_zero.mpr (by simpa using text)
  have units_fit := List.length_pos_iff.mpr usable.1
  have query_fits : 1 ≤ (clean question).length ∧ (clean question).length ≤ 2000 :=
    ⟨some_text,Nat.le_trans (clean_length question) fits⟩
  refine ⟨⟨clean question,plan.context,_,plan.answerMode,query_fits,plan.context_fits,⟨units_fit,kept_length⟩⟩,?_,rfl⟩
  simp only [validateAskPlan,if_pos usable]
  exact AskPlan.make_ok _ _ _

end Kept

section Order

variable {units : List QueryUnit}

theorem parents_of_distinct (distinct : (units.map (·.id)).Nodup) {unit : QueryUnit} (member : unit ∈ units)
    (inside : ∀ parent ∈ unit.dependsOn, parent ∈ units.map (·.id)) : parents units unit.id = unit.dependsOn := by
  have found : units.reverse.find? (fun other => other.id = unit.id) = some unit := by
    have reversed : (units.reverse.map (·.id)).Nodup := by
      rw [List.map_reverse]
      exact List.nodup_reverse.mpr distinct
    exact Relational.Table.find?_of_distinct reversed (List.mem_reverse.mpr member)
  rw [parents,found]
  exact List.filter_eq_self.mpr (fun parent waits => decide_eq_true (inside parent waits))

theorem next_unit (usable : Usable units) (distinct : (units.map (·.id)).Nodup)
    (inside : ∀ unit ∈ units, ∀ parent ∈ unit.dependsOn, parent ∈ units.map (·.id)) {completed : String → Prop}
    (waiting : ∃ unit ∈ units, ¬completed unit.id) : ∃ unit ∈ units, ¬completed unit.id ∧ ∀ p ∈ unit.dependsOn, completed p := by
  have free : Search.hasCycle (parents units) (units.map (·.id)).eraseDups = some false := by
    rw [hasCycle_found,usable.2]
  obtain ⟨done,ordered,there⟩ := Search.ordered_of_hasCycle free
  obtain ⟨unit,member,waits⟩ := waiting
  have named : ∀ {u}, u ∈ units → u.id ∈ units.map (·.id) := fun inside => List.mem_map_of_mem inside
  -- what is no unit of the plan counts as done
  obtain ⟨id,-,waits,ready⟩ := ordered.next (fun id => id ∈ units.map (·.id) → completed id)
    ⟨unit.id,there (List.mem_eraseDups.mpr (named member)),fun done => waits (done (named member))⟩
  obtain ⟨id_there,waits⟩ := Classical.not_imp.mp waits
  obtain ⟨next,next_there,rfl⟩ := List.mem_map.mp id_there
  rw [parents_of_distinct distinct next_there (inside next next_there)] at ready
  exact ⟨next,next_there,waits,fun p parent => ready p parent (inside next next_there p parent)⟩

end Order

end Suixinji.Ask
