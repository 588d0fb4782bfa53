import Suixinji.Ask.BusinessItems
import Suixinji.Ask.Fallback
import Suixinji.Ask.Lookups
import Suixinji.Facts.Access

/-! The tools a question may call (`_execute_tool` of agent/query_agent.py), read with
the access that is given, and the evidence that the executor and the repair
(agent/ask_executor.py) make of what they read. -/
namespace Suixinji.Ask
open Checked
open Memories (Memory Store MemoryType)
open Facts (Scope Supplied AccessContext)

inductive NoteTool where
  | searchNotes
  | getRelatedNotes
  | byType
  | byTag
  | filterNotes
  | semanticSearch
  | getNote
  | listRecent
  | followLinks
  | relatedNotes
  | memoryNoteFallback
  deriving DecidableEq

/-- An action with the arguments it reads. Types are given as the parts the argument falls into. -/
inductive ToolCall where
  | ofNotes (tool : NoteTool) (argument : String)
  | searchMemories (query : String) (memoryTypes : List String) (timeScope : String) (limit : Int)
  | searchTasks (query view : String) (status : Option String) (limit : Int)
  | memorySearch (query : String) (memoryType : Option String) (limit : Int)
  | taskStatusSearch (query : String) (limit : Int)
  | memoryHistory (query : String) (memoryType : Option String) (limit : Int)
  | listTasks (status : Option String) (limit : Int)
  | listRecentEpisodes (limit : Int)
  | profileSummary (query : String) (limit : Int)
  | unknown (action : String)

/-- What a search shows of time. -/
inductive View where
  | current
  | history
  | all
  deriving DecidableEq

/-- A question's reader with the access context that came with it. -/
structure Toolbox where
  reader : Reader Scope
  library : Facts.Library
  context : Supplied
  given : context ≠ .absent
  noteRecords : NoteTool → String → List Record
  recentFacts : Int → List Record
  texts : BusinessItems.Texts
  /-- The dict of an item, as the order of `list_recent_episodes` reads it. -/
  business : Found → BusinessItems.Item

/-- `_MEMORY_TOOL_TYPE_ALIASES`. -/
def memoryToolType : String → Option MemoryType
  | "preference" | "偏好" => some .preference
  | "semantic" | "语义" | "事实" | "fact" => some .semantic
  | "episodic" | "episode" | "event" | "情景" | "事件" => some .episodic
  | "task" | "任务" => some .task
  | _ => none

/-- `_merge_evidence`. -/
def mergeEvidence (current more : List Found) : List Found :=
  more.foldl (fun merged f =>
    if f.item.ownId ≠ "" ∧ f.item.ownId ∉ merged.map (·.item.ownId) then merged ++ [f] else merged) current

/-- The scope in `to_dict`: that of a card is without the card. -/
def itemScope (m : Memory Scope) : Scope :=
  if m.memoryKeyVersion.taskCard then m.scope.filter (·.1 ≠ "task_card")
  else if m.memoryKeyVersion = .preferenceCardV1 then m.scope.filter (·.1 ≠ "preference_card")
  else m.scope

def View.select (view : View) (limit : Nat) (current history : List Found) : List Found :=
  match view with
  | .history => history.take limit
  | .all => (mergeEvidence current history).take limit
  | .current => current.take limit

/-- `str(item.get("memory_type") or "") == "task"`. -/
def Found.isTask (f : Found) : Bool := f.item.memoryType = some "task"

namespace Toolbox

variable (b : Toolbox) (s : Store Scope)

/-- `memory_access_allowed`. -/
def allowed (scope : Scope) : Bool := Facts.memoryAccessAllowed b.library scope b.context

def r : Reader Scope := { b.reader with allowed := b.allowed, itemAllowed := fun m => b.allowed (itemScope m) }

def folded (text : String) : String := b.library.casefold (Text.stripped text)

def timeScope (text : String) : View :=
  let scope := b.folded (orText text "current")
  if scope ∈ ["history","timeline","历史","过程"] then .history
  else if scope ∈ ["all","全部","所有"] then .all
  else .current

def taskView (text : String) : View :=
  let view := b.folded (orText text "current")
  if view ∈ ["timeline","history","历史","过程"] then .history
  else if view ∈ ["all","全部","所有"] then .all
  else .current

/-- `_coerce_memory_types`. -/
def coerceMemoryTypes (parts : List String) : List MemoryType := (parts.filterMap (fun part => memoryToolType (b.folded part))).eraseDups

/-- What `search` gives of a type as an argument names it; of one that is not known there are no rows. -/
def typed (memoryType : Option String) (search : Option MemoryType → List Found) : List Found :=
  match memoryType.filter (· ≠ "") with
  | none => search none
  | some text => (parseMemoryType text).elim [] (fun kind => search (some kind))

def taskStatusSearch (query : String) (limit : Int) : List Found :=
  let requested := clamp limit 20
  b.r.keep (.taskStatus query requested)
    (b.r.memorySearch s query (some .task) (max (requested * 3) 12) ++ b.r.memorySearch s query (some .episodic) (max (requested * 2) 8))

/-- How many rows the lists fetch. -/
def fetchLimit (limit : Int) : Nat := max (clamp limit 100 * 4) 30

def listTasks (status : Option String) (limit : Int) : List Found :=
  let records := (b.r.listMemories s (some .active) (some .task) (fetchLimit limit)).filter (fun m => b.allowed m.scope)
  let items := (records.map b.r.rowRecord).filter (fun f => (status.filter (· ≠ "")).all (f.item.taskStatus.getD "" = ·))
  b.r.keep (.business (clamp limit 100)) items

def passesOwnRule (scope : Scope) : Bool :=
  BusinessItems.passesOwnRule (AccessContext.fromValue b.context) (scope.get "sensitivity") (scope.get "owner_id")

/-- The rows `list_recent_episodes` fetches. -/
def recentRows (limit : Int) : List (Memory Scope) := b.r.listMemories s (some .active) (some .episodic) (fetchLimit limit)

/-- The items of `list_recent_episodes`, the latest first. -/
def recentItems (limit : Int) : List Found :=
  let facts := if b.r.factMemory then (b.recentFacts limit).map (⟨.fact,·⟩) else []
  BusinessItems.recentFirst b.texts b.business (facts ++ ((b.recentRows s limit).filter (fun m => b.passesOwnRule m.scope)).map b.r.rowRecord)

def listRecentEpisodes (limit : Int) : List Found := (b.recentItems s limit).take (clamp limit 100)

def profileSummary (query : String) (limit : Int) : List Found :=
  [MemoryType.preference,.task,.semantic,.episodic].flatMap (fun kind =>
    b.r.keep (.business (clamp limit 100)) (b.r.memorySearch s query (some kind) (clamp limit 10)))

def searchTasks (query view : String) (status : Option String) (limit : Int) : List Found :=
  let bounded := clamp limit 30
  let query := Text.stripped query
  let status := (status.map b.folded).filter (· ∈ ["todo","done"])
  let found := if query ≠ "" then b.taskStatusSearch s query bounded else b.listTasks s status bounded
  let current := found.filter (fun f => !f.isTask || status.all (b.library.casefold (f.item.taskStatus.getD "") = ·))
  let history := if query = "" then [] else (b.r.memoryHistory s query bounded (some .task)).filter Found.isTask
  (b.taskView view).select bounded current history

def searchMemories (query : String) (memoryTypes : List String) (timeScope : String) (limit : Int) : List Found :=
  let bounded := clamp limit 20
  let query := Text.stripped query
  let requested := b.coerceMemoryTypes memoryTypes
  let view := b.timeScope timeScope
  if requested = [.task] then b.searchTasks s query (if view = .history then "timeline" else "current") none bounded
  else
    let types := requested.filter (· ≠ .task)
    let current :=
      if types.isEmpty then ((b.r.memorySearch s query none (min 50 (bounded * 3))).filter (fun f => !f.isTask)).take bounded
      else b.r.keep (.ranked bounded) (types.flatMap (fun kind => b.r.memorySearch s query (some kind) bounded))
    let history :=
      if types.isEmpty then (b.r.memoryHistory s query bounded).filter (fun f => !f.isTask)
      else types.foldl (fun rows kind => mergeEvidence rows (b.r.memoryHistory s query bounded (some kind))) []
    view.select bounded current history

/-- `_execute_tool`, the records in its result. -/
def executeTool : ToolCall → List Found
  | .ofNotes tool argument => (b.noteRecords tool argument).map (⟨.note,·⟩)
  | .searchMemories query memoryTypes timeScope limit => b.searchMemories s query memoryTypes timeScope limit
  | .searchTasks query view status limit => b.searchTasks s query view status limit
  | .memorySearch query memoryType limit => typed memoryType (fun kind => b.r.memorySearch s query kind limit.toNat)
  | .taskStatusSearch query limit => b.taskStatusSearch s query limit
  | .memoryHistory query memoryType limit => typed memoryType (fun kind => b.r.memoryHistory s query limit kind)
  | .listTasks status limit => b.listTasks s status limit
  | .listRecentEpisodes limit => b.listRecentEpisodes s limit
  | .profileSummary query limit => b.profileSummary s query limit
  | .unknown _ => []

/-- What the tools of a plan's units come to, of which some may raise. -/
def answers (asked : Option Nat) (plan : AskPlan) (raises : Nat → Option (String × String)) (place : Nat) : Outcome :=
  match raises place with
  | some (kind,text) => .raised kind text
  | none =>
    match plan.units[place]? with
    | none => .returned .domainError []
    | some unit =>
      let (tool,found) := b.r.executeDomainTool s asked unit
      .returned tool (found.map (·.item))

/-- What the repair reads, by the access that is given. -/
def fallbackReaders : FallbackReaders where
  memorySearch unit := some ((b.r.memorySearch s unit.question (some .episodic) 4).map (·.item))
  noteFallback unit := some ((b.r.noteFallback unit.question).map (·.item))
  recordRelevant := b.r.recordRelevant

theorem fallbackReaders_records (unit : QueryUnit) :
    ((b.fallbackReaders s).fallback unit).records = (b.r.repairRecords s unit).map (·.item) := by
  have relevant (found : List Found) : (found.map (·.item)).filter (b.r.recordRelevant unit) = (found.filter (b.r.isRelevant unit)).map (·.item) :=
    List.filter_map
  unfold FallbackReaders.fallback FallbackReaders.attempt Reader.repairRecords fallbackReaders
  dsimp only
  by_cases task : unit.intent = .taskState
  · cases episodes : b.r.memorySearch s unit.question (some .episodic) 4 with
    | nil => simp [task,relevant]
    | cons first rest => simp [task,← relevant]
  · simp [task,relevant]

/-- The bundles of `repair_missing_evidence`, with so much of a budget (none with fewer than two rounds). -/
def repairMissingEvidence (budget : Nat) (plan : AskPlan) (bundles : List UnitEvidenceBundle) : Except ValidationError (List UnitEvidenceBundle) := do
  let repair ← repairLoop (b.fallbackReaders s) (bundleOfUnit bundles) budget plan.units {bundles}
  pure repair.bundles

/-- The bundles a question is answered from, before their sources are loaded. -/
def askEvidence (lib : Library) (asked : Option Nat) (plan : AskPlan) (raises : Nat → Option (String × String)) (timing : Timing)
    (budget : Nat) : Except ValidationError (List UnitEvidenceBundle) := do
  let result ← executeAskPlan lib plan (b.answers s asked plan raises) timing
  b.repairMissingEvidence s budget plan result.bundles

end Toolbox

end Suixinji.Ask
