import Suixinji.Memories.System
import Suixinji.Ask.Evidence

/-! The reads behind a question (agent/ask_executor.py, agent/query_agent.py,
repositories/postgres/memory.py): which rows and versions of the memories a tool
makes records of. What scores keep of a list, and in what order, is given as the
places kept. -/
namespace Suixinji.Ask
open Ranking
open Memories (Memory Store MemoryId NoteId Version MemoryType KeyVersion SpaceId TaskStatus)
open Text (stripped)

variable {σ : Type}

/-- What a record was made of. -/
inductive Origin where
  | row (memory : MemoryId)
  | version (memory : MemoryId) (place : Nat)
  | note
  | fact
  deriving DecidableEq

def Origin.Of (memory : MemoryId) : Origin → Prop
  | .row m => m = memory
  | .version m _ => m = memory
  | .note | .fact => False

structure Found where
  origin : Origin
  item : Record

/-- A list that scores have cut and ordered. -/
inductive Stage where
  | search (query : String) (kind : Option MemoryType) (limit : Nat)
  | taskStatus (query : String) (limit : Nat)
  | merge (limit : Nat)
  | rerank
  | relevant (question : String)
  | history (question : String)
  | ranked (limit : Nat)
  | business (limit : Nat)

/-- What a question is read with: the space and access it has, the texts and scopes
as functions read them, the notes, and the places each ranking keeps. -/
structure Reader (σ : Type) where
  spaceId : SpaceId
  now : Memories.Time
  allowed : σ → Bool
  /-- The access decision on what `to_dict` leaves of the scope of a card. -/
  itemAllowed : Memory σ → Bool := fun m => allowed m.scope
  factMemory : Bool := true
  exportable : Memory σ → Bool
  relevant : QueryUnit → Memory σ → Bool
  overlap : String → Memory σ → Rat
  /-- The task status of an item; that of a card is in the card. -/
  taskStatus : Memory σ → Option String := fun m => m.taskStatus.map TaskStatus.text
  idText : MemoryId → Identifier
  versionText : MemoryId → Nat → Identifier
  topic : σ → Option String
  closedCard : Memory σ → Bool
  contradicts : NoteId → Bool
  migrated : MemoryId → Bool
  normalize : String → String
  ilike : String → String → Bool
  terms : String → List String
  profiled : QueryUnit → List MemoryId
  places : Stage → List Found → List Nat
  facts : String → Option MemoryType → List Record
  notes : String → List Record
  recordRelevant : QueryUnit → Record → Bool

/-- `items[:limit]`. -/
def firstOf {α : Type} (limit : Int) (items : List α) : List α :=
  if 0 ≤ limit then items.take limit.toNat else items.take (items.length - limit.natAbs)

theorem firstOf_subset {α : Type} (limit : Int) (items : List α) : firstOf limit items ⊆ items := by
  unfold firstOf
  split <;> exact List.take_subset _ _

namespace Reader

variable (r : Reader σ) (s : Store σ)

def keep (stage : Stage) (items : List Found) : List Found := (r.places stage items).filterMap (items[·]?)

/-- `to_dict`, as far as a record is read. -/
def rowRecord (m : Memory σ) : Found where
  origin := .row m.id
  item := { id := some (r.idText m.id), memoryType := some m.memoryType.text, content := m.content, subject := m.subject,
            predicate := m.predicate, objectValue := m.objectValue, memoryKey := m.memoryKey,
            memoryKeyVersion := some m.memoryKeyVersion, canonicalTopic := r.topic m.scope, taskStatus := r.taskStatus m }

/-- A version as evidence; an empty content gives way to that of the memory. -/
def versionRecord (m : Memory σ) (v : Version × Nat) : Found where
  origin := .version m.id v.2
  item := { id := some (r.versionText m.id v.2), memoryId := some (r.idText m.id), versionId := some (r.versionText m.id v.2),
            sourceKind := "memory_version", memoryType := some m.memoryType.text, content := orText v.1.content m.content }

def rowsWhere (p : Memory σ → Bool) (limit : Nat) : List (Memory σ) :=
  (descending (byThen (·.updatedAt) (less (·.id))) (s.memories.rows.filter (fun m => m.spaceId = r.spaceId && p m))).take limit

/-- `list_memories`; a limit above 100 is cut to that, and of active memories those that are over are left out. -/
def listMemories (status : Option Memories.MemoryStatus) (kind : Option MemoryType) (limit : Nat) : List (Memory σ) :=
  r.rowsWhere s (fun m => status.all (m.status = ·) && kind.all (m.memoryType = ·) &&
    (status ≠ some .active || m.validUntil.all (r.now < ·))) (max 1 (min limit 100))

/-- The versions of a memory in their order, each with its place in the table. -/
def versions (id : MemoryId) : List (Version × Nat) := sortBy (·.1.version) (s.versions.zipIdx.filter (·.1.memoryId = id))

/-- What `get_memory_timeline` gives for a row: its versions, none where it leaves the row out. -/
def timeline (m : Memory σ) : Option (List (Version × Nat)) :=
  if !r.allowed m.scope then none
  else if m.memoryKeyVersion.taskCard then some (versions s m.id)
  else if m.memoryKeyVersion = .preferenceCardV1 then some []
  else if m.memoryType = .preference && r.migrated m.id then none
  else some (versions s m.id)

/-- The predicates of a query for a timeline. -/
def locates (query : String) (m : Memory σ) : Bool :=
  r.normalize m.content = r.normalize query || m.memoryKey = some (stripped query) ||
    (stripped query ≠ "" && r.ilike m.content (Text.slice 160 (stripped query))) ||
    ((r.terms query).take 8).any (fun term => r.ilike m.content (Text.slice 80 term))

/-- `get_memory_timeline` of a query. -/
def located (query : String) (limit : Nat) : List (Memory σ) := r.rowsWhere s (r.locates query) (max 1 (min limit 50))

/-- `get_memory_timeline` of an id. -/
def rowOf (id : MemoryId) : List (Memory σ) := r.rowsWhere s (·.id = id) 1

/-- `_task_source_supports_inventory`. -/
def supports (m : Memory σ) : Bool := r.closedCard m || ((s.noteIds m.id).take 3).all (fun n => !r.contradicts n)

/-- A version that records an extraction that was negated. -/
def auditOnly (text : String) : Bool := Text.mentionsAny text ["无关信息","并非相关","误提取"]

def shown (m : Memory σ) : List Found :=
  match r.timeline s m with
  | none => []
  | some versions =>
    if r.supports s m then
      (versions.filter (fun v => !auditOnly (orText v.1.content m.content))).map (r.versionRecord m)
    else []

/-- The first record of each origin. -/
def unseen : List Found → List Origin → List Found
  | [],_ => []
  | f::rest,seen => if f.origin ∈ seen then unseen rest seen else f::unseen rest (f.origin::seen)

/-- `search_memories` and what `memory_search` adds to it with the fact memory: active memories
by their items, and facts. -/
def memorySearch (query : String) (kind : Option MemoryType) (limit : Nat) : List Found :=
  let active := s.memories.rows.filter (fun m =>
    m.spaceId = r.spaceId && m.status = .active && kind.all (m.memoryType = ·) &&
      (r.allowed m.scope || (r.factMemory && r.itemAllowed m)))
  r.keep (.search query kind limit) (active.map r.rowRecord ++ (r.facts query kind).map (⟨.fact,·⟩))

def noteFallback (query : String) : List Found := (r.notes query).map (⟨.note,·⟩)

/-- The texts that are not blank, each once. -/
def variants (texts : List String) : List String := (texts.filter (fun value => stripped value ≠ "")).eraseDups

/-- `_query_variants`. -/
def queries (unit : QueryUnit) : List String := variants (unit.question::unit.topic.toList)

def timelineQueries (unit : QueryUnit) : List String := variants (unit.topic.toList ++ [unit.question])

/-- `_task_inventory_records`. -/
def taskInventoryRecords (limit : Nat) : List Found :=
  (((r.listMemories s (some .active) (some .task) (max (limit * 3) 12)).filter (fun m => r.itemAllowed m && r.supports s m)).map
    r.rowRecord).take limit

/-- `_timeline_version_records`. -/
def timelineVersionRecords (unit : QueryUnit) : List Found :=
  let direct := (timelineQueries unit).flatMap (fun query => (r.located s query 10).flatMap (r.shown s))
  let candidates := ((timelineQueries unit).flatMap (fun query => r.memorySearch s query none 6)).filterMap
    (fun f => match f.origin with | .row m => some m | _ => none)
  let more := candidates.eraseDups.flatMap (fun id => (r.rowOf s id).flatMap (r.shown s))
  unseen (direct ++ more) []

/-- `_filtered_records`, on rows. -/
def filtered (unit : QueryUnit) (rows : List (Memory σ)) : List (Memory σ) :=
  rows.filter (fun m => r.exportable m && r.itemAllowed m && r.relevant unit m)

/-- `_pending_preference_records`. -/
def pendingPreferenceRecords (unit : QueryUnit) : List Found :=
  ((r.filtered unit (r.listMemories s none (some .preference) 200)).filter
    (fun m => m.status = .pendingReview || m.status = .conflicted)).map r.rowRecord

/-- The inactive rows of `_semantic_history_fallback_records`. -/
def inactiveSemantic (unit : QueryUnit) : List (Memory σ) :=
  (r.filtered unit (r.listMemories s none (some .semantic) 200)).filter (fun m => m.status ≠ .active)

def fallbackVersions (m : Memory σ) : List Found :=
  (r.rowOf s m.id).flatMap (fun row => ((r.timeline s row).getD []).map (r.versionRecord m))

/-- `_semantic_history_fallback_records`. -/
def semanticHistoryFallbackRecords (unit : QueryUnit) : List Found :=
  ((r.inactiveSemantic s unit).flatMap (r.fallbackVersions s)).take 8

def isRelevant (unit : QueryUnit) (f : Found) : Bool := r.recordRelevant unit f.item

/-- The active memories a profile names, less those `_filtered_records` drops later, and then what was ranked. -/
def structuredLane (unit : QueryUnit) (ranked : List Found) : List Found :=
  ((r.listMemories s (some .active) (some .semantic) 200).filter
    (fun m => m.id ∈ r.profiled unit && r.exportable m && r.itemAllowed m)).map r.rowRecord ++ ranked

def searchAll (unit : QueryUnit) (kind : MemoryType) (limit merged : Nat) : List Found :=
  r.keep (.merge merged) ((queries unit).flatMap (fun query => r.memorySearch s query (some kind) limit))

/-- What a unit on the present finds among the active memories. -/
def currentSemantic (unit : QueryUnit) : List Found :=
  let ranked := r.keep .rerank ((r.searchAll s unit .semantic 10 12).filter (r.isRelevant unit))
  (r.structuredLane s unit ranked).filter (r.isRelevant unit)

/-- `_inventory_limit`, of a count the question asks for. -/
def inventoryLimit (asked : Option Nat) : Nat := asked.elim 5 (fun n => max 1 (min n 8))

/-- `_execute_domain_tool`. -/
def executeDomainTool (asked : Option Nat) (unit : QueryUnit) : Tool × List Found :=
  match unit.intent with
  | .taskInventory => (.listTaskInventory,r.taskInventoryRecords s (inventoryLimit asked))
  | .taskState =>
    let found := fun query => r.keep (.taskStatus query 8)
      (r.memorySearch s query (some .task) 24 ++ r.memorySearch s query (some .episodic) 16)
    (.searchTaskState,r.keep .rerank (r.keep (.merge 8) ((queries unit).flatMap found)))
  | .preferenceCurrent =>
    let current := (r.searchAll s unit .preference 6 12).filter (r.isRelevant unit)
    (.searchPreferences,r.keep .rerank (r.keep (.merge 6) (current ++ r.pendingPreferenceRecords s unit)))
  | .semanticCurrent =>
    if (r.currentSemantic s unit).isEmpty then (.resolveSemanticHistoryFallback,r.semanticHistoryFallbackRecords s unit)
    else (.resolveSemanticFacts,r.currentSemantic s unit)
  | .semanticHistory =>
    (.resolveSemanticFacts,r.keep .rerank ((r.searchAll s unit .semantic 10 12).filter (r.isRelevant unit)))
  | .episodicHistory => (.searchEpisodes,r.keep .rerank (r.searchAll s unit .episodic 10 10))
  | .memoryHistory => (.getMemoryTimeline,r.timelineVersionRecords s unit)
  | .noteLookup => (.searchNotes,r.keep .rerank (r.keep (.merge 50) ((queries unit).flatMap r.noteFallback)))

/-- The records of one unit in `repair_missing_evidence`. -/
def repairRecords (unit : QueryUnit) : List Found :=
  let episodes := r.memorySearch s unit.question (some .episodic) 4
  let records :=
    if unit.intent = .taskState && !episodes.isEmpty then episodes else r.noteFallback unit.question
  records.filter (r.isRelevant unit)

/-- The statuses `_stale_history_fallback` asks for; `forgotten` and `deleted` are among them. -/
def stale (m : Memory σ) : Bool :=
  m.status ∈ [Memories.MemoryStatus.superseded,.expired,.archived,.forgotten,.deleted]

/-- What the fallback has of a row: its versions, or itself where it has none to show. -/
def staleRows (m : Memory σ) : List Found :=
  match (r.timeline s m).getD [] with
  | [] => [r.rowRecord m]
  | versions => versions.map (r.versionRecord m)

/-- The rows `_stale_history_fallback` reads. -/
def staleMemories (question : String) (limit : Nat) : List (Memory σ) :=
  (r.listMemories s none none limit).filter (fun m => r.allowed m.scope && stale m && 2/25 ≤ r.overlap question m)

/-- `_stale_history_fallback`. -/
def staleHistoryFallback (question : String) (limit : Nat) : List Found :=
  ((r.staleMemories s question limit).flatMap (r.staleRows s)).take (max 1 (min limit 20))

/-- What `memory_history` makes of a hit: the versions of the memory. -/
def historyOf (f : Found) : List Found :=
  match f.origin with
  | .row id => ((r.rowOf s id).filter (fun m => r.allowed m.scope)).flatMap (fun m => (versions s m.id).map (r.versionRecord m))
  | _ => []

/-- `memory_history`: the facts a search has found, and the versions of one of the memories. -/
def memoryHistory (question : String) (limit : Int) (kind : Option MemoryType := none) : List Found :=
  let hits := r.keep (.history question) (r.memorySearch s question kind limit.toNat)
  let facts := hits.filter (·.origin = .fact)
  let rows := hits.flatMap (r.historyOf s)
  if facts.isEmpty then rows else firstOf limit (facts ++ rows)

/-- The evidence limit of `answer_question_result`. -/
def evidenceLimit (maxSteps : Nat) : Nat := max 5 (min (maxSteps * 2) 20)

/-- The current evidence of `answer_question_result`. -/
def currentEvidence (question : String) (limit : Nat) : List Found :=
  r.keep (.relevant question) (r.memorySearch s question none limit)

/-- The history evidence of `answer_question_result`. `routed` is a route to the memory history. -/
def historyEvidence (question : String) (routed : Bool) (maxSteps : Nat) : List Found :=
  let limit := evidenceLimit maxSteps
  let history := if routed then r.memoryHistory s question limit else []
  let evidence := if routed && !history.isEmpty then [] else r.currentEvidence s question limit
  let fallback := if history.isEmpty then r.staleHistoryFallback s question limit else []
  if evidence.isEmpty && !fallback.isEmpty then fallback else history

end Reader

end Suixinji.Ask
