import Mathlib.Algebra.Ring.Rat
import Mathlib.Data.List.Infix
import Suixinji.Ask.Plan
import Suixinji.Relational.Ranking
import Mathlib.Data.List.Sort

/-! From the records of a tool to the evidence of a unit (agent/ask_executor.py,
agent/note_reranker.py, agent/ask_models.py). The scores are read as the rationals
they stand for; the terms and phrases that regular expressions find in a text, the
profile the database holds and the scores of one text against another are given. -/
namespace Suixinji.Ask
open Suixinji.Checked
open Suixinji.Ranking
open Memories (MemoryType KeyVersion)

/-- An id as records carry it. -/
structure Identifier where
  text : String
  fits : 1 ≤ text.length ∧ text.length ≤ 128

structure Source where
  noteId : Option String
  createdAt : Option String

/-- A record of a tool: a memory, a version of one or a note, as a dictionary. -/
structure Record where
  id : Option Identifier := none
  memoryId : Option Identifier := none
  noteId : Option Identifier := none
  versionId : Option Identifier := none
  sourceKind : String := ""
  memoryType : Option String := none
  memoryKey : Option String := none
  memoryKeyVersion : Option KeyVersion := none
  content : String := ""
  text : String := ""
  summary : String := ""
  title : String := ""
  evidenceSpan : String := ""
  snippet : String := ""
  subject : Option String := none
  predicate : Option String := none
  objectValue : Option String := none
  canonicalTopic : Option String := none
  task : Option String := none
  instance_ : Option String := none
  description : Option String := none
  taskStatus : Option String := none
  details : List (List (String × String)) := []
  sources : List Source := []
  eventTime : Option String := none
  validFrom : Option String := none
  lastConfirmedAt : Option String := none
  observedAt : Option String := none
  sourceCreatedAt : Option String := none
  updatedAt : Option String := none
  createdAt : Option String := none
  ts : Option String := none

inductive SourceKind where
  | memory
  | memoryVersion
  | note
  deriving DecidableEq

inductive EvidenceRole where
  | currentCandidate
  | historical
  | supporting
  | conflicting
  | rawNote
  deriving DecidableEq

structure TaskCardView where
  subject : Option String
  task : Option String
  instance_ : Option String
  taskStatus : Option String
  description : Option String
  sources : List Source

structure EvidenceItem where
  evidenceId : String
  sourceKind : SourceKind
  memoryType : Option MemoryType
  content : String
  evidenceSpan : Option String
  memoryId : Option String
  versionId : Option String
  noteId : Option String
  sourceNoteIds : List String
  taskCard : Option TaskCardView
  preferenceDetails : List (List (String × String))
  eventTime : Option String
  observedAt : Option String
  recordedAt : Option String
  taskStatus : Option String
  retrievalChannels : List String
  evidenceRole : EvidenceRole

inductive ResolutionStatus where
  | resolved
  | partly
  | conflict
  | notFound
  deriving DecidableEq

inductive ReasonCode where
  | noDirectEvidence
  | directDomainEvidence
  | projectionUncertain
  | unresolvedDependency
  | executorTimeout
  | noteFallback
  | taskEpisodeFallback
  | taskNoteFallback
  deriving DecidableEq

structure UnitResolution where
  status : ResolutionStatus
  value : Option String
  reasonCode : ReasonCode
  selectedEvidenceIds : List String
  conflictingEvidenceIds : List String

structure UnitEvidenceBundle where
  unitId : String
  evidence : List EvidenceItem
  resolution : UnitResolution

/-- The names under which the tools report. -/
inductive Tool where
  | listTaskInventory
  | searchTaskState
  | searchPreferences
  | resolveSemanticFacts
  | resolveSemanticHistoryFallback
  | searchEpisodes
  | getMemoryTimeline
  | searchNotes
  | domainError
  | executorTimeout
  deriving DecidableEq

def Tool.name : Tool → String
  | .listTaskInventory => "list_task_inventory"
  | .searchTaskState => "search_task_state"
  | .searchPreferences => "search_preferences"
  | .resolveSemanticFacts => "resolve_semantic_facts"
  | .resolveSemanticHistoryFallback => "resolve_semantic_history_fallback"
  | .searchEpisodes => "search_episodes"
  | .getMemoryTimeline => "get_memory_timeline"
  | .searchNotes => "search_notes"
  | .domainError => "domain_error"
  | .executorTimeout => "executor_timeout"

/-- `parse_query_constraints`, as far as a selection reads it. -/
structure QueryConstraints where
  terms : List String
  quotedPhrases : List String
  needsMultiEvidence : Bool
  prefersRecentEvidence : Bool

/-- What is given to the executor. -/
structure Library where
  normalizeContent : String → String
  overlapScore : String → String → Rat
  timestamp : String → Option Rat
  /-- The ids of a facet's profile, current and uncertain; none when the reading raises. -/
  profile : Facet → Option (List String × List String)
  constraints : String → QueryConstraints
  recordTerms : Record → List String
  recordText : Record → String
  evidencePerUnit : Int

/-- Python's `a or b` on texts. -/
def orText (a b : String) : String := if a = "" then b else a

def Record.given (first second : Option Identifier) : String := ((first.or second).map (·.text)).getD ""

/-- `item.get("id") or item.get("memory_id") or item.get("note_id") or ""`. -/
def Record.itemId (item : Record) : String := Record.given (item.id.or item.memoryId) item.noteId

/-- `str(item.get("id") or "")`. -/
def Record.ownId (item : Record) : String := Record.given item.id none

/-- `_source_ids`. -/
def sourceIds (item : Record) : List String :=
  ((item.sources.filterMap (·.noteId)).filter (· ≠ "")).eraseDups

def Record.quoted (item : Record) : String := orText item.content (orText item.text (orText item.summary item.title))

def Record.isNote (item : Record) : Bool :=
  item.sourceKind = "note" || item.noteId.isSome ||
    (item.memoryType.getD "" = "" && (item.text ≠ "" || item.summary ≠ "" || item.title ≠ ""))

def Record.isVersion (item : Record) : Bool := item.sourceKind = "memory_version" || item.versionId.isSome

def noneIfEmpty (text : String) : Option String := if text = "" then none else some text

def parseMemoryType : String → Option MemoryType
  | "task" => some .task
  | "preference" => some .preference
  | "semantic" => some .semantic
  | "episodic" => some .episodic
  | _ => none

/-- The literal of `memory_type`. -/
def readMemoryType : Option String → Except ValidationError (Option MemoryType)
  | none => .ok none
  | some text => (demand (parseMemoryType text) ⟨"EvidenceItem","memory_type"⟩).map some

def EvidenceItem.check (item : EvidenceItem) : Except ValidationError Unit := do
  require (1 ≤ item.evidenceId.length ∧ item.evidenceId.length ≤ 128) ⟨"EvidenceItem","evidence_id"⟩
  require (item.content.length ≤ 2400) ⟨"EvidenceItem","content"⟩
  require (∀ span ∈ item.evidenceSpan, span.length ≤ 1200) ⟨"EvidenceItem","evidence_span"⟩
  require (∀ id ∈ item.memoryId, id.length ≤ 128) ⟨"EvidenceItem","memory_id"⟩
  require (∀ id ∈ item.versionId, id.length ≤ 128) ⟨"EvidenceItem","version_id"⟩
  require (∀ id ∈ item.noteId, id.length ≤ 128) ⟨"EvidenceItem","note_id"⟩
  require (item.sourceNoteIds.length ≤ 12) ⟨"EvidenceItem","source_note_ids"⟩
  require (∀ status ∈ item.taskStatus, status.length ≤ 40) ⟨"EvidenceItem","task_status"⟩
  require (item.retrievalChannels.length ≤ 8) ⟨"EvidenceItem","retrieval_channels"⟩

/-- The fields of `_as_evidence` before they are checked. -/
def evidenceOf (item : Record) (memoryType : Option MemoryType) (tool : Tool) (role : EvidenceRole) : EvidenceItem where
  evidenceId := orText item.itemId ("tool:" ++ tool.name)
  sourceKind := if item.isNote then .note else if item.isVersion then .memoryVersion else .memory
  memoryType := memoryType
  content := Text.slice 2400 item.quoted
  evidenceSpan := noneIfEmpty (Text.slice 1200 (orText item.evidenceSpan item.snippet))
  memoryId :=
    if item.isNote then none
    else noneIfEmpty ((item.memoryId.map (·.text)).getD (if item.isVersion then "None" else item.itemId))
  versionId := if item.isVersion then some ((item.versionId.map (·.text)).getD item.itemId) else none
  noteId := if item.isNote then some item.itemId else none
  sourceNoteIds := (sourceIds item).take 12
  taskCard :=
    if item.memoryKeyVersion.any KeyVersion.taskCard then
      some ⟨item.subject,item.task,item.instance_,item.taskStatus,item.description,item.sources⟩
    else none
  preferenceDetails := if item.memoryKeyVersion = some .preferenceCardV1 then item.details else []
  eventTime := item.eventTime.or item.validFrom
  observedAt := item.observedAt.or item.sourceCreatedAt
  recordedAt := item.updatedAt.or item.createdAt
  taskStatus := noneIfEmpty (item.taskStatus.getD "")
  retrievalChannels := [tool.name]
  evidenceRole := role

/-- `_as_evidence`. -/
def asEvidence (tool : Tool) (item : Record) (role : EvidenceRole) : Except ValidationError EvidenceItem := do
  let memoryType ← readMemoryType item.memoryType
  (evidenceOf item memoryType tool role).check
  pure (evidenceOf item memoryType tool role)

/-- Python's `sorted(..., reverse=True)`: equals stay in their order. -/
def descending {α : Type} (lt : α → α → Bool) (items : List α) : List α := items.insertionSort (fun a b => lt a b = false)

section Order

variable (lib : Library)

/-- `_semantic_fact_time`: the first time that is one, none for minus infinity. -/
def Library.factTime (item : Record) : Option Rat :=
  let values := [item.validFrom,item.lastConfirmedAt] ++ item.sources.map (·.createdAt) ++ [item.updatedAt,item.createdAt]
  values.findSome? (fun value => value.bind lib.timestamp)

def Library.relevance (query : String) (item : Record) : Rat :=
  let score := lib.overlapScore query
  max (max (score item.content) (score (item.objectValue.getD "")))
    (max (score (item.predicate.getD "")) (score (item.canonicalTopic.getD "")))

/-- By time, minus infinity first. -/
def Library.earlier (next : Record → Record → Bool) : Record → Record → Bool :=
  byThen (fun item => if (lib.factTime item).isSome then 1 else 0) (byThen (fun item => (lib.factTime item).getD 0) next)

/-- `_semantic_temporal_order`. The latest is told from the others by its place. -/
def Library.temporalOrder (items : List Record) (query : String) : List Record :=
  let relevant := items.zipIdx.filter (fun item => 9/20 ≤ lib.relevance query item.1)
  let candidates := if 2 ≤ relevant.length then relevant else items.zipIdx
  if candidates.length ≤ 1 then items
  else
    match greatest (fun a b => lib.earlier (less Record.ownId) a.1 b.1) candidates with
    | none => items
    | some latest =>
      latest.1::descending (byThen (lib.relevance query) (lib.earlier (less Record.ownId)))
        ((items.zipIdx.filter (fun item => item.2 ≠ latest.2)).map (·.1))

/-- `_semantic_projection_order`: the records, and the ids the profile is uncertain about. -/
def Library.projectionOrder (facet : Option Facet) (items : List Record) (preferCurrent : Bool) (query : String) :
    List Record × List String :=
  let recent := if preferCurrent then lib.temporalOrder items query else items
  match facet.bind lib.profile with
  | none => (recent,[])
  | some (current,uncertain) =>
    if current.isEmpty && uncertain.isEmpty && preferCurrent then (recent,uncertain)
    else
      (descending (byThen (fun item => if item.ownId ∈ current then 1 else 0)
        (byThen (fun item => if item.ownId ∈ uncertain then 0 else 1) (lib.earlier (fun _ _ => false)))) items,uncertain)

/-- `_semantic_record_identity`. -/
def Library.recordIdentity (item : Record) : String :=
  let topic := lib.normalizeContent (item.canonicalTopic.getD "")
  let subject := lib.normalizeContent (item.subject.getD "")
  let predicate := lib.normalizeContent (item.predicate.getD "")
  if topic ≠ "" then "topic:" ++ topic
  else if predicate ≠ "" then "slot:" ++ subject ++ ":" ++ predicate
  else "key:" ++ orText (item.memoryKey.getD "") item.ownId

/-- `_record_timestamp`. -/
def Record.timestamp (item : Record) : String :=
  let texts := [item.updatedAt,item.createdAt,item.sourceCreatedAt,item.observedAt].map (·.getD "")
  texts.foldl (fun latest text => if latest < text then text else latest) (item.ts.getD "")

/-- A record with its score and its terms. -/
structure Scored where
  score : Rat
  item : Record
  terms : List String

/-- `_record_id`. -/
def Record.noteKey (item : Record) : String := Record.given item.id item.noteId

def lastById {α : Type} (items : List Record) (f : Record → α) (item : Record) : Option α :=
  (items.reverse.find? (fun other => other.noteKey = item.noteKey)).map f

def Library.scored (query : String) (records : List Record) : List Scored :=
  let constraints := lib.constraints query
  let queryTerms := constraints.terms.eraseDups
  let frequency := fun term =>
    ((records.map Record.noteKey).eraseDups.filter (fun id =>
      (records.reverse.find? (fun item => item.noteKey = id)).any (fun item => term ∈ lib.recordTerms item))).length
  let share := fun term => (1 : Rat) / max 1 (frequency term)
  let total := (queryTerms.map share).sum
  let totalIdf := if total = 0 then 1 else total
  let times := ((records.map (fun item => (lastById records Record.timestamp item).getD "")).filter (· ≠ "")).eraseDups
  let timeRank := fun time =>
    if time ∈ times then ((times.filter (· < time)).length : Rat) / max 1 (times.length - 1) else 0
  records.zipIdx.map fun (item,index) =>
    let terms := (lastById records lib.recordTerms item).getD []
    let overlap := queryTerms.filter (· ∈ terms)
    let phrases := constraints.quotedPhrases.filter (fun phrase => decide (phrase.toList <:+: (lib.recordText item).toList))
    let coverage := (overlap.length : Rat) / max 1 queryTerms.length
    let rareCoverage := (overlap.map share).sum / totalIdf
    let phraseCoverage := (phrases.length : Rat) / max 1 constraints.quotedPhrases.length
    let rankPrior := 1 / (1 + (1/5 : Rat) * index)
    let freshness := if constraints.prefersRecentEvidence then timeRank ((lastById records Record.timestamp item).getD "") else 0
    { score := 12/25 * rankPrior + 7/25 * coverage + 17/100 * rareCoverage + 1/20 * phraseCoverage + 1/10 * freshness
      item := item
      terms := terms }

/-- `_max_jaccard`. -/
def maxJaccard (terms : List String) (selected : List (List String)) : Rat :=
  if terms.isEmpty then 0
  else
    (selected.map fun other =>
      ((terms.filter (· ∈ other)).eraseDups.length : Rat) / max 1 (terms ++ other).eraseDups.length).foldl max 0

/-- The loop of `select_answer_evidence`: what is left, what is selected, and how many more may be. -/
def selectLoop (penalty : Rat) : Nat → List Scored → List Scored → List Scored
  | 0,_,selected => selected
  | n+1,left,selected =>
    let worth := fun (row : Scored) => row.score - penalty * maxJaccard row.terms (selected.map (·.terms))
    let better := byThen (fun row : Scored × Nat => worth row.1) (less (fun row : Scored × Nat => row.1.item.timestamp))
    match if selected.isEmpty then left.zipIdx.head? else greatest better left.zipIdx with
    | none => selected
    | some choice => selectLoop penalty n (left.eraseIdx choice.2) (selected ++ [choice.1])

/-- `select_answer_evidence`. -/
def Library.selectAnswerEvidence (query : String) (records : List Record) (limit : Nat) : List Record :=
  let multi := (lib.constraints query).needsMultiEvidence
  let ranked := descending (byThen Scored.score (byThen (fun row => row.item.timestamp) (less (fun row => row.item.noteKey))))
    (lib.scored query records)
  let target := max 1 (min limit (if multi then 5 else 3))
  (selectLoop (if multi then 1/10 else 9/50) target ranked []).map (·.item)

end Order

/-- The loop over the evidence records: the role of each, and the identities met so far. -/
def assignRoles (lib : Library) (semanticCurrent historical : Bool) (uncertain : List String) :
    List Record → List String → List (Record × EvidenceRole)
  | [],_ => []
  | item::rest,seen =>
    let identity := lib.recordIdentity item
    let role :=
      if Record.given item.id item.memoryId ∈ uncertain then .conflicting
      else if semanticCurrent && identity ∈ seen then .historical
      else if historical || item.sourceKind = "memory_version" then .historical
      else .currentCandidate
    (item,role)::assignRoles lib semanticCurrent historical uncertain rest (identity::seen)

/-- The records `_resolve` makes evidence of, each in its role. -/
def Library.evidenceRecords (lib : Library) (unit : QueryUnit) (tool : Tool) (records : List Record) : List (Record × EvidenceRole) :=
  let (records,uncertain) :=
    if unit.intent ∈ [Intent.semanticCurrent,.semanticHistory] then
      lib.projectionOrder unit.facet records (unit.intent = .semanticCurrent)
        (" ".intercalate ([unit.question,unit.topic.getD ""].filter (· ≠ "")))
    else (records,[])
  let historical := unit.evidenceMode = .timeline || unit.intent ∈ [Intent.semanticHistory,.episodicHistory,.memoryHistory]
  let limit := if unit.intent ∈ [Intent.taskInventory,.memoryHistory] then 8 else (max 1 lib.evidencePerUnit).toNat
  let records := if tool = .searchNotes then lib.selectAnswerEvidence unit.question records limit else records
  assignRoles lib (unit.intent = .semanticCurrent) historical uncertain (records.take limit) []

def UnitResolution.check (r : UnitResolution) : Except ValidationError Unit := do
  require (∀ value ∈ r.value, value.length ≤ 1000) ⟨"UnitResolution","value"⟩
  require (r.selectedEvidenceIds.length ≤ 8) ⟨"UnitResolution","selected_evidence_ids"⟩
  require (r.conflictingEvidenceIds.length ≤ 8) ⟨"UnitResolution","conflicting_evidence_ids"⟩

def UnitEvidenceBundle.check (b : UnitEvidenceBundle) : Except ValidationError Unit :=
  require (b.evidence.length ≤ 16) ⟨"UnitEvidenceBundle","evidence"⟩

def emptyBundle (unit : QueryUnit) (status : ResolutionStatus) (reason : ReasonCode) : UnitEvidenceBundle :=
  ⟨unit.id,[],⟨status,none,reason,[],[]⟩⟩

/-- The resolution `_resolve` gives to its evidence. -/
def resolutionOf (evidence : List EvidenceItem) (noteLookup : Bool) : UnitResolution :=
  let conflicting := (evidence.filter (fun item => item.evidenceRole = .conflicting)).map (·.evidenceId)
  let status : ResolutionStatus :=
    if !conflicting.isEmpty && evidence.all (fun item => item.evidenceRole ≠ .currentCandidate) then .conflict else .resolved
  { status := status
    value := evidence.head?.map (·.content)
    reasonCode := if status = .conflict then .projectionUncertain else .directDomainEvidence
    selectedEvidenceIds := (evidence.filter (fun item => noteLookup || item.evidenceRole ≠ .conflicting)).map (·.evidenceId)
    conflictingEvidenceIds := conflicting }

/-- `_resolve`. An order or a profile never makes records of none. -/
def Library.resolve (lib : Library) (unit : QueryUnit) (tool : Tool) (records : List Record) : Except ValidationError UnitEvidenceBundle :=
  if records.isEmpty then .ok (emptyBundle unit .notFound .noDirectEvidence)
  else do
    let evidence ← (lib.evidenceRecords unit tool records).mapM (fun item => asEvidence tool item.1 item.2)
    let noteLookup := unit.intent = .noteLookup
    let shown := if noteLookup then evidence.map (fun item => { item with evidenceRole := .rawNote }) else evidence
    (resolutionOf evidence noteLookup).check
    let bundle : UnitEvidenceBundle := ⟨unit.id,shown,resolutionOf evidence noteLookup⟩
    bundle.check
    pure bundle

/-- What a record must keep to become evidence, its ids apart. -/
def Record.Fits (item : Record) : Prop :=
  (∀ text ∈ item.memoryType, (parseMemoryType text).isSome) ∧ ∀ status ∈ item.taskStatus, status.length ≤ 40

/-- What the evidence records of a unit must keep: a first one that can be quoted as
the value, and no more ids on either side than a resolution holds. -/
structure Library.Resolvable (lib : Library) (unit : QueryUnit) (tool : Tool) (records : List Record) : Prop where
  fits : ∀ item ∈ lib.evidenceRecords unit tool records, item.1.Fits
  short : ∀ item ∈ (lib.evidenceRecords unit tool records).head?, item.1.quoted.length ≤ 1000
  selected : ((lib.evidenceRecords unit tool records).filter (fun item => unit.intent = .noteLookup || item.2 ≠ .conflicting)).length ≤ 8
  conflicting : ((lib.evidenceRecords unit tool records).filter (fun item => item.2 = .conflicting)).length ≤ 8

section Evidence

variable {item : Record} {memoryType : Option MemoryType} {tool : Tool} {role : EvidenceRole}

theorem given_length (first second : Option Identifier) : (Record.given first second).length ≤ 128 := by
  cases first with
  | some id => exact id.fits.2
  | none =>
    cases second with
    | some id => exact id.fits.2
    | none => exact Nat.zero_le 128

theorem noneIfEmpty_mem {text other : String} (member : other ∈ noneIfEmpty text) : other = text := by
  unfold noneIfEmpty at member
  split at member
  · cases member
  · exact (Option.mem_some.mp member).symm

theorem evidenceId_fits (item : Record) (tool : Tool) :
    1 ≤ (orText item.itemId ("tool:" ++ tool.name)).length ∧ (orText item.itemId ("tool:" ++ tool.name)).length ≤ 128 := by
  unfold orText
  split
  · cases tool <;> decide
  · next named => exact ⟨Nat.one_le_iff_ne_zero.mpr (by simpa using named),given_length _ _⟩

theorem evidenceOf_check : (evidenceOf item memoryType tool role).check = .ok () ↔ ∀ status ∈ item.taskStatus, status.length ≤ 40 := by
  have span : ∀ span ∈ (evidenceOf item memoryType tool role).evidenceSpan, span.length ≤ 1200 := by
    intro span member
    rw [noneIfEmpty_mem member]
    exact Text.slice_length 1200 _
  have memory : ∀ id ∈ (evidenceOf item memoryType tool role).memoryId, id.length ≤ 128 := by
    intro id member
    simp only [evidenceOf] at member
    split at member
    · cases member
    · rw [noneIfEmpty_mem member]
      cases item.memoryId with
      | some id => exact id.fits.2
      | none =>
        cases item.isVersion with
        | true => exact (by decide : "None".length ≤ 128)
        | false => exact given_length _ _
  have version : ∀ id ∈ (evidenceOf item memoryType tool role).versionId, id.length ≤ 128 := by
    intro id member
    simp only [evidenceOf] at member
    split at member
    · rw [← Option.mem_some.mp member]
      cases item.versionId with
      | some id => exact id.fits.2
      | none => exact given_length _ _
    · cases member
  have note : ∀ id ∈ (evidenceOf item memoryType tool role).noteId, id.length ≤ 128 := by
    intro id member
    simp only [evidenceOf] at member
    split at member
    · rw [← Option.mem_some.mp member]
      exact given_length _ _
    · cases member
  have sources : (evidenceOf item memoryType tool role).sourceNoteIds.length ≤ 12 := List.length_take_le _ _
  have status : (∀ status ∈ (evidenceOf item memoryType tool role).taskStatus, status.length ≤ 40) ↔
      ∀ status ∈ item.taskStatus, status.length ≤ 40 := by
    simp only [evidenceOf]
    cases item.taskStatus with
    | none => simp [noneIfEmpty]
    | some text => by_cases empty : text = "" <;> simp [noneIfEmpty,empty]
  have channels : (evidenceOf item memoryType tool role).retrievalChannels.length ≤ 8 := (by decide : 1 ≤ 8)
  unfold EvidenceItem.check
  simp only [bind_ok,require_ok,exists_const]
  exact ⟨fun checks => status.mp checks.2.2.2.2.2.2.2.1,
    fun short => ⟨evidenceId_fits item tool,Text.slice_length 2400 _,span,memory,version,note,sources,status.mpr short,channels⟩⟩

def evidenceView (tool : Tool) (item : Record × EvidenceRole) : EvidenceItem :=
  evidenceOf item.1 (item.1.memoryType.bind parseMemoryType) tool item.2

theorem readMemoryType_ok {text : Option String} : readMemoryType text = .ok memoryType ↔
    (∀ t ∈ text, (parseMemoryType t).isSome) ∧ memoryType = text.bind parseMemoryType := by
  cases text with
  | none =>
    constructor
    · intro read
      cases read
      exact ⟨by simp,rfl⟩
    · rintro ⟨-,rfl⟩
      rfl
  | some t =>
    cases known : parseMemoryType t with
    | none => simp [readMemoryType,demand,known,Except.map]
    | some kind =>
      simp only [readMemoryType,demand,known,Option.elim_some,Except.map,Except.ok.injEq,Option.bind_some]
      constructor
      · rintro rfl
        exact ⟨by simp [known],rfl⟩
      · rintro ⟨-,rfl⟩
        rfl

theorem asEvidence_ok {made : EvidenceItem} : asEvidence tool item role = .ok made ↔ item.Fits ∧ made = evidenceView tool (item,role) := by
  unfold asEvidence
  constructor
  · intro ran
    obtain ⟨memoryType,read,ran⟩ := bind_ok.mp ran
    obtain ⟨checked,passed,ran⟩ := bind_ok.mp ran
    obtain ⟨known,rfl⟩ := readMemoryType_ok.mp read
    cases ran
    exact ⟨⟨known,evidenceOf_check.mp passed⟩,rfl⟩
  · rintro ⟨⟨known,short⟩,rfl⟩
    rw [readMemoryType_ok.mpr ⟨known,rfl⟩]
    change (do (evidenceOf item _ tool role).check; pure (evidenceOf item _ tool role)) = Except.ok _
    rw [evidenceOf_check.mpr short]
    rfl

end Evidence

section Resolve

variable {lib : Library} {unit : QueryUnit} {tool : Tool} {records : List Record}

theorem evidence_mapM {items : List (Record × EvidenceRole)} (fits : ∀ item ∈ items, item.1.Fits) :
    items.mapM (fun item => asEvidence tool item.1 item.2) = .ok (items.map (evidenceView tool)) :=
  mapM_of_each fun item member => asEvidence_ok.mpr ⟨fits item member,rfl⟩

theorem resolutionOf_check (tool : Tool) (items : List (Record × EvidenceRole)) (noteLookup : Bool) :
    (resolutionOf (items.map (evidenceView tool)) noteLookup).check = .ok () ↔
      (∀ item ∈ items.head?, item.1.quoted.length ≤ 1000) ∧
        (items.filter (fun item => noteLookup || item.2 ≠ .conflicting)).length ≤ 8 ∧
        (items.filter (fun item => item.2 = .conflicting)).length ≤ 8 := by
  have value : (∀ text ∈ (resolutionOf (items.map (evidenceView tool)) noteLookup).value, text.length ≤ 1000) ↔
      ∀ item ∈ items.head?, item.1.quoted.length ≤ 1000 := by
    cases items with
    | nil => simp [resolutionOf]
    | cons item rest =>
      have cut := Text.slice_le (by decide : 1000 < 2400) item.1.quoted
      simp only [resolutionOf,List.map_cons,List.head?_cons,Option.map_some,Option.mem_some_iff,forall_eq']
      exact cut
  have selected : (resolutionOf (items.map (evidenceView tool)) noteLookup).selectedEvidenceIds.length =
      (items.filter (fun item => noteLookup || item.2 ≠ .conflicting)).length := by
    simp only [resolutionOf,List.filter_map,List.length_map]
    rfl
  have conflicting : (resolutionOf (items.map (evidenceView tool)) noteLookup).conflictingEvidenceIds.length =
      (items.filter (fun item => item.2 = .conflicting)).length := by
    simp only [resolutionOf,List.filter_map,List.length_map]
    rfl
  unfold UnitResolution.check
  simp only [bind_ok,require_ok,exists_const,value,selected,conflicting]

theorem evidence_length {items : List (Record × EvidenceRole)} {noteLookup : Bool}
    (selected : (items.filter (fun item => noteLookup || item.2 ≠ .conflicting)).length ≤ 8)
    (conflicting : (items.filter (fun item => item.2 = .conflicting)).length ≤ 8) : items.length ≤ 16 := by
  have split := List.length_eq_length_filter_add (l := items) (fun item => decide (item.2 = .conflicting))
  have others : (items.filter (fun item => !decide (item.2 = .conflicting))).length ≤
      (items.filter (fun item => noteLookup || item.2 ≠ .conflicting)).length := by
    apply List.Sublist.length_le
    apply List.monotone_filter_right
    intro item plain
    simpa using .inr (by simpa using plain)
  omega

theorem resolve_ok (some_records : records ≠ []) : (∃ bundle, lib.resolve unit tool records = .ok bundle) ↔
    lib.Resolvable unit tool records := by
  unfold Library.resolve
  rw [if_neg (by simpa using some_records)]
  constructor
  · rintro ⟨bundle,ran⟩
    obtain ⟨evidence,made,ran⟩ := bind_ok.mp ran
    have fits : ∀ item ∈ lib.evidenceRecords unit tool records, item.1.Fits := by
      intro item member
      obtain ⟨view,-,passed⟩ := (mapM_ok made).1 item member
      exact (asEvidence_ok.mp passed).1
    rw [evidence_mapM fits] at made
    cases made
    obtain ⟨checked,passed,-⟩ := bind_ok.mp ran
    obtain ⟨short,selected,conflicting⟩ := (resolutionOf_check tool _ _).mp passed
    exact ⟨fits,short,selected,conflicting⟩
  · intro fine
    rw [evidence_mapM fine.fits]
    have passed := (resolutionOf_check tool _ _).mpr ⟨fine.short,fine.selected,fine.conflicting⟩
    have small := evidence_length fine.selected fine.conflicting
    refine ⟨_,bind_ok.mpr ⟨_,rfl,bind_ok.mpr ⟨(),passed,bind_ok.mpr ⟨(),require_ok.mpr ?_,rfl⟩⟩⟩⟩
    dsimp only
    split <;> simpa using small

theorem resolve_bundle {bundle : UnitEvidenceBundle} (ran : lib.resolve unit tool records = .ok bundle) :
    bundle.unitId = unit.id ∧ bundle.resolution.status ≠ .partly := by
  unfold Library.resolve at ran
  split at ran
  · cases ran
    exact ⟨rfl,nofun⟩
  · obtain ⟨evidence,-,ran⟩ := bind_ok.mp ran
    obtain ⟨checked,-,ran⟩ := bind_ok.mp ran
    obtain ⟨checked,-,ran⟩ := bind_ok.mp ran
    cases ran
    refine ⟨rfl,?_⟩
    simp only [resolutionOf]
    split
    · decide
    · decide

/-! ### Where evidence comes from -/

theorem mem_descending {α : Type} {lt : α → α → Bool} {items : List α} {a : α} : a ∈ descending lt items ↔ a ∈ items :=
  (List.perm_insertionSort _ _).mem_iff

theorem temporalOrder_subset (items : List Record) (query : String) : lib.temporalOrder items query ⊆ items := by
  intro item member
  unfold Library.temporalOrder at member
  dsimp only at member
  generalize candidates : (if 2 ≤ _ then _ else items.zipIdx) = chosen at member
  split at member
  · exact member
  · split at member
    · exact member
    · rename_i latest found
      have inside : latest ∈ items.zipIdx := by
        have candidate := Ranking.greatest_mem found
        rw [← candidates] at candidate
        split at candidate
        · exact List.mem_of_mem_filter candidate
        · exact candidate
      rcases List.mem_cons.mp member with rfl | member
      · exact List.fst_mem_of_mem_zipIdx inside
      · obtain ⟨other,kept,rfl⟩ := List.mem_map.mp (mem_descending.mp member)
        exact List.fst_mem_of_mem_zipIdx (List.mem_of_mem_filter kept)

theorem projectionOrder_subset (facet : Option Facet) (items : List Record) (preferCurrent : Bool) (query : String) :
    (lib.projectionOrder facet items preferCurrent query).1 ⊆ items := by
  have recent : (if preferCurrent then lib.temporalOrder items query else items) ⊆ items := by
    split
    · exact temporalOrder_subset items query
    · exact List.Subset.refl items
  unfold Library.projectionOrder
  dsimp only
  split
  · exact recent
  · split
    · exact recent
    · exact fun item member => mem_descending.mp member

theorem selectLoop_subset {penalty : Rat} {n : Nat} {left selected : List Scored} :
    selectLoop penalty n left selected ⊆ selected ++ left := by
  induction n generalizing left selected with
  | zero => exact fun row member => List.mem_append_left _ member
  | succ n ih =>
    intro row member
    unfold selectLoop at member
    dsimp only at member
    split at member
    · exact List.mem_append_left _ member
    · rename_i choice found
      have inside : choice ∈ left.zipIdx := by
        split at found
        · exact List.mem_of_mem_head? found
        · exact Ranking.greatest_mem found
      rcases List.mem_append.mp (ih member) with chosen | rest
      · rcases List.mem_append.mp chosen with before | now
        · exact List.mem_append_left _ before
        · rw [List.mem_singleton.mp now]
          exact List.mem_append_right _ (List.fst_mem_of_mem_zipIdx inside)
      · exact List.mem_append_right _ (List.mem_of_mem_eraseIdx rest)

theorem selectAnswerEvidence_subset (query : String) (limit : Nat) : lib.selectAnswerEvidence query records limit ⊆ records := by
  intro item member
  obtain ⟨row,chosen,rfl⟩ := List.mem_map.mp member
  have ranked : row ∈ lib.scored query records := by simpa [mem_descending] using selectLoop_subset chosen
  obtain ⟨place,inside,rfl⟩ := List.mem_map.mp ranked
  exact List.fst_mem_of_mem_zipIdx inside

theorem assignRoles_map {semanticCurrent historical : Bool} {uncertain seen : List String} :
    (assignRoles lib semanticCurrent historical uncertain records seen).map (·.1) = records := by
  induction records generalizing seen with
  | nil => rfl
  | cons item rest ih => exact congrArg (List.cons item) ih

theorem evidenceRecords_subset {item : Record × EvidenceRole} (member : item ∈ lib.evidenceRecords unit tool records) :
    item.1 ∈ records := by
  unfold Library.evidenceRecords at member
  dsimp only at member
  have listed := List.mem_map_of_mem (f := Prod.fst) member
  rw [assignRoles_map] at listed
  have chosen := List.mem_of_mem_take listed
  split at chosen
  · have ordered := selectAnswerEvidence_subset _ _ chosen
    split at ordered
    · exact projectionOrder_subset _ _ _ _ ordered
    · exact ordered
  · split at chosen
    · exact projectionOrder_subset _ _ _ _ chosen
    · exact chosen

theorem resolve_evidence {bundle : UnitEvidenceBundle} (ran : lib.resolve unit tool records = .ok bundle) :
    ∀ e ∈ bundle.evidence, ∃ item ∈ records, ∃ memoryType role, e = evidenceOf item memoryType tool role := by
  unfold Library.resolve at ran
  split at ran
  · cases ran
    exact fun e member => absurd member List.not_mem_nil
  · obtain ⟨evidence,made,ran⟩ := bind_ok.mp ran
    obtain ⟨_,-,ran⟩ := bind_ok.mp ran
    obtain ⟨_,-,ran⟩ := bind_ok.mp ran
    cases ran
    have each : ∀ e ∈ evidence, ∃ item ∈ records, ∃ memoryType role, e = evidenceOf item memoryType tool role := by
      intro e member
      obtain ⟨item,listed,done⟩ := (mapM_ok made).2 e member
      obtain ⟨_,rfl⟩ := asEvidence_ok.mp done
      exact ⟨item.1,evidenceRecords_subset listed,_,_,rfl⟩
    intro e member
    dsimp only at member
    split at member
    · obtain ⟨shown,inside,rfl⟩ := List.mem_map.mp member
      obtain ⟨item,listed,memoryType,role,rfl⟩ := each shown inside
      exact ⟨item,listed,memoryType,.rawNote,rfl⟩
    · exact each e member

end Resolve

end Suixinji.Ask
