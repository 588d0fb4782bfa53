import Suixinji.Memories.Store

/-! The commands on single memories: the user's and the scheduler's, and the review
of the ones that wait for it (repositories/postgres/memory.py). -/
namespace Suixinji.Memories
open Relational Checked
open Text (contains mentionsAny stripped)

variable {σ : Type}

/-- `infer_task_status`. -/
def inferTaskStatus (text : String) : Option TaskStatus :=
  let has := mentionsAny text
  if has ["取消","不用做","不做了","放弃"] then some .done
  else if has ["这周","本周","下周","明天","之后","计划","准备"] && has ["完成","提交","上线","发布"] then some .todo
  else if has ["卡住","阻塞","等确认","等待","暂停"] then some .todo
  else if has ["正在","进行中","继续"] then some .todo
  else if has ["需要","记得","待办","要做","准备","计划"] then some .todo
  else if has ["完成","搞定","已做完","做完","学完","已学完","弄好","弄好了","提交","上线"] then some .done
  else if contains text "已经" && has ["换成","更换为","改成","替换成","部署","发布"] then some .done
  else if contains text "准备" && has ["最近","现在","重点"] then some .todo
  else none

/-- `text.lstrip(characters)`. -/
def lstrip (characters text : String) : String := String.ofList (text.toList.dropWhile (· ∈ characters.toList))

/-- `text.rstrip(characters)`. -/
def rstrip (characters text : String) : String :=
  String.ofList ((text.toList.reverse.dropWhile (· ∈ characters.toList)).reverse)

/-- `merge_content` of memory/policies/__init__.py. -/
def mergeContent (lib : Library σ) (oldContent newContent : String) : String :=
  let oldNorm := lib.normalizeContent oldContent
  let newNorm := lib.normalizeContent newContent
  if oldNorm = "" then newContent
  else if contains newNorm oldNorm then newContent
  else if contains oldNorm newNorm then oldContent
  else rstrip "。；; " oldContent ++ "；" ++ rstrip "。；; " (lstrip "用户" newContent)

/-- `update_memory`; the columns it does not take are not in `c`. -/
def updateMemory (lib : Library σ) (id : MemoryId) (c : Changes σ) (reason : Option String) (sourceNoteId : Option NoteId)
    (now : Time) (s : Store σ) : Except Error (Store σ) :=
  if (s.memories.find? id).isNone then .ok s
  else do
    let s ← versionedUpdate lib id c reason sourceNoteId now s
    return s.markDirtyId lib id

def softDeleteMemory (lib : Library σ) (id : MemoryId) (now : Time) (s : Store σ) : Except Error (Store σ) :=
  updateMemory lib id { status := some .deleted } (some "user_forget") none now s

def reopenMarkers : List String := ["重新","再次","重做","返工","恢复","再开始","又开始"]

/-- The status a correction leaves; a task status that is not known is `some none`. -/
def correctedStatus (m : Memory σ) (content : String) (taskStatus : Option (Option TaskStatus)) :
    Except Error (Option TaskStatus) := do
  require (taskStatus ≠ some none) (.valueError "invalid task_status")
  if m.memoryType = .task then do
    let resolved := taskStatus.join.map TaskStatus.normalize <|> inferTaskStatus content <|> m.taskStatus
    require (resolved = m.taskStatus ∨ canTransition m.taskStatus resolved) (.valueError "invalid task status transition")
    require (¬(m.taskStatus = some .done ∧ resolved = some .todo) ∨ mentionsAny content reopenMarkers)
      (.valueError "reopening a terminal task requires explicit wording")
    return resolved
  else return none

/-- `correct_memory`. -/
def correctMemory (lib : Library σ) (id : MemoryId) (content : String) (taskStatus : Option (Option TaskStatus))
    (now : Time) (s : Store σ) : Except Error (Store σ) :=
  match s.memories.find? id with
  | none => .ok s
  | some m => do
    let taskStatus ← correctedStatus m content taskStatus
    versionedUpdate lib id { content := some content,status := some .active,taskStatus } (some "user_correct") none now s

def Memory.due (m : Memory σ) (now : Time) : Bool := m.status = .active && m.validUntil.any (· ≤ now)

/-- `expire_due_memories`, on the due rows that its limit and the locks of others leave it. -/
def expireDueMemories (lib : Library σ) (ids : List MemoryId) (now : Time) (s : Store σ) : Except Error (Store σ) := do
  require (ids.Nodup ∧ ∀ id ∈ ids, (s.memories.find? id).any (·.due now)) (.valueError "not due")
  ids.foldlM (fun s id => do
    let m ← demand (s.memories.find? id) .integrityError
    versionedUpdate lib id { status := some .expired,validUntil := m.validUntil } (some "valid_until_reached") none now s) s

inductive Resolution where
  | keep
  | merge (content : String)
  | archive
  deriving DecidableEq

/-- `resolve_memory_conflict`. -/
def resolveMemoryConflict (lib : Library σ) (id : MemoryId) (resolution : Resolution) (now : Time) (s : Store σ) :
    Except Error (Store σ) :=
  if (s.memories.find? id).isNone then .ok s
  else match resolution with
  | .keep => versionedUpdate lib id { status := some .active } (some "user_resolved_conflict_keep") none now s
  | .merge content => do
    require (content ≠ "") (.valueError "merge resolution requires content")
    versionedUpdate lib id { content := some content,status := some .active } (some "user_resolved_conflict_merge") none now s
  | .archive => versionedUpdate lib id { status := some .archived } (some "user_resolved_conflict_archive") none now s

/-- `purge_memory`; the rows that hang on the memory go with it. -/
def purgeMemory (id : MemoryId) (s : Store σ) : Store σ :=
  { s with
    memories := s.memories.filter (·.id ≠ id)
    sources := s.sources.filter (·.memoryId ≠ id)
    versions := s.versions.filter (·.memoryId ≠ id)
    relations := s.relations.filter (fun r => r.sourceMemoryId ≠ id && r.targetMemoryId ≠ id)
    derived := { s.derived with vectors := s.derived.vectors.filter (·.memoryId ≠ id) } }

/-- The command `add_source`. -/
def addSourceCommand (lib : Library σ) (id : MemoryId) (noteId : NoteId) (relation : SourceRelation) (s : Store σ) :
    Store σ :=
  match s.memories.find? id with
  | none => s
  | some m =>
    let (added,s) := addSource id noteId relation s
    if added then s.markDirty lib m else s

/-- The command `insert_memory`. -/
def insertMemoryCommand (lib : Library σ) (id : MemoryId) (spaceId : SpaceId) (c : Candidate σ) (sourceNoteId : NoteId)
    (sourceRelation : SourceRelation) (status : MemoryStatus) (now : Time) (s : Store σ) : Except Error (Store σ) := do
  let s ← insertMemory lib id spaceId c sourceNoteId sourceRelation status now s
  return s.markDirty lib (c.row lib id spaceId status now)

def Store.pending? (s : Store σ) (id : MemoryId) : Option (Memory σ) :=
  (s.memories.find? id).filter (·.status = .pendingReview)

def DecisionRow.reviews (r : DecisionRow) (id : MemoryId) : Bool := r.status = .pendingReview && id ∈ r.resultMemoryIds

def Store.reviewed (s : Store σ) (id : MemoryId) : Option DecisionRow := latest (·.reviews id) s.decisions.rows

def DecisionRow.target (r : DecisionRow) (s : Store σ) : Option (Memory σ) := r.targetMemoryIds.head?.bind s.memories.find?

def addSources (id : MemoryId) (notes : List NoteId) (relation : SourceRelation) (s : Store σ) : Store σ :=
  notes.foldl (fun s noteId => (addSource id noteId relation s).2) s

def approvedMutation (lib : Library σ) (pending target : Memory σ) (isTaskUpdate : Bool) (now : Time) : Changes σ where
  content := some (if isTaskUpdate then pending.content else mergeContent lib target.content pending.content)
  taskStatus := if isTaskUpdate then pending.taskStatus else none
  confidence := some (raised target.confidence pending.confidence)
  importance := if isTaskUpdate then none else some (max target.importance pending.importance)
  lastConfirmedAt := some now

/-- What approving a memory for a mutation of its target writes: `update_task` or `merge`. -/
def approveMutation (lib : Library σ) (pending target : Memory σ) (isTaskUpdate : Bool) (decisionId : DecisionId)
    (sourceNoteId : NoteId) (now : Time) (s : Store σ) : Except Error (Store σ) := do
  let relation := if isTaskUpdate then SourceRelation.updatedBy else .supportedBy
  let s := addSources target.id (s.noteIds pending.id) relation s
  let s ← versionedUpdate lib target.id (approvedMutation lib pending target isTaskUpdate now)
    (some (if isTaskUpdate then "user_approved_update_task" else "user_approved_merge")) (some sourceNoteId) now s
  let s ← versionedUpdate lib pending.id { status := some .archived }
    (some (if isTaskUpdate then "update_task_applied_after_review" else "merge_applied_after_review")) (some sourceNoteId) now s
  return if isTaskUpdate then s else addRelation pending.spaceId target.id pending.id .derivedFrom (some decisionId) s

/-- What approving a memory against its target writes: `supersede` or `conflict`. -/
def approveReplacement (lib : Library σ) (pending target : Memory σ) (supersedes : Bool) (decisionId : DecisionId)
    (sourceNoteId : NoteId) (now : Time) (s : Store σ) : Except Error (Store σ) := do
  let s := (addSource target.id sourceNoteId .contradictedBy s).2
  let s ← versionedUpdate lib target.id {
      status := some (if supersedes then .superseded else .conflicted)
      validUntil := if supersedes then some now else none }
    (some (if supersedes then "user_approved_supersede" else "user_approved_conflict")) (some sourceNoteId) now s
  let s ← versionedUpdate lib pending.id {
      status := some (if supersedes then .active else .conflicted)
      lastConfirmedAt := some now }
    (some "user_approved_pending_memory") (some sourceNoteId) now s
  let s := addRelation pending.spaceId pending.id target.id (if supersedes then .supersedes else .conflictsWith)
    (some decisionId) s
  return addRelation pending.spaceId target.id pending.id (if supersedes then .supersededBy else .conflictsWith)
    (some decisionId) s

/-- The action, the ids and the rows that an approval comes to. -/
def approveRelation (lib : Library σ) (pending : Memory σ) (decision : DecisionRow) (now : Time) (s : Store σ) :
    Except Error (DecisionAction × List MemoryId × Store σ) := do
  let sourceNoteId := (s.noteIds pending.id).head?.getD decision.noteId
  match decision.relation,decision.target s with
  | .new,_ => do
    let s ← versionedUpdate lib pending.id { status := some .active,lastConfirmedAt := some now }
      (some "user_approved_pending_memory") (some sourceNoteId) now s
    return (.insert,[pending.id],s)
  | .merge,some t => do
    return (.merge,[t.id,pending.id],← approveMutation lib pending t false decision.id sourceNoteId now s)
  | .updateTask,some t => do
    return (.updateTask,[t.id,pending.id],← approveMutation lib pending t true decision.id sourceNoteId now s)
  | .supersede,some t => do
    return (.supersede,[pending.id,t.id],← approveReplacement lib pending t true decision.id sourceNoteId now s)
  | .conflict,some t => do
    return (.conflict,[pending.id,t.id],← approveReplacement lib pending t false decision.id sourceNoteId now s)
  | relation,_ => .error (.valueError s!"unsupported pending review relation: {relation.value}")

def DecisionRow.approved (r : DecisionRow) (recommendedAction : DecisionAction) (resultMemoryIds : List MemoryId)
    (now : Time) : DecisionRow :=
  { r with
    status := .applied,recommendedAction,resultMemoryIds,reason := r.reason ++ "; user_approved",appliedAt := some now }

/-- `approve_pending_memory`, and the id of the memory it returns. -/
def approvePendingMemory (lib : Library σ) (id : MemoryId) (now : Time) (s : Store σ) :
    Except Error (Option MemoryId × Store σ) :=
  match s.pending? id,s.reviewed id with
  | some pending,some decision => do
    let (action,ids,s) ← approveRelation lib pending decision now s
    return (ids.head?,{ s with decisions := s.decisions.put (decision.approved action ids now) })
  | _,_ => .ok (none,s)

/-- `reject_pending_memory`. -/
def rejectPendingMemory (lib : Library σ) (id : MemoryId) (now : Time) (s : Store σ) : Except Error (Store σ) :=
  if (s.pending? id).isNone then .ok s
  else do
    let reason := "user_rejected_pending_memory"
    let archived ← versionedUpdate lib id { status := some .archived } (some reason) none now s
    match s.reviewed id with
    | none => return archived
    | some decision =>
      let candidates := ((archived.candidates.find? decision.candidateId).map (fun c =>
        archived.candidates.put { c with discarded := true,lastError := some reason })).getD archived.candidates
      return { archived with
        decisions := archived.decisions.put { decision with status := .rejected,error := some reason },candidates }

def DecisionRow.revalidated (r : DecisionRow) (next : Option TaskStatus) (s : Store σ) : DecisionRow :=
  match next,r.target s with
  | some next,some t =>
    if t.taskStatus = some next ∨ canTransition t.taskStatus (some next) then
      { r with
        relation := .updateTask
        recommendedAction := .updateTask
        reason := "user_edited_pending_memory_revalidated"
        targetSnapshotVersion := some t.currentVersion }
    else r
  | _,_ => r

/-- The first transaction of `edit_pending_memory`; whether the approval follows. -/
def editPendingMemory (lib : Library σ) (id : MemoryId) (content : String) (now : Time) (s : Store σ) :
    Except Error (Bool × Store σ) :=
  match (s.pending? id).filter (fun _ => stripped content ≠ "") with
  | none => .ok (false,s)
  | some m => do
    let next := if m.memoryType = .task then inferTaskStatus content else none
    let taskStatus := if m.memoryType = .task then (next <|> m.taskStatus).map TaskStatus.normalize else none
    let edited ← versionedUpdate lib id { content := some content,status := some .pendingReview,taskStatus }
      (some "user_edited_pending_memory") none now s
    let reviews := edited.decisions.rows.filter (·.reviews id)
    let found := edited.candidates.rows.filter (fun c => reviews.any (·.candidateId = c.candidateId))
    require (found.length ≤ 1) .multipleResultsFound
    let candidates := match found.head?,next with
      | some c,some next => edited.candidates.put { c with content,taskStatus := some next.normalize }
      | _,_ => edited.candidates
    let decisions := match edited.reviewed id with
      | some decision => edited.decisions.put (decision.revalidated next edited)
      | none => edited.decisions
    return (true,{ edited with candidates,decisions })

end Suixinji.Memories
