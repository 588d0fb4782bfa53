import Suixinji.Memories.System
import Suixinji.Preferences.Review

/-! Preference cards as a system: messages, requests to forget, reviews and the commands on
single memories, each read and each transaction a step of its own, in any order
(memory/preference_cards.py, memory/preference_consolidation.py, memory/preference_commit.py).
The rows of the store are those of the cards; an id of an operation is read as a number. -/
namespace Suixinji.Preferences
open Relational Checked Memories
open Text (contains)

inductive OperationKey where
  | message (spaceId : SpaceId) (source : SourceId) (detail : DetailInput)
  | forget (noteId : NoteId) (text : String) (chosen : List DetailId)
  | forgetLinked (noteId : NoteId) (memoryId : MemoryId)
  | consolidate (memoryId : MemoryId) (version : Nat)
  deriving DecidableEq

structure Ids where
  operation : OperationKey → CandidateId
  decision : SpaceId → CandidateId → DecisionId

/-- What the code of the cards is run with. -/
structure Runtime where
  lib : Library Scope
  t : Texts
  dump : Action → String
  settings : Settings
  ids : Ids

/-- The forgotten sources of each space (`forgotten_source`). -/
abbrev ForgottenSources := Table (fun f : SpaceId × Source => (f.1,f.2.id))

structure State where
  store : Store Scope
  forgotten : ForgottenSources

/-- The subject and object of a card, and whose it is. -/
structure Wanted where
  spaceId : SpaceId
  subject : String
  preferenceObject : String
  ownerId : String
  deriving DecidableEq

def Wanted.key (t : Texts) (w : Wanted) : String := t.cardKey w.subject w.preferenceObject w.ownerId

/-- The row of the key, as `find_card` reads it first. -/
def firstCard (t : Texts) (w : Wanted) (s : Store Scope) : Except Error (Option Row) :=
  match s.memories.rows.filter (fun m => m.spaceId = w.spaceId && m.memoryType = .preference && m.memoryKey = some (w.key t)) with
  | [] => .ok none
  | [m] => .ok (some m)
  | _ => .error (.valueError "存在多个同身份卡片，需要先整理重复记录")

/-- One turn of the loop of `find_card`, at a record that is merged into the next. -/
def follow (w : Wanted) (seen : List MemoryId) (record : Row) (next : MemoryId) (s : Store Scope) : Except Error (Option Row) := do
  require (record.id ∉ seen) (.valueError "偏好卡片归并引用形成循环")
  match s.memories.find? next with
  | none => return none
  | some row => do
    require (row.spaceId = w.spaceId ∧ row.subject = some w.subject ∧ row.scope.ownerId = w.ownerId)
      (.valueError "偏好归并引用超出账号范围")
    return some row

/-- The loop of `find_card`; the number is of the turns it may take. -/
def walk (w : Wanted) (s : Store Scope) : Nat → List MemoryId → Option Row → Except Error (Option Row)
  | _,_,none => .ok none
  | turns,seen,some record =>
    match record.scope.card.mergedInto,turns with
    | none,_ => .ok (some record)
    | some _,0 => .error (.valueError "偏好卡片归并引用形成循环")
    | some next,turns + 1 => do walk w s turns (record.id::seen) (← follow w seen record next s)

/-- `find_card`, read in one go. -/
def findCard (t : Texts) (w : Wanted) (s : Store Scope) : Except Error (Option Row) := do
  walk w s s.memories.rows.length [] (← firstCard t w s)

/-- What `_persist` is given. -/
structure Write where
  spaceId : SpaceId
  card : Card
  current : Option Row
  noteId : NoteId
  operation : OperationKey
  reason : String

def Write.scope (w : Write) (card : Card) : Scope where
  card
  canonicalTopic := card.preferenceObject
  ownerId := card.ownerId
  subjectId := if card.subject = "用户" then some ("user:" ++ card.ownerId) else w.current.bind (fun row => row.scope.subjectId)

/-- `_persist`, up to its transaction. -/
def Write.call (rt : Runtime) (w : Write) (newId : MemoryId) (now : Time) : ApplyCall Scope :=
  let card := w.card.projected rt.t
  let candidateId := rt.ids.operation w.operation
  { spaceId := w.spaceId
    noteId := w.noteId
    candidate := {
      candidateId,memoryType := .preference,content := card.content,importance := 4/5,confidence := 19/20
      subject := some card.subject,predicate := some "preference",objectValue := some card.preferenceObject
      polarity := some card.polarity,memoryKey := some (rt.t.cardKey card.subject card.preferenceObject card.ownerId)
      memoryKeyVersion := .preferenceCardV1,scope := w.scope card,writable := Memories.none_writable }
    decision := {
      decisionId := rt.ids.decision w.spaceId candidateId,candidateId
      relation := if w.current.isSome then .update else .new
      recommendedAction := if w.current.isSome then .update else .insert
      targetMemoryIds := (w.current.map Memory.id).toList
      confidence := 19/20,reason := w.reason
      targetSnapshotVersion := w.current.map Memory.currentVersion }
    newId
    now }

def Card.noteIds (card : Card) : List NoteId :=
  (((card.details.filter (fun d => d.status = .active || d.status = .history)).flatMap Detail.sources).map
    Source.noteId).dedup.insertionSort (· ≤ ·)

/-- The columns that `commit` writes of a draft. -/
def Draft.changes (t : Texts) (d : Draft) : Changes Scope :=
  let card := d.card.projected t
  { content := some card.content
    scope := some { d.row.scope with card }
    polarity := some card.polarity
    status := some (if card.mergedInto.isSome then .archived else d.row.status) }

/-- One card of `commit`; one that is as it was is left alone. -/
def Draft.write (rt : Runtime) (root : MemoryId) (now : Time) (s : Store Scope) (d : Draft) : Except Error (Store Scope) :=
  if d.row.id ≠ root ∧ d.card = d.row.scope.card then .ok s
  else versionedUpdate rt.lib d.row.id (d.changes rt.t) (some "preference_evidence_consolidation") none now
    (addSources d.row.id d.card.noteIds .supportedBy s) d.card.noteIds

/-- `commit`. Whether the notes are as they were read is an input. -/
def commit (rt : Runtime) (c : Consolidation) (intact : Bool) (now : Time) (s : State) : Except Error (Store Scope) := do
  let spaceId := c.root.spaceId
  let drafts ← c.drafts rt.t rt.dump rt.settings.limit now
  require (∀ d ∈ drafts, (s.store.memories.find? d.row.id).any (fun m =>
      m.spaceId = spaceId && m.currentVersion = d.row.currentVersion)) (.cardVersionConflict "整理期间卡片发生变化，等待重试")
  require (intact = true) (.cardVersionConflict "整理期间原文被修改或删除")
  require (∀ e ∈ c.available, (s.forgotten.find? (spaceId,e.source.id)).isNone) (.cardVersionConflict "整理期间来源被遗忘")
  require (∀ f ∈ s.forgotten, f.1 = spaceId → ∀ e ∈ c.available,
      ¬(e.source.noteId = f.2.noteId ∧ contains e.noteText f.2.originalText)) (.cardVersionConflict "整理上下文含有已遗忘的原文")
  drafts.rows.foldlM (Draft.write rt c.root.id now) s.store

/-- What is to be written, on what was read for it. -/
inductive Job where
  | message (m : Message) (tries : Nat) (current : Option Row) (answer : CardPlan) (relations : List CardRelation)
  | forget (f : Forgetting) (current : Option Row)
  | spread (f : Spreading) (row : Row)
  | tidy (row : Row) (relations : Option (List CardRelation))
  | consolidate (c : Consolidation)

def Job.write (rt : Runtime) (now : Time) : Job → Except Error (Option Write)
  | .message m _ current answer relations => do
    match ← integrate rt.t rt.settings m current answer relations with
    | .writes card action => return some {
        spaceId := m.note.spaceId,card,current,noteId := m.note.id
        operation := .message m.note.spaceId m.source.id m.detail,reason := "card:" ++ action.text }
    | _ => return none
  | .forget f (some row) => do
    let chosen ← f.chosen rt.t row.scope.card
    return if chosen = [] then none else some {
      spaceId := f.note.spaceId,card := (row.scope.card.forget rt.t chosen).1,current := some row,noteId := f.note.id
      operation := .forget f.note.id f.note.text (chosen.map Detail.id),reason := "user_requested_forget" }
  | .spread f row => return (f.spread row.scope.card).map (fun card => {
      spaceId := row.spaceId,card,current := some row,noteId := f.note.id
      operation := .forgetLinked f.note.id row.id,reason := "forgotten_linked_source" })
  | .tidy row relations => do
    let card ← tidied rt.t row.scope.card relations now
    return (card.details.flatMap Detail.sources).head?.map (fun source => {
      spaceId := row.spaceId,card,current := some row,noteId := source.noteId
      operation := .consolidate row.id row.currentVersion,reason := "preference_consolidation" })
  | .forget _ none | .consolidate _ => return none

/-- What a transaction draws and finds: the id of a new memory, whether the notes of the
evidence are as they were, and the time. -/
structure Draw where
  newId : MemoryId
  intact : Bool := true
  now : Time
  deriving DecidableEq

/-- The transaction of a job: whether a card was written, and the state it leaves. -/
def Job.commit (rt : Runtime) (draw : Draw) (s : State) : Job → Except Error Bool × State
  | .consolidate c =>
    match Preferences.commit rt c draw.intact draw.now s with
    | .error e => (.error e,s)
    | .ok store => (.ok true,{ s with store })
  | job =>
    match job.write rt draw.now with
    | .error e => (.error e,s)
    | .ok none => (.ok false,s)
    | .ok (some w) =>
      let (r,store) := applyMemoryDecision rt.lib (w.call rt draw.newId draw.now) s.store
      (r.map (fun _ => true),{ s with store })

def Message.wanted (m : Message) : Wanted where
  spaceId := m.note.spaceId
  subject := m.detail.subject
  preferenceObject := m.detail.preferenceObject
  ownerId := m.note.owner

def Forgetting.wanted (f : Forgetting) : Wanted where
  spaceId := f.note.spaceId
  subject := f.detail.subject
  preferenceObject := f.detail.preferenceObject
  ownerId := f.note.owner

/-- `run_consolidation` works on the card. -/
def open? (m : Row) : Bool := m.status = .active && m.scope.card.mergedInto.isNone

/-- `retrieval` selects the card for the review of another. -/
def candidate (root m : Row) : Bool :=
  m.spaceId = root.spaceId && m.status = .active && !m.scope.card.activeDetails.isEmpty &&
    m.subject = root.subject && m.scope.card.ownerId = root.scope.card.ownerId

/-- The commands on single memories that the runs have. Approving, updating and purging can meet a card too
and are left out: cards that are merged into one that is purged lead nowhere. -/
def plain : Command Scope → Bool
  | .addSource .. | .correct .. | .softDelete .. | .expire .. | .resolve .. | .reject .. | .edit .. => true
  | _ => false

inductive Operation where
  | message (m : Message) (answer : CardPlan) (relations : List CardRelation)
  | forget (f : Forgetting)
  | spread (f : Spreading) (id : MemoryId)
  | tidy (id : MemoryId) (relations : Option (List CardRelation))
  | consolidate (id : MemoryId) (records : List MemoryId) (available : Available) (unreadable : List SourceId)
      (review : Preferences.Review) (reread : List MemoryId)

def Operation.read (rt : Runtime) (s : State) : Operation → Except Error Job
  | .message m answer relations => do return .message m 0 (← findCard rt.t m.wanted s.store) answer relations
  | .forget f => do return .forget f (← findCard rt.t f.wanted s.store)
  | .spread f id => do
    let row ← demand (s.store.memories.find? id) (.valueError "card")
    require (∀ source ∈ f.ids, (s.forgotten.find? (row.spaceId,source)).isSome) (.valueError "source")
    return .spread f row
  | .tidy id relations => do
    return .tidy (← demand ((s.store.memories.find? id).filter open?) (.valueError "card")) relations
  | .consolidate id records available unreadable review reread => do
    let root ← demand ((s.store.memories.find? id).filter open?) (.valueError "card")
    let look := fun (p : Row → Bool) (ids : List MemoryId) =>
      (.empty : Records).insertNew ((ids.filterMap s.store.memories.find?).filter p)
    return .consolidate {
      root,records := look (candidate root) records,available,unreadable,review,reread := look (·.spaceId = root.spaceId) reread }

/-- A transaction on the cards: a whole operation, sources that are recorded as forgotten, or
a command on a single memory. -/
inductive Transaction where
  | operate (op : Operation) (draw : Draw)
  | record (spaceId : SpaceId) (sources : List Source)
  | command (c : Command Scope)

def record (spaceId : SpaceId) (sources : List Source) (forgotten : ForgottenSources) : ForgottenSources :=
  sources.foldl (fun forgotten source => forgotten.upsert (spaceId,source)) forgotten

def Whole (rt : Runtime) (s : State) (transaction : Transaction) (s' : State) : Prop :=
  match transaction with
  | .operate op draw => ∃ job, op.read rt s = .ok job ∧ (job.commit rt draw s).2 = s'
  | .record spaceId sources => s' = { s with forgotten := record spaceId sources s.forgotten }
  | .command c => plain c ∧ ∃ store, execute rt.lib s.store c = .ok store ∧ s' = { s with store }

/-- A request that looks for its card. -/
inductive Request where
  | message (m : Message) (tries : Nat)
  | forget (f : Forgetting)

def Request.wanted : Request → Wanted
  | .message m _ => m.wanted
  | .forget f => f.wanted

/-- What is in progress: a request that looks for its card, has come to a merged one, or has
found the one to work on; a review that reads what it needs; a job that waits for its
transaction; a request whose sources are to be recorded, or that goes from card to card. -/
inductive Flight where
  | searching (r : Request)
  | following (r : Request) (seen : List MemoryId) (record : Row) (next : MemoryId)
  | found (r : Request) (current : Option Row)
  | gathering (c : Consolidation)
  | ready (job : Job)
  | recording (f : Spreading) (spaceId : SpaceId) (sources : List Source)
  | spreading (f : Spreading) (spaceId : SpaceId)

structure World where
  state : State
  flights : List Flight := []

inductive Event where
  | message (m : Message)
  | forget (f : Forgetting)
  | search (i : Nat)
  | follow (i : Nat)
  | decide (i : Nat) (answer : CardPlan) (relations : List CardRelation)
  | tidy (id : MemoryId) (relations : Option (List CardRelation))
  | consolidate (id : MemoryId)
  | retrieve (i : Nat) (id : MemoryId)
  | review (i : Nat) (available : Available) (unreadable : List SourceId) (review : Preferences.Review)
  | reread (i : Nat) (id : MemoryId)
  | commit (i : Nat) (draw : Draw)
  | record (i : Nat)
  | spread (i : Nat) (id : MemoryId)
  | command (c : Command Scope)
  | drop (i : Nat)

/-- Where the loop of `find_card` goes on with what it read. -/
def arrive (r : Request) (seen : List MemoryId) (record : Option Row) : Flight :=
  match record with
  | none => .found r none
  | some record =>
    match record.scope.card.mergedInto with
    | none => .found r (some record)
    | some next => .following r seen record next

/-- The read that a request does next, when it looks for its card. -/
def Flight.lookup (t : Texts) (s : Store Scope) : Flight → Option (Except Error (Option Row))
  | .searching r => some (firstCard t r.wanted s)
  | .following r seen record next => some (Preferences.follow r.wanted seen record next s)
  | _ => none

/-- What comes of the flight after its transaction. -/
def Job.next (t : Texts) (r : Except Error Bool) : Job → List Flight
  | .message m tries _ _ _ =>
    match r,tries with
    | .error (.cardVersionConflict _),n + 2 => [.searching (.message m (n + 1))]
    | _,_ => []
  | .forget f (some row) =>
    match r,f.chosen t row.scope.card with
    | .ok true,.ok chosen =>
      let (card,sources) := row.scope.card.forget t chosen
      let rest : Spreading := {
        note := f.note,root := row.id,emptied := card.activeDetails.isEmpty,ids := sources.map Source.id }
      [.recording rest f.note.spaceId sources]
    | _,_ => []
  | .spread f row =>
    match r with
    | .ok _ => [.spreading f row.spaceId]
    | .error _ => []
  | .forget _ none | .tidy .. | .consolidate _ => []

/-- The flight `i` becomes what is given. -/
def World.replaced (w : World) (i : Nat) (flights : List Flight) (state : State) : World :=
  ⟨state,w.flights.take i ++ flights ++ w.flights.drop (i + 1)⟩

def World.next (rt : Runtime) (w : World) : Event → Option World
  | .message m =>
    if (w.state.forgotten.find? (m.note.spaceId,m.source.id)).isSome then none
    else some { w with flights := w.flights ++ [.searching (.message m 3)] }
  | .forget f => some { w with flights := w.flights ++ [.searching (.forget f)] }
  | .search i =>
    match w.flights[i]? with
    | some (.searching r) =>
      match firstCard rt.t r.wanted w.state.store with
      | .ok row => some (w.replaced i [arrive r [] row] w.state)
      | .error _ => some (w.replaced i [] w.state)
    | _ => none
  | .follow i =>
    match w.flights[i]? with
    | some (.following r seen record next) =>
      match follow r.wanted seen record next w.state.store with
      | .ok row => some (w.replaced i [arrive r (record.id::seen) row] w.state)
      | .error _ => some (w.replaced i [] w.state)
    | _ => none
  | .decide i answer relations =>
    match w.flights[i]? with
    | some (.found (.message m tries) current) => some (w.replaced i [.ready (.message m tries current answer relations)] w.state)
    | some (.found (.forget f) current) => some (w.replaced i [.ready (.forget f current)] w.state)
    | _ => none
  | .tidy id relations =>
    ((w.state.store.memories.find? id).filter open?).map (fun row =>
      { w with flights := w.flights ++ [.ready (.tidy row relations)] })
  | .consolidate id =>
    ((w.state.store.memories.find? id).filter open?).map (fun root =>
      { w with flights := w.flights ++ [.gathering { root }] })
  | .retrieve i id =>
    match w.flights[i]?,w.state.store.memories.find? id with
    | some (.gathering c),some row =>
      if candidate c.root row then some (w.replaced i [.gathering { c with records := c.records.upsert row }] w.state) else none
    | _,_ => none
  | .review i available unreadable review =>
    match w.flights[i]? with
    | some (.gathering c) => some (w.replaced i [.ready (.consolidate { c with available,unreadable,review })] w.state)
    | _ => none
  | .reread i id =>
    match w.flights[i]?,w.state.store.memories.find? id with
    | some (.ready (.consolidate c)),some row =>
      if row.spaceId = c.root.spaceId ∧ c.review.merges then
        (c.reread.insert row).map (fun reread => w.replaced i [.ready (.consolidate { c with reread })] w.state)
      else none
    | _,_ => none
  | .commit i draw =>
    match w.flights[i]? with
    | some (.ready job) =>
      let (r,state) := job.commit rt draw w.state
      some (w.replaced i (job.next rt.t r) state)
    | _ => none
  | .record i =>
    match w.flights[i]? with
    | some (.recording f spaceId sources) =>
      let forgotten := Preferences.record spaceId sources w.state.forgotten
      some (w.replaced i [.spreading f spaceId] { w.state with forgotten })
    | _ => none
  | .spread i id =>
    match w.flights[i]?,w.state.store.memories.find? id with
    | some (.spreading f spaceId),some row =>
      if row.spaceId = spaceId ∧ id ≠ f.root ∧ (f.spread row.scope.card).isSome then
        some (w.replaced i [.ready (.spread f row)] w.state) else none
    | _,_ => none
  | .command c =>
    if plain c then (execute rt.lib w.state.store c).toOption.map (fun store => { w with state := { w.state with store } }) else none
  | .drop i => if i < w.flights.length then some (w.replaced i [] w.state) else none

abbrev World.Step (rt : Runtime) (w : World) (e : Event) (w' : World) : Prop := w.next rt e = some w'

/-- A card that a review has read, and reads once more for its links, has not changed since. -/
def Steady (w : World) : Event → Prop
  | .reread i id => ∀ c, w.flights[i]? = some (.ready (.consolidate c)) → id ≠ c.root.id →
      ∀ row ∈ c.records, row.id = id → w.state.store.memories.find? id = some row
  | _ => True

/-- The functions on texts for words in lower case, and ids that differ where what they are made
from does. -/
def Runtime.plain : Runtime where
  lib := .plain Scope
  t := {
    stableId := "|".intercalate
    casefold := id
    lower := id
    isWord := fun _ => false
    fromisoformat := fun _ => none
    timestamp := fun _ => none }
  dump := Action.reason
  settings := { rules := false,limit := 20 }
  ids := {
    operation := fun
      | .message _ (.message noteId _ _) _ | .message _ (.context _ noteId _) _ => 4 * noteId
      | .forget noteId _ _ => 4 * noteId + 1
      | .forgetLinked noteId memoryId => 4 * (1000 * noteId + memoryId) + 2
      | .consolidate memoryId version => 4 * (1000 * memoryId + version) + 3
    decision := fun _ candidateId => candidateId }

def World.empty : World := ⟨⟨.empty Scope,.empty⟩,[]⟩

def World.after (w : World) (es : List Event) : World := (es.foldlM (World.next .plain) w).getD w

end Suixinji.Preferences
