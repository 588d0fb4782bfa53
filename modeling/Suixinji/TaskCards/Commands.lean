import Suixinji.Memories.Versions
import Suixinji.Relational.Firsts
import Suixinji.TaskCards.System

/-! The commands that complete listed tasks (memory/task_commands.py), of one message: it is run
again whenever the message comes again, one run at a time, and others write in between. A run is cut
off by a crash or by an exception that it does not catch. -/
namespace Suixinji.TaskCards.Completion
open Relational Checked Memories Transition Firsts

structure Listed extends Item where
  label : String
  deriving DecidableEq

inductive Outcome where
  | already
  | marked
  | refused (reason : String)
  deriving DecidableEq

structure Line where
  item : Listed
  outcome : Outcome
  deriving DecidableEq

/-- The answer of an operation: which numbers have changed, or what became of each item. -/
inductive Report where
  | stale (numbers : List Nat)
  | lines (lines : List Line)
  deriving DecidableEq

def Line.text (named : Bool) (line : Line) : String :=
  let head := if named then line.item.label else s!"任务 {line.item.number}：{line.item.label}"
  match line.outcome with
  | .already => head ++ " — 已是 done，无需重复修改。"
  | .marked => head ++ " — 已标记完成（done）。"
  | .refused reason => s!"任务 {line.item.number}：未完成修改（{reason}），请重新列出任务核对。"

def Report.text (named : Bool) : Report → String
  | .stale numbers => "任务 " ++ "、".intercalate (numbers.map toString) ++ " 已变化或不可操作；本次未修改任何任务。请重新列出任务后再操作。"
  | .lines ls => "\n".intercalate (ls.map (Line.text named))

/-- The exceptions that a run catches: `TaskVersionConflict` and `ValueError`. -/
def caught : Error → Option String
  | .taskVersionConflict text | .valueError text => some text
  | .cardVersionConflict _ | .integrityError | .multipleResultsFound => none

/-- Items of tasks that differ. -/
abbrev Items := {items : List Listed // (items.map (·.id)).Nodup}

/-- `task_list_snapshot`. -/
structure Snapshot where
  id : Nat
  items : Items

/-- What a message selects: numbers of the latest list, or the tasks that its words are resolved to
among those that were read, with the reason of the resolution. -/
inductive Selection where
  | numbered (latest : Option Snapshot) (numbers : List Nat)
  | named (snapshotId : Nat) (records : List Record) (targets : List MemoryId) (reason : String)

/-- `_label`. -/
def label (card : TaskCard) : Option String := do
  let who ← if card.subject = some "用户" then some "" else card.subject.map (· ++ "：")
  return who ++ card.task ++ (if Text.present card.taskInstance then "（" ++ orEmpty card.taskInstance ++ "）" else "")

/-- `by_number`: of two items with one number the later one. -/
def Snapshot.byNumber (snapshot : Snapshot) (n : Nat) : Option Listed := snapshot.items.val.reverse.find? (fun item => item.number = n)

theorem Snapshot.byNumber_some {snapshot : Snapshot} {n : Nat} {item : Listed} (found : snapshot.byNumber n = some item) :
    item.number = n ∧ item ∈ snapshot.items.val := by
  unfold byNumber at found
  exact ⟨by simpa using List.find?_some found,List.mem_reverse.mp (List.mem_of_find?_eq_some found)⟩

theorem Snapshot.picked_distinct {snapshot : Snapshot} {numbers : List Nat} {items : List Listed}
    (picked : (Firsts.firsts (fun n => n) numbers).mapM snapshot.byNumber = some items) : (items.map (·.id)).Nodup := by
  have numbered : items.map (·.number) = (Firsts.firsts (fun n => n) numbers).map (fun n => n) :=
    map_of_mapM_some (fun _ _ found => (byNumber_some found).1) picked
  have once : items.Nodup := by
    apply List.Nodup.of_map (·.number)
    rw [numbered]
    exact firsts_once numbers
  refine once.map_on (fun x left y right same => ?_)
  obtain ⟨_,_,here⟩ := mapM_some picked x left
  obtain ⟨_,_,there⟩ := mapM_some picked y right
  exact List.inj_on_of_nodup_map snapshot.items.property (byNumber_some here).2 (byNumber_some there).2 same

/-- `by_number[n]` for the numbers of the command, each once; a number that is not in the list is answered at once. -/
def Snapshot.pick (snapshot : Snapshot) (numbers : List Nat) : Option Items :=
  match picked : (Firsts.firsts (fun n => n) numbers).mapM snapshot.byNumber with
  | none => none
  | some items => some ⟨items,picked_distinct picked⟩

variable (t : Texts)

/-- The item of a task that a name is resolved to, with its place among them. -/
def namedItem (records : List Record) (target : MemoryId × Nat) : Option Listed := do
  let record ← records.find? (fun r => r.row.id = target.1)
  let label ← label (← project t record)
  return { number := target.2 + 1,id := target.1,version := record.row.currentVersion,label }

theorem namedItem_id {records : List Record} {target : MemoryId × Nat} {item : Listed}
    (named : namedItem t records target = some item) : item.id = target.1 := by
  obtain ⟨record,_,rest⟩ := Option.bind_eq_some_iff.mp named
  obtain ⟨card,_,rest⟩ := Option.bind_eq_some_iff.mp rest
  obtain ⟨text,_,last⟩ := Option.bind_eq_some_iff.mp rest
  cases last
  rfl

theorem named_distinct {records : List Record} {targets : List MemoryId} {items : List Listed}
    (named : (Firsts.firsts (fun id => id) targets).zipIdx.mapM (namedItem t records) = some items) : (items.map (·.id)).Nodup := by
  have chosen := @firsts_once MemoryId MemoryId _ (fun id => id) targets
  rw [List.map_id'] at chosen
  rwa [map_of_mapM_some (fun _ _ => namedItem_id t) named,List.zipIdx_map_fst]

/-- The items of the tasks that the words are resolved to, each task once. -/
def namedItems (records : List Record) (targets : List MemoryId) : Option Items :=
  match named : (Firsts.firsts (fun id => id) targets).zipIdx.mapM (namedItem t records) with
  | none => none
  | some items => some ⟨items,named_distinct t named⟩

/-- Whose command it is, and the note that its writes are under: `"task-command:"` and the id of the operation. -/
structure Session where
  spaceId : SpaceId
  owner : String
  noteId : NoteId

/-- `task_number_operation`. -/
structure Persisted where
  operation : Operation
  items : Items
  report : Option Report := none

/-- `operation.get("answer")` counts as true. -/
def Persisted.answered (p : Persisted) : Bool := p.report.any (fun report => report.text p.operation.named ≠ "")

/-- The operation of a command, as it is persisted before anything is written. -/
def Selection.operation (session : Session) (text createdAt : String) : Selection → Option Persisted
  | .numbered latest numbers => do
    let snapshot ← latest
    let items ← snapshot.pick numbers
    return { operation := { noteId := session.noteId,text,createdAt,snapshotId := snapshot.id },items }
  | .named snapshotId records targets reason => do
    let items ← namedItems t records targets
    let operation : Operation :=
      { noteId := session.noteId,text,createdAt,snapshotId,named := true,resolutionReason := reason }
    return { operation,items }

/-- How far a run is: the rows it has read of the listed tasks, the lines it has written about them
with the tasks that are left, a decision that waits for its transaction or has gone through, or
its answer. -/
inductive Attempt where
  | selecting (read : List (Listed × Option Record)) (left : List Listed)
  | working (told : List Line) (left : List (Listed × Record))
  | ready (told : List Line) (call : CardCall) (item : Listed) (left : List (Listed × Record))
  | written (told : List Line) (item : Listed) (left : List (Listed × Record))
  | answering (report : Report)

/-- `written` are the versions that the command has written. -/
structure World where
  store : Store Scope
  operation : Option Persisted := none
  attempt : Option Attempt := none
  written : List Version := []

/-- The steps of a run, the clock at each of its checks and writes, and what others do meanwhile. -/
inductive Event where
  | start (selection : Selection) (text createdAt : String)
  | read
  | judge (clock : MemoryId → Time)
  | work
  | commit (newId : MemoryId) (now : Time)
  | check
  | answer
  | crash
  | other (command : Command Scope)

/-- The item is not what it was listed as: its row is not allowed, or it is open and has another version. -/
def Session.stale (session : Session) (access : Record → Bool) (now : Time) (item : Listed) : Option Record → Bool
  | none => true
  | some r => !decide (r.allowed session.spaceId session.owner now access) ||
      decide (r.row.taskStatus ≠ some .done ∧ r.row.currentVersion ≠ item.version)

/-- The run goes on to the next task, with what it has to say of the last. -/
def Attempt.after (told : List Line) (item : Listed) (outcome : Outcome) (left : List (Listed × Record)) : Attempt :=
  .working (told ++ [⟨item,outcome⟩]) left

/-- The run after an exception, if it goes on. -/
def Attempt.failed (told : List Line) (item : Listed) (left : List (Listed × Record)) (error : Error) : Option Attempt :=
  (caught error).map (fun reason => .after told item (.refused reason) left)

/-- The row that was read as a card. -/
def readEntry (r : Record) : Option (Entry t) :=
  match projects : project t r with
  | none => none
  | some card => some ⟨r,card,projects⟩

def finished (r : Record) : Option Bool :=
  if r.row.taskStatus ≠ some .done then some false else (project t r).map (fun card => card.taskStatus = some .done)

def World.next (rt : Runtime) (session : Session) (w : World) : Event → Option World
  | .start selection text createdAt =>
    match w.attempt,w.operation with
    | some _,_ => none
    | none,some p => some (if p.answered then w else { w with attempt := some (.selecting [] p.items.val) })
    | none,none => (selection.operation t session text createdAt).map (fun p =>
        { w with operation := some p,attempt := some (.selecting [] p.items.val) })
  | .read =>
    match w.attempt with
    | some (.selecting read (item::left)) =>
      let record := (w.store.memories.find? item.id).map (readRecord w.store)
      some { w with attempt := some (.selecting (read ++ [(item,record)]) left) }
    | _ => none
  | .judge clock =>
    match w.attempt with
    | some (.selecting read []) =>
      let stale := read.filter (fun entry => session.stale rt.access (clock entry.1.id) entry.1 entry.2)
      some { w with attempt := some (if stale = [] then .working [] (read.filterMap (fun entry => entry.2.map (entry.1,·)))
        else .answering (.stale (stale.map (·.1.number)))) }
    | _ => none
  | .work =>
    match w.operation,w.attempt with
    | some _,some (.working told []) => some { w with attempt := some (.answering (.lines told)) }
    | some p,some (.working told ((item,record)::left)) =>
      if record.row.taskStatus = some .done then some { w with attempt := some (.after told item .already left) }
      else some { w with attempt := (readEntry t record).bind (fun e =>
        match completeOne rt.ids session.spaceId p.operation item.number e with
        | .ok call => some (.ready told call item left)
        | .error error => Attempt.failed told item left error) }
    | _,_ => none
  | .commit newId now =>
    match w.attempt with
    | some (.ready told call item left) =>
      let (result,store) := applyMemoryDecision rt.lib (call.apply newId now) w.store
      let written := (store.versions.drop w.store.versions.length).filter (·.sourceNoteId = some session.noteId)
      some { w with
        store,written := w.written ++ written
        attempt := match result with
          | .ok _ => some (.written told item left)
          | .error error => Attempt.failed told item left error }
    | _ => none
  | .check =>
    match w.attempt with
    | some (.written told item left) =>
      let done := (w.store.memories.find? item.id).bind (fun m => finished t (readRecord w.store m))
      some { w with attempt := done.map (fun done =>
        .after told item (if done then .marked else .refused "写入后状态核验失败") left) }
    | _ => none
  | .answer =>
    match w.operation,w.attempt with
    | some p,some (.answering report) => some { w with operation := some { p with report := some report },attempt := none }
    | _,_ => none
  | .crash => some { w with attempt := none }
  -- An id that is drawn is that of no task before it.
  | .other command =>
    if ∃ p ∈ w.operation, ∃ item ∈ p.items.val, command.draws = some item.id then none
    else (execute rt.lib w.store command).toOption.map (fun store => { w with store })

end Suixinji.TaskCards.Completion
