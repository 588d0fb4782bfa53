import Suixinji.Relational.Transition
import Suixinji.TaskCards.Apply

/-! Task cards as a system: messages that are applied and tasks that are completed, each
read and each transaction a step of its own, in any order. -/
namespace Suixinji.TaskCards
open Relational Checked Memories

/-- What the code of the cards is run with. -/
structure Runtime where
  lib : Library Scope
  ids : Ids
  access : Record → Bool

/-- An item of a list of tasks, as it was shown. -/
structure Item where
  number : Nat
  id : MemoryId
  version : Nat
  deriving DecidableEq

/-- What is in progress: an attempt that reads the cards of its owner, with the attempts
it has; a completion that has read its card; or a decision that waits for its transaction. -/
inductive Flight (t : Texts) where
  | reading (p : Prepared) (tries : Nat) (seen : List (Entry t))
  | chosen (spaceId : SpaceId) (op : Operation) (number : Nat) (e : Entry t)
  | ready (value : TaskInput) (call : CardCall) (again : Option (Prepared × Nat))

structure World (t : Texts) where
  store : Store Scope
  flights : List (Flight t) := []

/-- The steps. The ranking is that of `recall`, and the answer is the plan the model gives. -/
inductive Event where
  | start (note : Note) (candidateId : CandidateId) (row : Except String TaskInput)
  | look (i : Nat) (id : MemoryId) (now : Time)
  | decide (i : Nat) (ranking : List MemoryId) (answer : TaskPlan)
  | choose (spaceId : SpaceId) (owner : String) (op : Operation) (item : Item) (now : Time)
  | complete (i : Nat)
  | commit (i : Nat) (newId : MemoryId) (now : Time)
  | drop (i : Nat)

variable {t : Texts}

/-- `get_memory` of a row that can be read as a card. -/
def lookUp (t : Texts) (s : Store Scope) (id : MemoryId) : Option (Entry t) :=
  (s.memories.find? id).bind (fun m =>
    match projects : project t (readRecord s m) with
    | none => none
    | some card => some ⟨readRecord s m,card,projects⟩)

/-- The attempt after a decision of it was refused, if there is one left. -/
def retried (again : Option (Prepared × Nat)) (r : Except Error Result) : List (Flight t) :=
  match r,again with
  | .error (.taskVersionConflict _),some (p,n + 2) => [.reading p (n + 1) []]
  | _,_ => []

/-- The flight `i` becomes what is given. -/
def World.replaced (w : World t) (i : Nat) (flights : List (Flight t)) (store : Store Scope) : World t :=
  ⟨store,w.flights.take i ++ flights ++ w.flights.drop (i + 1)⟩

def World.next (rt : Runtime) (w : World t) : Event → Option (World t)
  | .start note candidateId row =>
    (begin t note candidateId row).toOption.map (fun p => { w with flights := w.flights ++ [.reading p 3 []] })
  | .look i id now =>
    match w.flights[i]?,lookUp t w.store id with
    | some (.reading p n seen),some e =>
      if e.record.listed p.note.spaceId p.note.owner now then some (w.replaced i [.reading p n (seen ++ [e])] w.store) else none
    | _,_ => none
  | .decide i ranking answer =>
    match w.flights[i]? with
    | some (.reading p n seen) =>
      match attempt rt.ids p (selected seen ranking) answer with
      | .ok (.decided call) => some (w.replaced i [.ready p.value call (some (p,n))] w.store)
      | _ => some (w.replaced i [] w.store)
    | _ => none
  | .choose spaceId owner op item now =>
    (lookUp t w.store item.id).bind (fun e =>
      if e.record.allowed spaceId owner now rt.access ∧ e.record.row.currentVersion = item.version ∧
          e.record.row.taskStatus ≠ some .done then
        some { w with flights := w.flights ++ [.chosen spaceId op item.number e] } else none)
  | .complete i =>
    match w.flights[i]? with
    | some (.chosen spaceId op number e) =>
      match completed e op.text,completeOne rt.ids spaceId op number e with
      | .ok value,.ok call => some (w.replaced i [.ready value call none] w.store)
      | _,_ => some (w.replaced i [] w.store)
    | _ => none
  | .commit i newId now =>
    match w.flights[i]? with
    | some (.ready _ call again) =>
      let (r,store) := applyMemoryDecision rt.lib (call.apply newId now) w.store
      some (w.replaced i (retried again r) store)
    | _ => none
  | .drop i => if i < w.flights.length then some (w.replaced i [] w.store) else none

/-- The message whose decision the step commits. -/
def World.writing (w : World t) : Event → Option TaskInput
  | .commit i _ _ =>
    match w.flights[i]? with
    | some (.ready value _ _) => some value
    | _ => none
  | _ => none

end Suixinji.TaskCards
