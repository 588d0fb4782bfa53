import Suixinji.Memories.Writes
import Suixinji.Memories.System

/-! The vectors of the memories, and the tasks of type `memory_embedding` that compute
them (repositories/postgres/memory.py, `handle_memory_embedding` of apps/handlers.py).
A run of a task claims the vector, embeds the text and completes or fails it, each in
a transaction of its own; any command may come in between. -/
namespace Suixinji.Memories
open Relational Checked Transition

variable {σ : Type}

def MemoryVector.processes (v : MemoryVector) (h : ContentHash) : Bool := v.status = .processing && v.contentHash = h

/-- `claim_memory_vector` with the hash of a task; nothing is claimed for a memory that is
not active, for another content, or where the vector is ready or being processed. -/
def claimMemoryVector (lib : Library σ) (id : MemoryId) (expectedHash : ContentHash) (s : Store σ) : Option (Store σ) :=
  match (s.memories.find? id).filter (·.status = .active) with
  | none => none
  | some m =>
    let contentHash := memoryContentHash lib m
    let v := (s.derived.vectors.find? id).getD { memoryId := id,contentHash,status := .pending }
    if !lib.vectorLifecycle || expectedHash ≠ contentHash || v.readyFor contentHash || v.processes contentHash then none
    else some { s with derived := { s.derived with
      vectors := s.derived.vectors.upsert { v with status := .processing,contentHash,attemptCount := v.attemptCount + 1 } } }

/-- A statement on the vector of the memory, where it meets a condition. -/
def Store.onVector (s : Store σ) (id : MemoryId) (p : MemoryVector → Bool) (f : MemoryVector → MemoryVector)
    (hf : ∀ v, (f v).memoryId = v.memoryId := by intro _; rfl) : Store σ :=
  { s with derived := { s.derived with vectors := s.derived.vectors.updateWhere (fun v => v.memoryId = id && p v) f hf } }

/-- `complete_memory_vector`. -/
def completeMemoryVector (id : MemoryId) (contentHash : ContentHash) (s : Store σ) : Store σ :=
  s.onVector id (·.processes contentHash) (fun v => { v with status := .ready,embedded := true })

/-- `fail_memory_vector`. -/
def failMemoryVector (id : MemoryId) (contentHash : ContentHash) (s : Store σ) : Store σ :=
  s.onVector id (·.contentHash = contentHash) (fun v => { v with status := .failed })

/-- The backfill passes over a vector that is ready, or that a task is held to be working on. -/
def MemoryVector.tended (v : MemoryVector) (h : ContentHash) : Bool :=
  ((v.status = .pending || v.status = .processing) && v.contentHash = h) || v.readyFor h

def backfillEmbedding (lib : Library σ) (d : Derived) (m : Memory σ) : Derived :=
  if (d.vectors.find? m.id).any (·.tended (memoryContentHash lib m)) then d else scheduleMemoryEmbedding lib m d

/-- `schedule_memory_vector_backfill`, on the rows of the status that its limit and the locks
of others leave it. -/
def scheduleMemoryVectorBackfill (lib : Library σ) (status : MemoryStatus) (ids : List MemoryId) (s : Store σ) : Store σ :=
  { s with derived :=
    (s.memories.rows.filter (fun m => m.status = status && m.id ∈ ids)).foldl (backfillEmbedding lib) s.derived }

/-- A run of `handle_memory_embedding`: of which task, and whether it holds a claim. -/
structure EmbeddingRun where
  key : MemoryId × ContentHash
  holds : Bool
  deriving DecidableEq

structure Embeddings (σ : Type) where
  store : Store σ
  runs : List EmbeddingRun := []

inductive EmbeddingEvent (σ : Type) where
  | command (c : Command σ)
  /-- a delivery of the task, up to the end of its claim -/
  | start (key : MemoryId × ContentHash)
  | complete (i : Nat)
  | fail (i : Nat)
  /-- the task ends: the handler returned, or raised for the last time -/
  | finish (i : Nat)
  /-- the run ends and the task does not: it is retried, or the worker died -/
  | drop (i : Nat)
  | backfill (status : MemoryStatus) (ids : List MemoryId)

def Embeddings.next (lib : Library σ) (w : Embeddings σ) : EmbeddingEvent σ → Option (Embeddings σ)
  | .command c => (execute lib w.store c).toOption.map (fun store => { w with store })
  | .start key =>
    if ∃ t ∈ w.store.derived.tasks.find? key, t.finished = false then
      let claimed := claimMemoryVector lib key.1 key.2 w.store
      some { store := claimed.getD w.store,runs := w.runs ++ [{ key,holds := claimed.isSome }] }
    else none
  | .complete i => ((w.runs[i]?).filter EmbeddingRun.holds).map (fun r => {
      store := completeMemoryVector r.key.1 r.key.2 w.store,runs := w.runs.set i { r with holds := false } })
  | .fail i => ((w.runs[i]?).filter EmbeddingRun.holds).map (fun r => {
      store := failMemoryVector r.key.1 r.key.2 w.store,runs := w.runs.set i { r with holds := false } })
  | .finish i => ((w.runs[i]?).filter (fun r => !r.holds)).map (fun r => {
      store := { w.store with derived := { w.store.derived with
        tasks := w.store.derived.tasks.updateWhere (fun t => t.key = r.key) (fun t => { t with finished := true }) } }
      runs := w.runs.eraseIdx i })
  | .drop i => some { w with runs := w.runs.eraseIdx i }
  | .backfill status ids => some { w with store := scheduleMemoryVectorBackfill lib status ids w.store }

def Embeddings.Step (lib : Library σ) (w : Embeddings σ) (e : EmbeddingEvent σ) (w' : Embeddings σ) : Prop :=
  w.next lib e = some w'

/-- A run of the task would claim the vector of the memory, or one in progress holds it. -/
def Embeddings.attends (lib : Library σ) (w : Embeddings σ) (m : Memory σ) (t : EmbeddingTask) : Prop :=
  t.finished = false ∧ t.key = (m.id,memoryContentHash lib m) ∧
    ((claimMemoryVector lib t.memoryId t.contentHash w.store).isSome ∨ ∃ r ∈ w.runs, r.key = t.key ∧ r.holds)

def Embeddings.tended (lib : Library σ) (w : Embeddings σ) (m : Memory σ) : Prop :=
  (∃ v ∈ w.store.derived.vectors.find? m.id, v.readyFor (memoryContentHash lib m)) ∨
    ∃ t ∈ w.store.derived.tasks, w.attends lib m t

def Embeddings.usable (lib : Library σ) (w : Embeddings σ) (m : Memory σ) : Prop :=
  w.tended lib m ∨ Embeddings.tended lib { w with store := scheduleMemoryVectorBackfill lib .active [m.id] w.store } m

instance (lib : Library σ) (w : Embeddings σ) (m : Memory σ) (t : EmbeddingTask) : Decidable (w.attends lib m t) :=
  inferInstanceAs (Decidable (_ ∧ _))

instance (lib : Library σ) (w : Embeddings σ) (m : Memory σ) : Decidable (w.tended lib m) :=
  inferInstanceAs (Decidable ((∃ v ∈ w.store.derived.vectors.find? m.id,_) ∨ ∃ t ∈ w.store.derived.tasks.rows,_))

instance (lib : Library σ) (w : Embeddings σ) (m : Memory σ) : Decidable (w.usable lib m) :=
  inferInstanceAs (Decidable (_ ∨ _))

section
variable (d : Derived) (id : MemoryId) (h : ContentHash)

def Derived.ready : Prop := ∃ v ∈ d.vectors.find? id, v.readyFor h

/-- The task of the hash has not ended. -/
def Derived.opens : Prop := ∃ t ∈ d.tasks.find? (id,h), t.finished = false

def Derived.claimable : Prop := ∀ v ∈ d.vectors.find? id, ¬v.processes h

/-- There never was a task of the hash, and the backfill does not pass over the vector. -/
def Derived.untended : Prop := d.tasks.find? (id,h) = none ∧ ∀ v ∈ d.vectors.find? id, ¬v.tended h

/-- The task of the hash can be created, or has not ended. -/
def Derived.schedulable : Prop := d.ready id h ∨ ∀ t ∈ d.tasks.find? (id,h), t.finished = false

instance : Decidable (d.ready id h) := inferInstanceAs (Decidable (∃ _ ∈ _,_))
instance : Decidable (d.opens id h) := inferInstanceAs (Decidable (∃ _ ∈ _,_))
instance : Decidable (d.claimable id h) := inferInstanceAs (Decidable (∀ _ ∈ _,_))
instance : Decidable (d.untended id h) := inferInstanceAs (Decidable (_ ∧ _))
instance : Decidable (d.schedulable id h) := inferInstanceAs (Decidable (_ ∨ _))

/-- A run in progress holds the claim of the hash. -/
def held (runs : List EmbeddingRun) : Prop := ∃ r ∈ runs, r.key = (id,h) ∧ r.holds

instance (runs : List EmbeddingRun) : Decidable (held id h runs) := inferInstanceAs (Decidable (∃ _ ∈ _,_))

/-- A memory of the id with a text of the hash would have a usable vector, were it active. -/
def Derived.serves (runs : List EmbeddingRun) : Prop :=
  d.ready id h ∨ d.opens id h ∧ (d.claimable id h ∨ held id h runs) ∨ d.untended id h

instance (runs : List EmbeddingRun) : Decidable (d.serves id h runs) := inferInstanceAs (Decidable (_ ∨ _))

end

def Memory.rehashed (lib : Library σ) (m : Memory σ) (c : Changes σ) : ContentHash :=
  memoryContentHash lib (m.changed lib c m.updatedAt)

/-- An update that leaves an active memory finds its new text without a finished task, or,
where the text stays, had it served before. -/
def Embeddings.admits (lib : Library σ) (w : Embeddings σ) (l : MemoryId × Changes σ) : Prop :=
  ∀ m ∈ w.store.memories.find? l.1, l.2.status.getD m.status = .active →
    if l.2.content.isSome then w.store.derived.schedulable m.id (m.rehashed lib l.2)
    else m.status = .active ∨ w.store.derived.serves m.id (memoryContentHash lib m) w.runs

instance (lib : Library σ) (w : Embeddings σ) (l : MemoryId × Changes σ) : Decidable (w.admits lib l) :=
  inferInstanceAs (Decidable (∀ m ∈ w.store.memories.find? l.1,_))

def ApplyCall.edits (lib : Library σ) (call : ApplyCall σ) (s : Store σ) : List (MemoryId × Changes σ) :=
  match s.prior call.spaceId call.candidate.candidateId,call.target s with
  | none,.ok (some t) =>
    let d := call.settled lib (some t)
    match d.recommendedAction with
    | .merge | .update | .updateTask => [(t.id,call.mutation lib d t)]
    | _ => []
  | _,_ => []

/-- The updates by which a command can leave a memory active. -/
def Command.edits (lib : Library σ) (s : Store σ) : Command σ → List (MemoryId × Changes σ)
  | .apply call => call.edits lib s
  | .update id c _ _ _ => [(id,c)]
  | .correct id content _ _ | .resolve id (.merge content) _ => [(id,{ content := some content,status := some .active })]
  | .resolve id .keep _ => [(id,{ status := some .active })]
  | .approve id now => ((s.pending? id).bind (fun pending => (s.reviewed id).map (fun r => r.updates lib pending now s))).getD []
  | .insert .. | .addSource .. | .softDelete .. | .resolve _ .archive _ | .expire .. | .purge .. | .reject .. | .edit .. => []

/-- The rows that a command can insert. -/
def Command.entries (lib : Library σ) : Command σ → List (Memory σ)
  | .apply call => [call.candidate.row lib call.newId call.spaceId .active call.now]
  | .insert id spaceId c _ status now => [c.row lib id spaceId status now]
  | _ => []

/-- What `update_memory` can be asked for. -/
def Command.worded : Command σ → Prop
  | .update _ c _ _ _ => c.subject = none ∧ c.objectValue = none
  | _ => True

/-- No finished task is in the way of a text or of an activation; no task ends before the
vector of its active memory is ready, and no claim of it is lost. -/
def Embeddings.steady (lib : Library σ) (w : Embeddings σ) : EmbeddingEvent σ → Prop
  | .command c => (∀ l ∈ c.edits lib w.store, w.admits lib l) ∧
      ∀ row ∈ c.entries lib, row.status = .active → w.store.derived.schedulable row.id (memoryContentHash lib row)
  | .fail i => ∀ r ∈ w.runs[i]?, ∀ m ∈ w.store.memories.find? r.key.1, m.status = .active → memoryContentHash lib m = r.key.2 →
      (∀ v ∈ w.store.derived.vectors.find? r.key.1, v.contentHash ≠ r.key.2) ∨ w.store.derived.opens r.key.1 r.key.2
  | .finish i => ∀ r ∈ w.runs[i]?, ∀ m ∈ w.store.memories.find? r.key.1, m.status = .active → memoryContentHash lib m = r.key.2 →
      w.store.derived.ready r.key.1 r.key.2
  | .drop i => ∀ r ∈ w.runs[i]?, ∀ m ∈ w.store.memories.find? r.key.1, m.status = .active → memoryContentHash lib m = r.key.2 →
      w.store.derived.claimable r.key.1 r.key.2 ∨ w.store.derived.ready r.key.1 r.key.2 ∨ held r.key.1 r.key.2 (w.runs.eraseIdx i)
  | .start _ | .complete _ | .backfill .. => True

instance (lib : Library σ) (w : Embeddings σ) (e : EmbeddingEvent σ) : Decidable (w.steady lib e) :=
  match e with
  | .command c => inferInstanceAs (Decidable ((∀ l ∈ c.edits lib w.store, w.admits lib l) ∧
      ∀ row ∈ c.entries lib, row.status = .active → w.store.derived.schedulable row.id (memoryContentHash lib row)))
  | .fail i => inferInstanceAs (Decidable (∀ r ∈ w.runs[i]?, ∀ m ∈ w.store.memories.find? r.key.1, m.status = .active →
      memoryContentHash lib m = r.key.2 →
      (∀ v ∈ w.store.derived.vectors.find? r.key.1, v.contentHash ≠ r.key.2) ∨ w.store.derived.opens r.key.1 r.key.2))
  | .finish i => inferInstanceAs (Decidable (∀ r ∈ w.runs[i]?, ∀ m ∈ w.store.memories.find? r.key.1, m.status = .active →
      memoryContentHash lib m = r.key.2 → w.store.derived.ready r.key.1 r.key.2))
  | .drop i => inferInstanceAs (Decidable (∀ r ∈ w.runs[i]?, ∀ m ∈ w.store.memories.find? r.key.1, m.status = .active →
      memoryContentHash lib m = r.key.2 → w.store.derived.claimable r.key.1 r.key.2 ∨ w.store.derived.ready r.key.1 r.key.2 ∨
        held r.key.1 r.key.2 (w.runs.eraseIdx i)))
  | .start _ | .complete _ | .backfill .. => .isTrue trivial

end Suixinji.Memories
