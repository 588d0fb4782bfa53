import Suixinji.Relational.Ranking
import Suixinji.Memories.System

/-! The semantic profile projections beside the commands
(repositories/postgres/semantic_profile_projection.py, memory/semantic_profile_projection.py).
A refresh reads the row, lists the memories and saves what it made of them, each in
a transaction of its own; any command may come in between. -/
namespace Suixinji.Memories
open Relational Checked Transition Ranking

variable {σ : Type}

def Memory.profile (m : Memory σ) : Option (SpaceId × String) :=
  if m.memoryType = .semantic ∧ m.status = .active then some (m.spaceId,m.facet) else none

def Store.semantic (s : Store σ) (spaceId : SpaceId) : List (Memory σ) :=
  s.memories.rows.filter (fun m => m.spaceId = spaceId && m.status = .active && m.memoryType = .semantic)

/-- `list_memories` of the active semantic memories of a space, with the limit 100. -/
def Store.listMemories (s : Store σ) (spaceId : SpaceId) (now : Time) : List (Memory σ) :=
  (((s.semantic spaceId).filter (fun m => m.validUntil.all (now < ·))).mergeSort
    (fun m n => !byThen Memory.updatedAt (less Memory.id) m n)).take 100

/-- `_ordered_facts`. -/
def orderedFacts (memories : List (Memory σ)) : List (Memory σ) :=
  memories.mergeSort (fun m n =>
    !byThen Memory.updatedAt (byThen Memory.importance (byThen Memory.confidence (less Memory.id))) m n)

/-- The ids that a refresh of the facet finds. -/
def Store.facts (s : Store σ) (key : SpaceId × String) (now : Time) : List MemoryId :=
  (orderedFacts ((s.listMemories key.1 now).filter (·.facetText = key.2))).map Memory.id

/-- `save_semantic_profile_projection`. -/
def Projection.saved (p : Projection) (expectedRevision : Nat) (sourceMemoryIds : List MemoryId) : Projection :=
  if expectedRevision < p.processedRevision then p
  else { p with
    sourceMemoryIds := sourceMemoryIds.eraseDups
    processedRevision := expectedRevision
    fresh := p.targetRevision ≤ expectedRevision }

/-- `record_semantic_profile_projection_error`. -/
def Projection.failed (p : Projection) : Projection := { p with fresh := false }

/-- A statement on the row of the key, if it is there. -/
def Store.onProjection (s : Store σ) (key : SpaceId × String) (f : Projection → Projection) : Store σ :=
  { s with derived := { s.derived with
    projections := ((s.derived.projections.find? key).map (fun p => s.derived.projections.put (f p))).getD s.derived.projections } }

/-- `enqueue_stale_semantic_profile_projection_rebuilds`, on the fresh rows that its cutoff,
its limit and the locks of others leave it. -/
def Store.rebuildStale (s : Store σ) (keys : List (SpaceId × String)) : Store σ :=
  { s with derived := { s.derived with
    projections := s.derived.projections.updateWhere (fun p => p.fresh && p.key ∈ keys) Projection.marked } }

/-- `refresh_semantic_profile_projection`, once it has read the row; what it found when it
listed the memories. -/
structure Refresh where
  key : SpaceId × String
  targetRevision : Nat
  found : Option (List MemoryId) := none
  deriving DecidableEq

structure Profiles (σ : Type) where
  store : Store σ
  refreshes : List Refresh := []

inductive ProfileEvent (σ : Type) where
  | command (c : Command σ)
  | read (key : SpaceId × String)
  | list (i : Nat) (now : Time)
  | save (i : Nat)
  /-- the refresh raises, and its error is recorded -/
  | fail (i : Nat)
  | crash (i : Nat)
  | rebuild (keys : List (SpaceId × String))

def Profiles.next (lib : Library σ) (w : Profiles σ) : ProfileEvent σ → Option (Profiles σ)
  | .command c => (execute lib w.store c).toOption.map (fun store => { w with store })
  | .read key => (w.store.derived.projections.find? key).map (fun p =>
      if p.targetRevision ≤ p.processedRevision then w
      else { w with refreshes := w.refreshes ++ [{ key,targetRevision := p.targetRevision }] })
  | .list i now => (w.refreshes[i]?).map (fun r =>
      { w with refreshes := w.refreshes.set i { r with found := some (w.store.facts r.key now) } })
  | .save i => (w.refreshes[i]?).bind (fun r => r.found.map (fun ids => {
      store := w.store.onProjection r.key (·.saved r.targetRevision ids),refreshes := w.refreshes.eraseIdx i }))
  | .fail i => (w.refreshes[i]?).map (fun r => {
      store := w.store.onProjection r.key Projection.failed,refreshes := w.refreshes.eraseIdx i })
  | .crash i => some { w with refreshes := w.refreshes.eraseIdx i }
  | .rebuild keys => some { w with store := w.store.rebuildStale keys }

def Profiles.Step (lib : Library σ) (w : Profiles σ) (e : ProfileEvent σ) (w' : Profiles σ) : Prop := w.next lib e = some w'

def Store.small (s : Store σ) : Prop := ∀ m ∈ s.memories, (s.semantic m.spaceId).length ≤ 100

instance (s : Store σ) : Decidable s.small := inferInstanceAs (Decidable (∀ m ∈ s.memories.rows,_))

def Store.profiled (s : Store σ) (id : MemoryId) : Option (SpaceId × String) := (s.memories.find? id).bind Memory.profile

/-- The approval takes no memory in or out of a profile: it makes no semantic memory
active, and its target was not active. -/
def DecisionRow.still (r : DecisionRow) (pending : Memory σ) (s : Store σ) : Prop :=
  (r.relation = .new ∨ r.relation = .supersede → pending.memoryType ≠ .semantic) ∧
    (r.relation = .supersede ∨ r.relation = .conflict → ∀ t ∈ r.target s, t.profile = none)

instance (r : DecisionRow) (pending : Memory σ) (s : Store σ) : Decidable (r.still pending s) :=
  inferInstanceAs (Decidable (_ ∧ _))

/-- The applied decision takes no memory out of a profile, or puts another in its place. -/
def ApplyCall.still (lib : Library σ) (call : ApplyCall σ) (s : Store σ) : Prop :=
  s.prior call.spaceId call.candidate.candidateId = none → ∀ t ∈ (call.target s).toOption.join, t.profile ≠ none →
    ¬call.decision.stale t → call.decision.recommendedAction = .supersede ∨ call.decision.recommendedAction = .conflict →
      call.decision.recommendedAction = .supersede ∧
        (call.candidate.row lib call.newId call.spaceId .active call.now).profile = t.profile

instance (lib : Library σ) (call : ApplyCall σ) (s : Store σ) : Decidable (call.still lib s) :=
  inferInstanceAs (Decidable (_ → _))

/-- A command that takes an active semantic memory out of its profile or puts one in,
and marks nothing, is not among these. -/
def Command.still (lib : Library σ) (s : Store σ) : Command σ → Prop
  | .apply call => call.still lib s
  | .insert .. | .addSource .. | .reject .. | .edit .. => True
  | .update id c _ _ _ => s.profiled id ≠ none → ∀ status ∈ c.status, status = .active
  | .correct id .. | .resolve id .keep _ | .resolve id (.merge _) _ =>
    ∀ m ∈ s.memories.find? id, m.memoryType = .semantic → m.status = .active
  | .softDelete id _ | .resolve id .archive _ | .purge id => s.profiled id = none
  | .expire ids _ => ∀ id ∈ ids, s.profiled id = none
  | .approve id _ => ∀ pending ∈ s.pending? id, ∀ r ∈ s.reviewed id, r.still pending s

instance (lib : Library σ) (s : Store σ) (c : Command σ) : Decidable (c.still lib s) :=
  match c with
  | .apply call => inferInstanceAs (Decidable (call.still lib s))
  | .insert .. | .addSource .. | .reject .. | .edit .. => .isTrue trivial
  | .update id c _ _ _ => inferInstanceAs (Decidable (s.profiled id ≠ none → ∀ status ∈ c.status, status = .active))
  | .correct id .. | .resolve id .keep _ | .resolve id (.merge _) _ =>
    inferInstanceAs (Decidable (∀ m ∈ s.memories.find? id, m.memoryType = .semantic → m.status = .active))
  | .softDelete id _ | .resolve id .archive _ | .purge id => inferInstanceAs (Decidable (s.profiled id = none))
  | .expire ids _ => inferInstanceAs (Decidable (∀ id ∈ ids, s.profiled id = none))
  | .approve id _ => inferInstanceAs (Decidable (∀ pending ∈ s.pending? id, ∀ r ∈ s.reviewed id, r.still pending s))

/-- A refresh lists what counts for its facet: the texts of the predicates are the facets
they count for, and no active memory has reached its end. -/
def Refresh.clear (r : Refresh) (now : Time) (s : Store σ) : Prop :=
  ∀ m ∈ s.semantic r.key.1, (m.facetText = r.key.2 ↔ m.facet = r.key.2) ∧
    (m.facet = r.key.2 → ∀ last ∈ m.validUntil, now < last)

instance (r : Refresh) (now : Time) (s : Store σ) : Decidable (r.clear now s) :=
  inferInstanceAs (Decidable (∀ m ∈ s.semantic r.key.1,_))

def Profiles.still (lib : Library σ) (w : Profiles σ) : ProfileEvent σ → Prop
  | .command c => c.still lib w.store
  | .list i now => ∀ r ∈ w.refreshes[i]?, r.clear now w.store
  | _ => True

instance (lib : Library σ) (w : Profiles σ) (e : ProfileEvent σ) : Decidable (w.still lib e) :=
  match e with
  | .command c => inferInstanceAs (Decidable (c.still lib w.store))
  | .list i now => inferInstanceAs (Decidable (∀ r ∈ w.refreshes[i]?, r.clear now w.store))
  | .read _ | .save _ | .fail _ | .crash _ | .rebuild _ => .isTrue trivial

end Suixinji.Memories
