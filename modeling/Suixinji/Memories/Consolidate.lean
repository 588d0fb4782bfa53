import Suixinji.Memories.Adjudicate

/-! The way of one candidate into long-term memory (memory/consolidator.py,
memory/evolution.py): the memories that were found for it are given, the decision
about it is made, and it is applied. -/
namespace Suixinji.Memories
open Relational Checked Ranking

variable {σ : Type}

/-- `_TaskMatch`. -/
structure TaskMatch (σ : Type) where
  memory : Memory σ
  kind : MatchKind
  score : ℚ

def MatchKind.rank : MatchKind → Nat
  | .exactKey => 4
  | .structuredIdentity => 3
  | .identityCompatible => 2
  | .fuzzyTopic => 1

/-- `m` is the weaker match. -/
def TaskMatch.below : TaskMatch σ → TaskMatch σ → Bool :=
  byThen (·.kind.rank) (byThen TaskMatch.score (less (·.memory.updatedAt)))

/-- `_matched_task_memories`: the best match first. -/
def Texts.matchedTaskMemories (lib : Texts σ) (c : Candidate σ) (memories : List (Memory σ)) : List (TaskMatch σ) :=
  let found := memories.filterMap (fun m => (lib.taskMatchKind c m).map (fun found => ⟨m,found.1,found.2⟩))
  let kept := found.foldl (fun (kept : List (TaskMatch σ)) m =>
    if kept.any (·.memory.id = m.memory.id) then kept else kept ++ [m]) []
  kept.mergeSort (fun a b => !a.below b)

/-- `_done_decision`. -/
def doneDecision (decisionId : DecisionId) (c : Candidate σ) (matched : List (TaskMatch σ)) (relation : DecisionRelation)
    (action : DecisionAction) (reason : String) : Decision where
  decisionId
  candidateId := c.candidateId
  relation
  targetMemoryIds := matched.map (·.memory.id)
  confidence := max (4/5) c.confidence
  reason
  recommendedAction := action
  targetSnapshotVersion := if matched.length = 1 then matched.head?.map (·.memory.currentVersion) else none

def Candidate.keyed (c : Candidate σ) (m : Memory σ) : Candidate σ :=
  { c with memoryKey := m.memoryKey,memoryKeyVersion := m.memoryKeyVersion }

/-- The call of `consolidate_candidate`: what its two retrievals and the list of active
tasks give it, what the model answers, the ids that it draws, and its clock. -/
structure Consolidation (σ : Type) where
  spaceId : SpaceId
  noteId : NoteId
  candidate : Candidate σ
  similar : List (Memory σ)
  answer : Option Identity := none
  tasks : List (Memory σ) := []
  events : List (Memory σ) := []
  eventAnswer : Option Identity := none
  decisionId : DecisionId
  newId : MemoryId
  now : Time

/-- A completion that would be remembered as a new task. -/
def Consolidation.orphan (lib : Texts σ) (k : Consolidation σ) : Prop :=
  k.candidate.memoryType = .task ∧ k.candidate.taskStatus = some .done ∧
    (lib.adjudicateMemory k.decisionId k.candidate k.similar k.answer).recommendedAction = .insert

instance (lib : Texts σ) (k : Consolidation σ) : Decidable (k.orphan lib) := inferInstanceAs (Decidable (_ ∧ _))

def Consolidation.decided (lib : Texts σ) (k : Consolidation σ) : Candidate σ × Decision × List (Memory σ) :=
  let c := k.candidate
  if k.orphan lib then
    match lib.matchedTaskMemories c k.tasks with
    | [] =>
      let c := lib.asEvent c
      (c,{ lib.adjudicateMemory k.decisionId c k.events k.eventAnswer with
        reason := "orphan_completion_converted_to_episodic" },k.events)
    | found :: others =>
      if others = [] ∧ found.kind ≠ .fuzzyTopic then
        let c := c.keyed found.memory
        (c,if found.memory.taskStatus = some .todo
          then doneDecision k.decisionId c [found] .updateTask .updateTask "completion_claim"
          else doneDecision k.decisionId c [found] .same .addSource "duplicate_done_completion",k.similar)
      else
        (c,doneDecision k.decisionId c (found::others) .ambiguousMatch .pendingReview
          "completion_requires_unambiguous_task_identity",k.similar)
  else (c,lib.adjudicateMemory k.decisionId c k.similar k.answer,k.similar)

def Candidate.forEvolution (c : Candidate σ) (d : Decision) (similar : List (Memory σ)) : Candidate σ :=
  if d.recommendedAction = .updateTask ∨ d.recommendedAction = .update ∨ d.recommendedAction = .merge then
    match d.targetMemoryIds with
    | [id] => (similar.find? (·.id = id)).elim c c.keyed
    | _ => c
  else c

/-- `evolve_memory`. -/
def evolveMemory (lib : Library σ) (call : ApplyCall σ) (s : Store σ) : Except Error Result × Store σ :=
  match call.decision.targetMemoryIds.head? with
  | some id =>
    if call.decision.recommendedAction = .merge then
      match s.memories.find? id with
      | none => (.error (.valueError s!"merge target not found: {id}"),s)
      | some t =>
        applyMemoryDecision lib { call with mergedContent := some (mergeContent lib t.content call.candidate.content) } s
    else applyMemoryDecision lib call s
  | none => applyMemoryDecision lib call s

def Consolidation.call (lib : Texts σ) (k : Consolidation σ) : ApplyCall σ where
  spaceId := k.spaceId
  noteId := k.noteId
  candidate := (k.decided lib).1.forEvolution (k.decided lib).2.1 (k.decided lib).2.2
  decision := (k.decided lib).2.1
  newId := k.newId
  now := k.now

/-- `consolidate_candidate`; the note that the reference was resolved from becomes a source as well. -/
def consolidateCandidate (lib : Texts σ) (k : Consolidation σ) (s : Store σ) : Except Error Result × Store σ :=
  let scope := (k.decided lib).1.scope
  match evolveMemory lib.toLibrary (k.call lib) s with
  | (.ok result,s) =>
    (.ok result,match result.memoryId,(lib.antecedentNote scope).filter (fun _ => lib.referenceResolved scope) with
      | some id,some note => addSourceCommand lib.toLibrary id note .supportedBy s
      | _,_ => s)
  | (.error e,s) => (.error e,s)

end Suixinji.Memories
