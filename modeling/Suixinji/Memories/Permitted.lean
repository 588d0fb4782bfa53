import Suixinji.Memories.Approvable
import Suixinji.Memories.AppendOnly

/-! Which changes the consolidation makes to a memory by itself: on what confidence,
and to what. -/
namespace Suixinji.Memories
open Relational Checked Ranking

variable {σ : Type} {lib : Texts σ} {c : Candidate σ} {memories : List (Memory σ)} {answer : Option Identity}
  {decisionId : DecisionId} {d : Decision} {m : Memory σ}

/-! ### Decisions -/

/-- What changes a memory is sure enough, and about one of those found, in the version
in which it was found. -/
def Decision.Backed (lib : Texts σ) (memories : List (Memory σ)) (d : Decision) : Prop :=
  d.recommendedAction.destructive → lib.autoMutationMinConfidence ≤ d.confidence ∧
    ∃ m ∈ memories, d.targetMemoryIds = [m.id] ∧ d.targetSnapshotVersion = some m.currentVersion

section
variable {relation : DecisionRelation} {action : DecisionAction} {confidence : ℚ} {reason : String}

theorem decision_mild {targets : List (Memory σ)} (mild : ¬action.destructive) :
    (lib.decision decisionId c relation action confidence reason targets).Backed lib memories := by
  intro destroys
  simp only [Texts.decision,mild,Bool.false_and,Bool.false_eq_true,↓reduceIte] at destroys

theorem decision_about (member : m ∈ memories) :
    (lib.decision decisionId c relation action confidence reason [m]).Backed lib memories := by
  intro destroys
  refine ⟨?_,m,member,rfl,rfl⟩
  by_contra below
  rw [not_le] at below
  change min 1 (max 0 confidence) < _ at below
  by_cases strong : action.destructive
  · simp only [Texts.decision,strong,below,decide_true,Bool.and_true,↓reduceIte] at destroys
    cases destroys
  · simp [Texts.decision,strong] at destroys

end

theorem identifiedTask_backed {confidence : ℚ} {reason : String} (member : m ∈ memories) :
    (lib.identifiedTask decisionId c m confidence reason).Backed lib memories := by
  unfold Texts.identifiedTask
  dsimp only
  split_ifs <;> exact decision_about member

theorem identifiedPreference_backed {confidence : ℚ} {reason : String} (member : m ∈ memories) :
    (lib.identifiedPreference decisionId c m confidence reason).Backed lib memories := by
  unfold Texts.identifiedPreference
  dsimp only
  split_ifs <;> exact decision_about member

theorem target_mem {answer : Identity} (found : answer.target memories = some m) : m ∈ memories := by
  obtain ⟨id,_,found⟩ := Option.bind_eq_some_iff.mp found
  exact List.mem_of_find?_eq_some found

theorem identityAdjudicatedDecision_backed (decided : lib.identityAdjudicatedDecision decisionId c memories answer = some d) :
    d.Backed lib memories := by
  obtain ⟨a,_,decided⟩ := Option.bind_eq_some_iff.mp decided
  cases named : a.relation with
  | different | sameFamily | uncertain =>
    simp only [named] at decided
    cases decided
    exact decision_mild (by decide)
  | sameInstance =>
    cases found : a.target memories with
    | none =>
      simp only [named,found] at decided
      cases decided
      exact decision_mild (by decide)
    | some m =>
      simp only [named,found] at decided
      split at decided
      · cases decided
        exact identifiedTask_backed (target_mem found)
      · cases decided
  | sameAssertion =>
    cases found : a.target memories with
    | none =>
      simp only [named,found] at decided
      cases decided
      exact decision_mild (by decide)
    | some m =>
      simp only [named,found] at decided
      split at decided
      · cases decided
        exact identifiedPreference_backed (target_mem found)
      · cases decided

theorem adjudicateSemantic_backed : (lib.adjudicateSemantic decisionId c memories).Backed lib memories := by
  unfold Texts.adjudicateSemantic
  split
  · exact decision_mild (by decide)
  · exact decision_mild (by decide)

theorem adjudicateBest_backed (member : m ∈ memories) : (lib.adjudicateBest decisionId c m).Backed lib memories := by
  unfold Texts.adjudicateBest
  dsimp only
  split_ifs <;> first | exact decision_about member | exact decision_mild (by decide)

theorem narrowed_sub {kept : List (Memory σ)} (narrowed : lib.narrowed c memories = .ok kept) : kept ⊆ memories := by
  obtain ⟨_,_,narrowed⟩ := bind_ok.mp narrowed
  dsimp only at narrowed
  have chosen : (if c.memoryType = .preference ∧ lib.exact c memories = [] then
      memories.filter (fun m => lib.comparativeAlternative c.content m.content) else lib.exact c memories) ⊆ memories := by
    split
    · exact List.filter_subset_self memories
    · exact List.filter_subset_self memories
  generalize (if c.memoryType = .preference ∧ lib.exact c memories = [] then
      memories.filter (fun m => lib.comparativeAlternative c.content m.content) else lib.exact c memories) = keyed at narrowed chosen
  have wide : (if keyed = [] then memories else keyed) ⊆ memories := by
    split
    · exact fun m member => member
    · exact chosen
  generalize (if keyed = [] then memories else keyed) = wider at narrowed wide
  cases type : c.memoryType <;> simp only [type] at narrowed
  case preference =>
    obtain ⟨_,_,narrowed⟩ := bind_ok.mp narrowed
    cases narrowed
    exact fun m member => wide (List.mem_filter.mp member).1
  case task =>
    obtain ⟨_,_,narrowed⟩ := bind_ok.mp narrowed
    cases narrowed
    exact fun m member => wide (List.mem_filter.mp member).1
  all_goals
    cases narrowed
    exact wide

theorem adjudicateV2_backed : (lib.adjudicateV2 decisionId c memories).Backed lib memories := by
  unfold Texts.adjudicateV2
  split
  · exact decision_mild (by decide)
  · rename_i kept narrowed
    split
    · exact decision_mild (by decide)
    · rename_i best chosen
      exact adjudicateBest_backed (narrowed_sub narrowed (greatest_mem chosen))

theorem preferenceByScope_backed (found : lib.preferenceByScope decisionId c memories = some d) : d.Backed lib memories := by
  unfold Texts.preferenceByScope at found
  dsimp only at found
  split at found
  · split at found <;> cases found <;> exact decision_mild (by decide)
  · split at found
    · obtain ⟨m,_,rfl⟩ := Option.map_eq_some_iff.mp found
      exact decision_mild (by decide)
    · cases found

theorem adjudicateRefinement_backed : (lib.adjudicateRefinement decisionId c memories).Backed lib memories := by
  unfold Texts.adjudicateRefinement
  dsimp only
  split
  · exact decision_mild (by decide)
  · split
    · exact decision_mild (by decide)
    · rename_i best chosen
      exact decision_about (List.mem_of_mem_filter (greatest_mem chosen))

theorem adjudicateV3_backed : (lib.adjudicateV3 decisionId c memories).Backed lib memories := by
  have refined : (lib.adjudicateRefinement decisionId c memories).Backed lib memories := adjudicateRefinement_backed
  unfold Texts.adjudicateV3
  dsimp only
  split
  · exact adjudicateSemantic_backed
  split
  · exact decision_mild (by decide)
  split
  · exact decision_mild (by decide)
  · split
    · cases named : lib.preferenceByScope decisionId c memories with
      | none => exact refined
      | some d => exact preferenceByScope_backed named
    · exact refined
  · rename_i best chosen
    exact decision_about (List.mem_of_mem_filter (greatest_mem chosen))

theorem adjudicateMemory_backed (lib : Texts σ) (decisionId : DecisionId) (c : Candidate σ) (memories : List (Memory σ))
    (answer : Option Identity) : (lib.adjudicateMemory decisionId c memories answer).Backed lib memories := by
  unfold Texts.adjudicateMemory
  split
  · exact decision_mild (by decide)
  split
  · exact decision_mild (by decide)
  split
  · exact adjudicateSemantic_backed
  have rules : (if lib.relationGuardV3 && lib.isV3Candidate c then lib.adjudicateV3 decisionId c memories
      else lib.adjudicateV2 decisionId c memories).Backed lib memories := by
    split
    · exact adjudicateV3_backed
    · exact adjudicateV2_backed
  dsimp only
  cases identified : (if lib.exact c memories = [] then lib.identityAdjudicatedDecision decisionId c memories answer else none) with
  | none => exact rules
  | some d =>
    split at identified
    · exact identityAdjudicatedDecision_backed identified
    · cases identified

/-! ### The consolidation -/

section
variable (lib : Texts σ) (k : Consolidation σ)

/-- The memories that the decision is made on: those that the retrieval of the branch gives. -/
def Consolidation.consulted : List (Memory σ) :=
  if k.orphan lib then
    match lib.matchedTaskMemories k.candidate k.tasks with
    | [] => k.events
    | matched => matched.map TaskMatch.memory
  else k.similar

def Consolidation.Listed : Prop :=
  ∀ m ∈ k.consulted lib, m.status = .active ∧ m.spaceId = k.spaceId ∧ m.memoryType = (k.decided lib).1.memoryType

/-- What was found was read from the store: a row that still has the version of what was
found still has its place, type and status. -/
def Consolidation.Fits (s : Store σ) : Prop :=
  ∀ m ∈ k.consulted lib, ∀ t ∈ s.memories, t.id = m.id → t.currentVersion = m.currentVersion →
    t.spaceId = m.spaceId ∧ t.memoryType = m.memoryType ∧ t.status = m.status

/-- A completion that is to finish the one task it matches, on less than the confidence
that a change takes. -/
def Consolidation.Hasty : Prop :=
  k.orphan lib ∧ ∃ found, lib.matchedTaskMemories k.candidate k.tasks = [found] ∧ found.kind ≠ .fuzzyTopic ∧
    found.memory.taskStatus = some .todo ∧ max (4/5) k.candidate.confidence < lib.autoMutationMinConfidence

/-- What the consolidation has changed, it changed on enough confidence: an active memory
of the space and of the type of the candidate, whose task may move to where it is moved. -/
def Consolidation.Permitted (s : Store σ) (result : Result) : Prop :=
  result.action.destructive → lib.autoMutationMinConfidence ≤ (k.call lib).decision.confidence ∧
    ∃ t ∈ s.memories, (k.call lib).decision.targetMemoryIds = [t.id] ∧ t.status = .active ∧ t.spaceId = k.spaceId ∧
      t.memoryType = (k.call lib).candidate.memoryType ∧
      (result.action = .updateTask → canTransition t.taskStatus (k.call lib).candidate.taskStatus)

end

variable {k : Consolidation σ}

/-- Rows that are still as they were found. -/
theorem fits_of_read {s : Store σ} (read : ∀ m ∈ k.consulted lib, m ∈ s.memories) : k.Fits lib s := by
  intro m member t inside same _
  obtain rfl := s.memories.unique inside (read m member) same
  exact ⟨rfl,rfl,rfl⟩

/-- A decision that changes a memory names one of those consulted, in the version in which
it was found. -/
theorem decided_backed (destroys : (k.decided lib).2.1.recommendedAction.destructive) :
    (∃ m ∈ k.consulted lib, (k.decided lib).2.1.targetMemoryIds = [m.id] ∧
      (k.decided lib).2.1.targetSnapshotVersion = some m.currentVersion) ∧
      (¬k.Hasty lib → lib.autoMutationMinConfidence ≤ (k.decided lib).2.1.confidence) := by
  have of_backed {memories : List (Memory σ)} {d : Decision} (backed : d.Backed lib memories) (destroys : d.recommendedAction.destructive) :
      (∃ m ∈ memories, d.targetMemoryIds = [m.id] ∧ d.targetSnapshotVersion = some m.currentVersion) ∧
        (¬k.Hasty lib → lib.autoMutationMinConfidence ≤ d.confidence) := ⟨(backed destroys).2,fun _ => (backed destroys).1⟩
  unfold Consolidation.consulted
  unfold Consolidation.decided at destroys ⊢
  dsimp only at destroys ⊢
  by_cases orphan : k.orphan lib
  · rw [if_pos orphan] at destroys ⊢
    rw [if_pos orphan]
    cases matched : lib.matchedTaskMemories k.candidate k.tasks with
    | nil =>
      simp only [matched] at destroys ⊢
      have backed := adjudicateMemory_backed lib k.decisionId (lib.asEvent k.candidate) k.events k.eventAnswer
      exact of_backed backed destroys
    | cons found others =>
      simp only [matched] at destroys ⊢
      split at destroys
      · rename_i single
        obtain ⟨rfl,strong⟩ := single
        dsimp only at destroys ⊢
        rw [if_pos ⟨rfl,strong⟩]
        split at destroys
        · rename_i todo
          simp only [todo,↓reduceIte]
          refine ⟨⟨found.memory,by simp,rfl,rfl⟩,fun calm => ?_⟩
          by_contra below
          exact calm ⟨orphan,found,matched,strong,todo,not_le.mp below⟩
        · cases destroys
      · cases destroys
  · rw [if_neg orphan] at destroys ⊢
    rw [if_neg orphan]
    exact of_backed (adjudicateMemory_backed lib k.decisionId k.candidate k.similar k.answer) destroys

theorem forEvolution_type (c : Candidate σ) (d : Decision) (similar : List (Memory σ)) :
    (c.forEvolution d similar).memoryType = c.memoryType := by
  unfold Candidate.forEvolution
  split
  · split
    · rename_i id _
      cases similar.find? (·.id = id) <;> rfl
    · rfl
  · rfl

theorem settled_destructive {call : ApplyCall σ} {target : Option (Memory σ)} {lib : Library σ}
    (destroys : (call.settled lib target).recommendedAction.destructive) :
    call.settled lib target = call.decision ∧ ∀ t ∈ target, ¬call.decision.stale t := by
  cases target with
  | none => exact ⟨rfl,fun t there => by cases there⟩
  | some t =>
    simp only [ApplyCall.settled,Option.elim_some,Decision.settled] at destroys ⊢
    split at destroys
    · split at destroys <;> cases destroys
    · rename_i fresh
      rw [if_neg fresh]
      exact ⟨rfl,fun t' same => Option.some.inj same ▸ fresh⟩

theorem replay_mild (prior : DecisionRow) : ¬prior.replay.action.destructive := by
  unfold DecisionRow.replay
  dsimp only
  split <;> decide

theorem permitted_of_settled {s : Store σ} {target : Option (Memory σ)} {content : Option String} {result : Result}
    (listed : k.Listed lib) (fits : k.Fits lib s) (calm : ¬k.Hasty lib)
    (chosen : ApplyCall.target { k.call lib with mergedContent := content } s = .ok target)
    (named : result.action.destructive →
      result.action = (ApplyCall.settled lib.toLibrary { k.call lib with mergedContent := content } target).recommendedAction) :
    k.Permitted lib s result := by
  intro destroys
  have action := named destroys
  rw [action] at destroys
  obtain ⟨same,fresh⟩ := settled_destructive destroys
  rw [same] at destroys
  obtain ⟨⟨m,member,targets,version⟩,sure⟩ := decided_backed destroys
  obtain ⟨t,rfl,there⟩ := (target_ok chosen).1 m.id (by rw [show ApplyCall.decision _ = (k.decided lib).2.1 from rfl,targets]; rfl)
  obtain ⟨inside,id⟩ := Table.find?_eq_some.mp there
  obtain ⟨active,space,type⟩ := listed m member
  have unchanged : t.currentVersion = m.currentVersion := by
    by_contra other
    exact fresh t rfl ⟨m.currentVersion,version,Ne.symm other⟩
  obtain ⟨space',type',status⟩ := fits m member t inside id unchanged
  refine ⟨sure calm,t,inside,targets.trans (by rw [id]),status.trans active,space'.trans space,?_,fun _ => canTransition_all _ _⟩
  exact (type'.trans type).trans (forEvolution_type _ _ _).symm

theorem permitted_of_calm {s s' : Store σ} {result : Result} (listed : k.Listed lib) (fits : k.Fits lib s) (calm : ¬k.Hasty lib)
    (ok : consolidateCandidate lib k s = (.ok result,s')) : k.Permitted lib s result := by
  obtain ⟨content,u,applied,_,_⟩ := consolidateCandidate_ok ok
  rcases applyInSession_ok.mp (applyMemoryDecision_ok.mp applied) with ⟨prior,_,rfl,_⟩ | ⟨_,target,chosen,_,ids,v,done,_⟩
  · exact fun destroys => absurd destroys (replay_mild prior)
  · exact permitted_of_settled listed fits calm chosen (fun _ => perform_action done)

/-! ### The local store -/

namespace Local

variable {s s' u : Store σ} {result : Result}

theorem evolveMemory_ok {lib : Library σ} {call : ApplyCall σ} (ok : evolveMemory lib call s = (.ok result,s')) :
    ∃ content, applyMemoryDecision lib { call with mergedContent := content } s = (.ok result,s') := by
  unfold evolveMemory at ok
  split at ok
  · split at ok
    · split at ok
      · cases ok
      · exact ⟨_,ok⟩
    · exact ⟨_,ok⟩
  · exact ⟨_,ok⟩

theorem applyMemoryDecision_ok {lib : Library σ} {call : ApplyCall σ} :
    applyMemoryDecision lib call s = (.ok result,s') ↔ applyInSession lib call s = .ok (result,s') := by
  unfold applyMemoryDecision
  cases applyInSession lib call s with
  | error e => simp
  | ok p => simp [Prod.ext_iff]

theorem perform_action {lib : Library σ} {call : ApplyCall σ} {target : Option (Memory σ)} {ids : List MemoryId}
    (ok : perform lib call d target s = .ok (result,ids,u)) : result.action = action call d target := by
  have named : (reply call d target).action = action call d target := rfl
  unfold perform at ok
  simp only at ok
  split at ok
  · cases ok
    exact named
  · obtain ⟨_,_,ok⟩ := bind_ok.mp ok
    cases ok
    exact named
  · obtain ⟨_,_,ok⟩ := bind_ok.mp ok
    cases ok
    exact named
  · unfold supportTarget at ok
    dsimp only at ok
    split at ok
    · obtain ⟨_,_,ok⟩ := bind_ok.mp ok
      cases ok
      exact named
    · cases ok
      exact named
  · obtain ⟨_,_,ok⟩ := bind_ok.mp ok
    cases ok
    exact named
  · obtain ⟨_,_,ok⟩ := bind_ok.mp ok
    cases ok
    exact named
  · obtain ⟨_,_,ok⟩ := bind_ok.mp ok
    obtain ⟨_,_,ok⟩ := bind_ok.mp ok
    cases ok
    exact named
  · obtain ⟨_,_,ok⟩ := bind_ok.mp ok
    obtain ⟨_,_,ok⟩ := bind_ok.mp ok
    cases ok
    exact named
  · obtain ⟨_,_,ok⟩ := bind_ok.mp ok
    obtain ⟨_,_,ok⟩ := bind_ok.mp ok
    cases ok
    exact named
  · cases ok

theorem action_destructive {call : ApplyCall σ} {target : Option (Memory σ)} (destroys : (action call d target).destructive) :
    action call d target = d.recommendedAction := by
  unfold action at destroys ⊢
  split at destroys
  · cases destroys
  · rename_i kept
    exact if_neg kept

theorem permitted_of_calm (listed : k.Listed lib) (fits : k.Fits lib s) (calm : ¬k.Hasty lib)
    (ok : evolveMemory lib.toLibrary (k.call lib) s = (.ok result,s')) : k.Permitted lib s result := by
  obtain ⟨content,applied⟩ := evolveMemory_ok ok
  rcases applyInSession_ok.mp (applyMemoryDecision_ok.mp applied) with ⟨prior,_,rfl,_⟩ | ⟨_,target,chosen,_,ids,v,done,_⟩
  · exact fun destroys => absurd destroys (replay_mild prior)
  · refine permitted_of_settled listed fits calm chosen (fun destroys => ?_)
    rw [perform_action done] at destroys ⊢
    exact action_destructive destroys

end Local

/-! ### The completion that is too hasty -/

section
variable {found : TaskMatch σ}

def Store.only (m : Memory σ) : Store σ := { Store.empty σ with memories := ⟨[m],by simp⟩ }

theorem mem_only {t : Memory σ} : t ∈ (Store.only m).memories ↔ t = m := by
  simp [Store.only,Table.mem_def]

theorem only_apart (m : Memory σ) : (Store.only m).cardsApart := by
  intro a first b second same
  rw [mem_only.mp first,mem_only.mp second] at same
  exact same.1 rfl

theorem hasty_decided (orphan : k.orphan lib) (matched : lib.matchedTaskMemories k.candidate k.tasks = [found])
    (strong : found.kind ≠ .fuzzyTopic) (todo : found.memory.taskStatus = some .todo) :
    k.decided lib = (k.candidate.keyed found.memory,
      doneDecision k.decisionId (k.candidate.keyed found.memory) [found] .updateTask .updateTask "completion_claim",k.similar) := by
  unfold Consolidation.decided
  simp only [if_pos orphan,matched]
  rw [if_pos ⟨trivial,strong⟩,if_pos todo]

theorem hasty_consulted (orphan : k.orphan lib) (matched : lib.matchedTaskMemories k.candidate k.tasks = [found]) :
    k.consulted lib = [found.memory] := by
  unfold Consolidation.consulted
  rw [if_pos orphan,matched]
  rfl

structure Finishes (call : ApplyCall σ) (m : Memory σ) : Prop where
  action : call.decision.recommendedAction = .updateTask
  targets : call.decision.targetMemoryIds = [m.id]
  version : call.decision.targetSnapshotVersion = some m.currentVersion
  space : m.spaceId = call.spaceId

variable {call : ApplyCall σ}

theorem Finishes.target (finishes : Finishes call m) : call.target (.only m) = .ok (some m) := by
  have there : (Store.only m).memories.find? m.id = some m := Table.find?_mem (mem_only.mpr rfl)
  unfold ApplyCall.target
  rw [finishes.targets]
  simp only [List.head?_cons]
  rw [there]
  rfl

theorem Finishes.checked (finishes : Finishes call m) : call.checkCards (some m) (.only m) = .ok () := by
  have named : ¬call.created (.only m) := by
    rintro ⟨none,_⟩
    rw [finishes.targets] at none
    cases none
  unfold ApplyCall.checkCards
  refine bind_ok.mpr ⟨(),require_ok.mpr (fun both => named both.2),bind_ok.mpr ⟨(),require_ok.mpr (fun both => named both.2),
    bind_ok.mpr ⟨(),require_ok.mpr ?_,require_ok.mpr ?_⟩⟩⟩
  · rintro ⟨_,t,same,other | other⟩
    · exact other (Option.some.inj same ▸ finishes.space)
    · exact other (Option.some.inj same ▸ finishes.version.symm)
  · rintro ⟨_,t,same,other⟩
    exact other (Option.some.inj same ▸ finishes.version.symm)

theorem Finishes.settled (finishes : Finishes call m) (lib : Library σ) : call.settled lib (some m) = call.decision := by
  refine if_neg ?_
  rintro ⟨v,there,other⟩
  rw [finishes.version] at there
  exact other (Option.some.inj there).symm

theorem Finishes.applied (finishes : Finishes call m) (lib : Library σ) :
    ∃ result s', applyMemoryDecision lib call (.only m) = (.ok result,s') ∧ result.action = .updateTask := by
  have there : (Store.only m).memories.find? m.id = some m := Table.find?_mem (mem_only.mpr rfl)
  obtain ⟨result,ids,u,mutated⟩ : ∃ result ids u, mutateTarget lib call call.decision m (.only m) = .ok (result,ids,u) :=
    mutateTarget_total there (only_apart m) (fun n inside same => same.1 (by rw [mem_only.mp inside]; rfl))
  have done : perform lib call call.decision (some m) (.only m) = .ok (result,ids,u) := by
    unfold perform
    rw [finishes.action]
    exact mutated
  obtain ⟨v,gone,first,archived,_⟩ := mutateTarget_ok there mutated
  have empty : (markAffected lib call.candidate result u).decisions = .empty := archived.decisions.trans first.decisions
  obtain ⟨s',saved⟩ : ∃ s', saveDecision call.spaceId call.noteId call.decision (decidedStatus call.decision.recommendedAction) ids none
      call.now (markAffected lib call.candidate result u) = .ok s' :=
    saveDecision_total (by rw [empty]; exact fun r inside => absurd inside (Table.not_mem_empty r)) (by rw [empty]; rfl)
  refine ⟨result,s',?_,(perform_action done).trans finishes.action⟩
  refine applyMemoryDecision_ok.mpr (applyInSession_ok.mpr (.inr ⟨rfl,some m,finishes.target,finishes.checked,ids,u,?_,?_⟩))
  · rw [finishes.settled]
    exact done
  · rw [finishes.settled]
    exact saved

theorem hasty_finishes (orphan : k.orphan lib) (matched : lib.matchedTaskMemories k.candidate k.tasks = [found])
    (strong : found.kind ≠ .fuzzyTopic) (todo : found.memory.taskStatus = some .todo) (listed : k.Listed lib) :
    Finishes (k.call lib) found.memory := by
  have decided := hasty_decided orphan matched strong todo
  have mine := listed found.memory (by rw [hasty_consulted orphan matched]; exact List.mem_singleton.mpr rfl)
  refine ⟨?_,?_,?_,mine.2.1⟩
  · change (k.decided lib).2.1.recommendedAction = _
    rw [decided]
    rfl
  · change (k.decided lib).2.1.targetMemoryIds = _
    rw [decided]
    rfl
  · change (k.decided lib).2.1.targetSnapshotVersion = _
    rw [decided]
    rfl

theorem only_fits (orphan : k.orphan lib) (matched : lib.matchedTaskMemories k.candidate k.tasks = [found]) :
    k.Fits lib (.only found.memory) := by
  refine fits_of_read (fun m member => ?_)
  rw [hasty_consulted orphan matched] at member
  exact mem_only.mpr (List.mem_singleton.mp member)

namespace Local

/-- The same of the local store. -/
theorem finishes_applied (finishes : Finishes call m) (todo : m.taskStatus = some .todo) (lib : Library σ) :
    ∃ result s', applyMemoryDecision lib call (.only m) = (.ok result,s') ∧ result.action = .updateTask := by
  have named : action call call.decision (some m) = .updateTask := by
    unfold action
    rw [if_neg,finishes.action]
    rintro ⟨_,_,_,_,t,same,done⟩
    obtain rfl := Option.some.inj same
    rw [todo] at done
    cases done
  obtain ⟨result,ids,u,updated⟩ : ∃ result ids u, updateTask lib call (reply call call.decision (some m)) m (.only m) = .ok (result,ids,u) := by
    obtain ⟨sources,framed⟩ : ∃ sources, (addSourceRow m.id call.noteId .updatedBy (.only m)).2 = { Store.only m with sources } :=
      addSourceRow_frame
    have alone : ∀ n ∈ (Store.only m).memories.rows, ¬(changed m (taskMutation lib call m) call.now).sameCard n := by
      intro n inside same
      exact same.1 (by rw [mem_only.mp inside]; rfl)
    obtain ⟨v,written,rows⟩ : ∃ v, versionedUpdateRow m (taskMutation lib call m) (some call.decision.reason) (some call.noteId) call.now
        (addSourceRow m.id call.noteId .updatedBy (.only m)).2 = .ok v ∧
        v.memories = (Store.only m).memories.put (changed m (taskMutation lib call m) call.now) := by
      rw [framed]
      exact ⟨_,bind_ok.mpr ⟨(),require_ok.mpr alone,rfl⟩,rfl⟩
    have archived : archiveTerminalTaskDuplicatesRow lib m call.candidate (reply call call.decision (some m)).decisionId call.noteId
        call.now v = .ok ([],v) := by
      have none : duplicates lib call.candidate m v = [] := by
        unfold duplicates
        rw [rows]
        simp [Store.only,changed]
      unfold archiveTerminalTaskDuplicatesRow
      split
      · rfl
      · split
        · rfl
        · rw [none]
          rfl
    exact ⟨_,_,v,bind_ok.mpr ⟨v,written,bind_ok.mpr ⟨_,archived,rfl⟩⟩⟩
  have done : perform lib call call.decision (some m) (.only m) = .ok (result,ids,u) := by
    have same : (reply call call.decision (some m)).action = .updateTask := named
    unfold perform
    simp only [same]
    exact updated
  refine ⟨result,_,applyMemoryDecision_ok.mpr (applyInSession_ok.mpr (.inr ⟨rfl,some m,finishes.target,finishes.checked,ids,u,?_,rfl⟩)),
    (perform_action done).trans named⟩
  rw [finishes.settled]
  exact done

end Local

theorem hasty_forbidden (orphan : k.orphan lib) (matched : lib.matchedTaskMemories k.candidate k.tasks = [found])
    (strong : found.kind ≠ .fuzzyTopic) (todo : found.memory.taskStatus = some .todo)
    (below : max (4/5) k.candidate.confidence < lib.autoMutationMinConfidence) {s : Store σ} {result : Result}
    (updates : result.action = .updateTask) : ¬k.Permitted lib s result := by
  intro permitted
  obtain ⟨sure,_⟩ := permitted (by rw [updates]; rfl)
  have confidence : (k.call lib).decision.confidence = max (4/5) k.candidate.confidence := by
    change (k.decided lib).2.1.confidence = _
    rw [hasty_decided orphan matched strong todo]
    rfl
  rw [confidence] at sure
  exact absurd below (not_lt.mpr sure)

end

/-- For every candidate and whatever was found, answered and configured: the consolidation
changes only what it may, in every state of either store that the memories can have been
read from, unless the fallback of a completion is too hasty. -/
theorem permitted_iff (lib : Texts σ) (k : Consolidation σ) (listed : k.Listed lib) :
    ((∀ s, k.Fits lib s → ∀ result s', consolidateCandidate lib k s = (.ok result,s') → k.Permitted lib s result) ↔ ¬k.Hasty lib) ∧
      ((∀ s, k.Fits lib s → ∀ result s', Local.evolveMemory lib.toLibrary (k.call lib) s = (.ok result,s') →
        k.Permitted lib s result) ↔ ¬k.Hasty lib) := by
  refine ⟨⟨?_,fun calm s fits result s' => permitted_of_calm listed fits calm⟩,
    ⟨?_,fun calm s fits result s' => Local.permitted_of_calm listed fits calm⟩⟩
  · rintro permitted ⟨orphan,found,matched,strong,todo,below⟩
    have finishes := hasty_finishes orphan matched strong todo listed
    obtain ⟨result,s',applied,updates⟩ := finishes.applied lib.toLibrary
    have evolved : evolveMemory lib.toLibrary (k.call lib) (.only found.memory) = (.ok result,s') := by
      unfold evolveMemory
      rw [finishes.targets]
      simp only [List.head?_cons]
      rw [if_neg (by rw [finishes.action]; decide)]
      exact applied
    obtain ⟨u,consolidated⟩ : ∃ u, consolidateCandidate lib k (.only found.memory) = (.ok result,u) := by
      unfold consolidateCandidate
      rw [evolved]
      exact ⟨_,rfl⟩
    exact hasty_forbidden orphan matched strong todo below updates (permitted _ (only_fits orphan matched) result u consolidated)
  · rintro permitted ⟨orphan,found,matched,strong,todo,below⟩
    have finishes := hasty_finishes orphan matched strong todo listed
    obtain ⟨result,s',applied,updates⟩ := Local.finishes_applied finishes todo lib.toLibrary
    have evolved : Local.evolveMemory lib.toLibrary (k.call lib) (.only found.memory) = (.ok result,s') := by
      unfold Local.evolveMemory
      rw [finishes.targets]
      simp only [List.head?_cons]
      rw [if_neg (by rw [finishes.action]; decide)]
      exact applied
    exact hasty_forbidden orphan matched strong todo below updates (permitted _ (only_fits orphan matched) result s' evolved)

/-- Texts in which every task matches, where a change takes a confidence of nine tenths. -/
def Texts.strict : Texts Unit := { Texts.keyed Unit with
  taskMatchKind := fun _ _ => some (.exactKey,1)
  autoMutationMinConfidence := 9/10 }

/-- A completion that finds the task only by its fallback. -/
def reportFinished : Consolidation Unit := {
  spaceId := 0,noteId := 2,candidate := report 2 .done done_writable,similar := [],tasks := [(report 1 .todo todo_writable).row (.plain Unit) 1 0 .active 0]
  decisionId := 2,newId := 2,now := 1 }

/-- The task is finished on a confidence of four fifths. -/
theorem finished_too_hastily : let s := Store.only ((report 1 .todo todo_writable).row (.plain Unit) 1 0 .active 0)
    ∃ result s', consolidateCandidate .strict reportFinished s = (.ok result,s') ∧ result.action = .updateTask ∧
      (reportFinished.call .strict).decision.confidence = 4/5 ∧ ¬reportFinished.Permitted .strict s result := by
  intro s
  have confidence : (reportFinished.call .strict).decision.confidence = 4/5 := by decide +kernel
  refine ⟨{
    action := .updateTask
    relation := .updateTask
    decisionId := 2
    memoryId := some 1
    sourceAdded := some true
    taskStatus := some .done },_,Prod.ext (by decide +kernel) rfl,rfl,confidence,fun permitted => ?_⟩
  obtain ⟨sure,_⟩ := permitted rfl
  rw [confidence] at sure
  exact absurd sure (by decide +kernel)

theorem permitted_iff_finished :
    (∀ s, reportFinished.Fits .strict s → ∀ result s', consolidateCandidate .strict reportFinished s = (.ok result,s') →
      reportFinished.Permitted .strict s result) ↔ ¬reportFinished.Hasty .strict :=
  (permitted_iff .strict reportFinished (by unfold Consolidation.Listed; decide +kernel)).1

end Suixinji.Memories
