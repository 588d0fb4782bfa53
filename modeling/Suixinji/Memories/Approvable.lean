import Suixinji.Memories.Consolidate
import Suixinji.Memories.Waiting

/-! Which candidates that are left to the review can be approved. -/
namespace Suixinji.Memories
open Relational Checked Ranking

variable {σ : Type} {lib : Texts σ} {c : Candidate σ} {memories : List (Memory σ)} {answer : Option Identity}
  {decisionId : DecisionId} {d : Decision} {m : Memory σ}

def DecisionRelation.approvable (relation : DecisionRelation) : Prop :=
  relation = .merge ∨ relation = .updateTask ∨ relation = .supersede ∨ relation = .conflict

instance (relation : DecisionRelation) : Decidable relation.approvable := inferInstanceAs (Decidable (_ ∨ _))

/-! ### The guard -/

/-- What the guard says leads to no review, or to one that an approval carries out. -/
def RelationGuardResult.clear (g : RelationGuardResult) : Prop :=
  g.relation = .new ∧ g.action = .insert ∨ g.relation = .same ∧ g.action = .addSource ∨ g.relation.approvable

def RelationGuardResult.bare (g : RelationGuardResult) : Prop := g.relation = .update ∧ g.action = .update

theorem evaluateTask_clear (lib : Texts σ) (c : Candidate σ) (m : Memory σ) : (lib.evaluateTask c m).clear := by
  unfold Texts.evaluateTask
  dsimp only
  split_ifs <;> simp [RelationGuardResult.clear,DecisionRelation.approvable]

theorem evaluatePreference_cases (lib : Texts σ) (exactKey : Bool) (c : Candidate σ) (m : Memory σ) :
    (lib.evaluatePreference exactKey c m).clear ∨ ((lib.evaluatePreference exactKey c m).bare ∧ exactKey) := by
  unfold Texts.evaluatePreference
  dsimp only
  split_ifs <;> simp_all [RelationGuardResult.clear,RelationGuardResult.bare,DecisionRelation.approvable]

theorem evaluateEvent_cases (lib : Texts σ) (exactKey : Bool) (c : Candidate σ) (m : Memory σ) :
    (lib.evaluateEvent exactKey c m).clear ∨ ((lib.evaluateEvent exactKey c m).bare ∧ exactKey) := by
  unfold Texts.evaluateEvent
  dsimp only
  split_ifs <;> simp_all [RelationGuardResult.clear,RelationGuardResult.bare,DecisionRelation.approvable]

theorem evaluateRelation_cases (lib : Texts σ) (c : Candidate σ) (m : Memory σ) :
    (lib.evaluateRelation c m).clear ∨ ((lib.evaluateRelation c m).bare ∧ m ∈ lib.exact c [m]) := by
  have exact : c.effectiveMemoryKey lib.toLibrary = m.effectiveMemoryKey lib.toLibrary → m ∈ lib.exact c [m] :=
    fun same => by simp [Texts.exact,same]
  unfold Texts.evaluateRelation
  dsimp only
  split
  · exact .inl (.inl ⟨rfl,rfl⟩)
  split
  · exact .inl (.inr (.inr (.inr (.inr (.inr rfl)))))
  cases c.memoryType with
  | task => exact .inl (evaluateTask_clear lib c m)
  | semantic =>
    dsimp only
    split
    · exact .inl (.inr (.inl ⟨rfl,rfl⟩))
    · exact .inl (.inl ⟨rfl,rfl⟩)
  | preference =>
    exact (evaluatePreference_cases lib _ c m).imp_right (And.imp_right (fun same => exact (of_decide_eq_true same)))
  | episodic =>
    exact (evaluateEvent_cases lib _ c m).imp_right (And.imp_right (fun same => exact (of_decide_eq_true same)))

/-! ### Single decisions -/

def Decision.clear (d : Decision) : Prop :=
  d.recommendedAction = .pendingReview → d.relation.approvable ∧ ∃ id, d.targetMemoryIds = [id]

/-- A decision that no approval carries out, made on the version of one memory if of any. -/
structure Decision.stuck (d : Decision) (pin : Option (Memory σ)) : Prop where
  action : d.recommendedAction = .pendingReview
  relation : d.relation = .update ∨ d.relation = .ambiguousMatch
  head : ∀ m ∈ pin, d.targetMemoryIds.head? = some m.id
  version : d.targetSnapshotVersion = pin.map Memory.currentVersion

theorem Decision.stuck.not_clear {pin : Option (Memory σ)} (stuck : d.stuck pin) : ¬d.clear := by
  intro clear
  obtain ⟨approvable,_⟩ := clear stuck.action
  rcases stuck.relation with update | ambiguous
  · simp [DecisionRelation.approvable,update] at approvable
  · simp [DecisionRelation.approvable,ambiguous] at approvable

section
variable {relation : DecisionRelation} {action : DecisionAction} {confidence : ℚ} {reason : String} {targets : List (Memory σ)}

theorem decision_clear (approvable : relation.approvable) :
    (lib.decision decisionId c relation action confidence reason [m]).clear := fun _ => ⟨approvable,m.id,rfl⟩

theorem decision_settled (mild : ¬action.destructive) (other : action ≠ .pendingReview) :
    (lib.decision decisionId c relation action confidence reason targets).clear := by
  intro pends
  simp only [Texts.decision,mild,Bool.false_and,Bool.false_eq_true,↓reduceIte] at pends
  exact absurd pends other

theorem decision_new : (lib.decision decisionId c relation .insert confidence reason targets).clear :=
  decision_settled (by decide) (by decide)

theorem decision_source : (lib.decision decisionId c relation .addSource confidence reason targets).clear :=
  decision_settled (by decide) (by decide)

theorem decision_ambiguous :
    (lib.decision decisionId c .ambiguousMatch .pendingReview confidence reason targets).stuck targets.head? := by
  refine ⟨?_,.inr rfl,fun m first => ?_,rfl⟩
  · simp [Texts.decision,DecisionAction.destructive]
  · simp only [Texts.decision,List.head?_map]
    exact congrArg (Option.map Memory.id) first

theorem decision_sure (sure : ¬min 1 (max 0 confidence) < lib.autoMutationMinConfidence) (other : action ≠ .pendingReview) :
    (lib.decision decisionId c relation action confidence reason targets).clear := by
  intro pends
  simp only [Texts.decision,sure,decide_false,Bool.and_false,Bool.false_eq_true,↓reduceIte] at pends
  exact absurd pends other

/-- A change that is not sure enough is left to the review. -/
theorem decision_weak (weak : min 1 (max 0 confidence) < lib.autoMutationMinConfidence) :
    (lib.decision decisionId c .update .update confidence reason [m]).stuck (some m) := by
  refine ⟨?_,.inl rfl,fun m' same => ?_,rfl⟩
  · simp [Texts.decision,DecisionAction.destructive,weak]
  · obtain rfl : m = m' := Option.some.inj same
    rfl

theorem decision_guarded {g : RelationGuardResult} (clear : g.clear) :
    (lib.decision decisionId c g.relation g.action confidence reason [m]).clear := by
  rcases clear with ⟨_,new⟩ | ⟨_,source⟩ | approvable
  · rw [new]
    exact decision_new
  · rw [source]
    exact decision_source
  · exact decision_clear approvable

end

/-! ### The adjudicator -/

section
variable (lib : Texts σ) (c : Candidate σ) (memories : List (Memory σ)) (answer : Option Identity)

/-- The model does not say which memory it is. -/
def Identity.unsure (answer : Identity) (memories : List (Memory σ)) : Prop :=
  answer.relation = .uncertain ∨
    answer.relation ≠ .different ∧ answer.relation ≠ .sameFamily ∧ answer.target memories = none

/-- The model gives no answer that settles a candidate of its type. -/
def Texts.silent : Prop := ∀ a ∈ lib.decisive c answer, (a.target memories).isSome ∧
  (a.relation = .sameInstance ∧ c.memoryType ≠ .task ∨ a.relation = .sameAssertion ∧ c.memoryType ≠ .preference)

/-- The candidate is judged by the guard. -/
structure Texts.Guarded : Prop where
  store : c.shouldStore
  found : memories ≠ []
  mutable : c.memoryType ≠ .semantic
  guarded : lib.relationGuardV3 && lib.isV3Candidate c

/-- The candidates that the adjudicator leaves to a review which cannot approve them,
with the memory whose version it was that counted. -/
inductive Texts.Stranded : Option (Memory σ) → Prop
  /-- no memory has the key, and the model does not say which one it is -/
  | unidentified {a : Identity} (store : c.shouldStore) (found : memories ≠ []) (unknown : lib.exact c memories = [])
      (decisive : lib.decisive c answer = some a) (unsure : a.unsure memories) : Stranded (a.target memories)
  /-- several memories have the key -/
  | sameKey (guarded : lib.Guarded c memories) (several : 1 < (lib.exact c memories).length) :
      Stranded (lib.exact c memories).head?
  /-- several tasks could be changed by it -/
  | sameTask (guarded : lib.Guarded c memories) (unknown : lib.exact c memories = []) (silent : lib.silent c memories answer)
      (task : c.memoryType = .task) (several : 1 < (lib.refinements c memories).length) :
      Stranded (lib.refinements c memories).head?
  /-- the guard calls it an update, on too little confidence -/
  | bareUpdate {m : Memory σ} (guarded : lib.Guarded c memories) (single : lib.exact c memories = [m])
      (free : c.memoryType = .preference → lib.conflicts c memories = [])
      (update : (lib.evaluateRelation c m).relation = .update)
      (weak : min 1 (max 0 (combinedConfidence c (max (4/5) (lib.similarity c m)))) < lib.autoMutationMinConfidence) :
      Stranded (some m)

end

theorem newest_eq_none : newest memories = none ↔ memories = [] := greatest_eq_none

theorem identifiedTask_clear {confidence : ℚ} {reason : String} :
    (lib.identifiedTask decisionId c m confidence reason).clear := by
  unfold Texts.identifiedTask
  dsimp only
  split
  · exact decision_clear (by decide)
  split
  · exact decision_clear (by decide)
  split
  · split
    · exact decision_clear (by decide)
    · exact decision_source
  split
  · exact decision_clear (by decide)
  · exact decision_clear (by decide)

theorem identifiedPreference_clear {confidence : ℚ} {reason : String} :
    (lib.identifiedPreference decisionId c m confidence reason).clear := by
  unfold Texts.identifiedPreference
  dsimp only
  split
  · exact decision_clear (by decide)
  split
  · exact decision_source
  split
  · exact decision_clear (by decide)
  · exact decision_clear (by decide)

theorem identityAdjudicatedDecision_cases (lib : Texts σ) (decisionId : DecisionId) (c : Candidate σ)
    (memories : List (Memory σ)) (answer : Option Identity) :
    (lib.identityAdjudicatedDecision decisionId c memories answer = none ∧ lib.silent c memories answer) ∨
      ∃ d a, lib.identityAdjudicatedDecision decisionId c memories answer = some d ∧ lib.decisive c answer = some a ∧
        ¬lib.silent c memories answer ∧
        (d.clear ∧ ¬a.unsure memories ∨ a.unsure memories ∧ d.stuck (a.target memories)) := by
  unfold Texts.identityAdjudicatedDecision Texts.silent
  cases decisive : lib.decisive c answer with
  | none => exact .inl ⟨rfl,nofun⟩
  | some a =>
    have only {p : Identity → Prop} : (∀ b ∈ some a, p b) ↔ p a := by simp
    simp only [Option.bind_eq_bind,Option.bind_some,only]
    cases named : a.relation with
    | different => exact .inr ⟨_,a,rfl,rfl,by simp,.inl ⟨decision_new,by simp [Identity.unsure,named]⟩⟩
    | sameFamily => exact .inr ⟨_,a,rfl,rfl,by simp,.inl ⟨decision_new,by simp [Identity.unsure,named]⟩⟩
    | uncertain =>
      refine .inr ⟨_,a,rfl,rfl,by simp,.inr ⟨.inl named,?_⟩⟩
      have stuck : (lib.decision decisionId c .ambiguousMatch .pendingReview a.confidence
          ("llm_identity:" ++ orText a.reasonCode IdentityRelation.uncertain.text) (a.target memories).toList).stuck
          (a.target memories).toList.head? := decision_ambiguous
      simpa using stuck
    | sameInstance =>
      cases target : a.target memories with
      | none =>
        refine .inr ⟨_,a,rfl,rfl,by simp,.inr ⟨.inr (by simp [named,target]),?_⟩⟩
        rw [target]
        exact decision_ambiguous
      | some m =>
        by_cases task : c.memoryType = .task
        · exact .inr ⟨_,a,if_pos task,rfl,by simp [task],
            .inl ⟨identifiedTask_clear,by simp [Identity.unsure,named,target]⟩⟩
        · exact .inl ⟨if_neg task,by simp [task]⟩
    | sameAssertion =>
      cases target : a.target memories with
      | none =>
        refine .inr ⟨_,a,rfl,rfl,by simp,.inr ⟨.inr (by simp [named,target]),?_⟩⟩
        rw [target]
        exact decision_ambiguous
      | some m =>
        by_cases preference : c.memoryType = .preference
        · exact .inr ⟨_,a,if_pos preference,rfl,by simp [preference],
            .inl ⟨identifiedPreference_clear,by simp [Identity.unsure,named,target]⟩⟩
        · exact .inl ⟨if_neg preference,by simp [preference]⟩

theorem adjudicateSemantic_clear : (lib.adjudicateSemantic decisionId c memories).clear := by
  unfold Texts.adjudicateSemantic
  split
  · exact decision_source
  · exact decision_new

theorem adjudicateBest_clear : (lib.adjudicateBest decisionId c m).clear := by
  unfold Texts.adjudicateBest
  dsimp only
  split
  · exact decision_source
  split
  · split
    · exact decision_clear (by decide)
    · exact decision_clear (by decide)
  split
  · exact decision_clear (by decide)
  split
  · exact decision_clear (by decide)
  split
  · exact decision_clear (by decide)
  · exact decision_new

theorem adjudicateV2_clear : (lib.adjudicateV2 decisionId c memories).clear := by
  unfold Texts.adjudicateV2
  split
  · exact decision_new
  · split
    · exact decision_new
    · exact adjudicateBest_clear

theorem preferenceByScope_clear (found : lib.preferenceByScope decisionId c memories = some d) : d.clear := by
  unfold Texts.preferenceByScope at found
  dsimp only at found
  split at found
  · split at found
    · cases found
      exact decision_source
    · cases found
      exact decision_clear (by decide)
  · split at found
    · obtain ⟨m,_,rfl⟩ := Option.map_eq_some_iff.mp found
      exact decision_clear (by decide)
    · cases found

theorem exact_of_bare (member : m ∈ memories) (key : m ∈ lib.exact c [m]) : m ∈ lib.exact c memories := by
  unfold Texts.exact at key ⊢
  exact List.mem_filter.mpr ⟨member,(List.mem_filter.mp key).2⟩

theorem adjudicateRefinement_clear (unknown : lib.exact c memories = [])
    (single : ¬(c.memoryType = .task ∧ 1 < (lib.refinements c memories).length)) :
    (lib.adjudicateRefinement decisionId c memories).clear := by
  unfold Texts.adjudicateRefinement
  dsimp only
  rw [if_neg single]
  split
  · exact decision_new
  · rename_i best chosen
    have member : best ∈ memories := List.mem_of_mem_filter (greatest_mem chosen)
    rcases evaluateRelation_cases lib c best with clear | ⟨_,key⟩
    · exact decision_guarded clear
    · exact absurd (exact_of_bare member key) (by simp [unknown])

section
variable (mutable : c.memoryType ≠ .semantic)
include mutable

theorem adjudicateV3_sameKey (several : 1 < (lib.exact c memories).length) :
    (lib.adjudicateV3 decisionId c memories).stuck (lib.exact c memories).head? := by
  unfold Texts.adjudicateV3
  dsimp only
  rw [if_neg mutable,if_pos several]
  exact decision_ambiguous

theorem adjudicateV3_unknown (unknown : lib.exact c memories = []) (free : c.memoryType ≠ .preference) :
    lib.adjudicateV3 decisionId c memories = lib.adjudicateRefinement decisionId c memories := by
  unfold Texts.adjudicateV3
  dsimp only
  rw [if_neg mutable,unknown,if_neg (by simp),if_neg free,if_neg free]
  rfl

theorem adjudicateV3_single (single : lib.exact c memories = [m])
    (free : c.memoryType = .preference → lib.conflicts c memories = []) :
    lib.adjudicateV3 decisionId c memories = lib.decision decisionId c (lib.evaluateRelation c m).relation
      (lib.evaluateRelation c m).action (lib.guardedConfidence c m) (lib.evaluateRelation c m).reason [m] := by
  have none : (if c.memoryType = .preference then newest (lib.conflicts c memories) else none) = none := by
    split
    · rename_i preference
      rw [free preference]
      rfl
    · rfl
  unfold Texts.adjudicateV3
  dsimp only
  rw [if_neg mutable,single,if_neg (by simp),none]
  rfl

end

theorem guardedConfidence_bare (bare : (lib.evaluateRelation c m).bare) :
    lib.guardedConfidence c m = combinedConfidence c (max (4/5) (lib.similarity c m)) := by
  unfold Texts.guardedConfidence
  dsimp only
  rw [bare.2,if_neg (by decide),if_pos (.inl rfl)]

theorem bare_of_update (update : (lib.evaluateRelation c m).relation = .update) : (lib.evaluateRelation c m).bare := by
  rcases evaluateRelation_cases lib c m with clear | ⟨bare,_⟩
  · rw [RelationGuardResult.clear,update] at clear
    simp [DecisionRelation.approvable] at clear
  · exact bare

theorem adjudicateV3_cases (guarded : lib.Guarded c memories) (silent : lib.exact c memories = [] → lib.silent c memories answer) :
    (lib.adjudicateV3 decisionId c memories).clear ∨
      ∃ pin, lib.Stranded c memories answer pin ∧ (lib.adjudicateV3 decisionId c memories).stuck pin := by
  by_cases several : 1 < (lib.exact c memories).length
  · exact .inr ⟨_,.sameKey guarded several,adjudicateV3_sameKey guarded.mutable several⟩
  cases exact : lib.exact c memories with
  | nil =>
    by_cases tasks : c.memoryType = .task ∧ 1 < (lib.refinements c memories).length
    · refine .inr ⟨_,.sameTask guarded exact (silent exact) tasks.1 tasks.2,?_⟩
      rw [adjudicateV3_unknown guarded.mutable exact (by simp [tasks.1]),Texts.adjudicateRefinement]
      dsimp only
      rw [if_pos tasks]
      exact decision_ambiguous
    · left
      have refined : (lib.adjudicateRefinement decisionId c memories).clear := adjudicateRefinement_clear exact tasks
      unfold Texts.adjudicateV3
      dsimp only
      rw [if_neg guarded.mutable,if_neg several,exact]
      split
      · exact decision_clear (by decide)
      · split
        · cases named : lib.preferenceByScope decisionId c memories with
          | none => exact refined
          | some d => exact preferenceByScope_clear named
        · exact refined
      · rename_i none
        cases none
  | cons m others =>
    obtain rfl : others = [] := by
      rw [exact] at several
      simpa using several
    by_cases free : c.memoryType = .preference → lib.conflicts c memories = []
    · rw [adjudicateV3_single guarded.mutable exact free]
      rcases evaluateRelation_cases lib c m with clear | ⟨bare,_⟩
      · exact .inl (decision_guarded clear)
      · rw [guardedConfidence_bare bare,bare.1,bare.2]
        by_cases weak : min 1 (max 0 (combinedConfidence c (max (4/5) (lib.similarity c m)))) < lib.autoMutationMinConfidence
        · exact .inr ⟨_,.bareUpdate guarded exact free bare.1 weak,decision_weak weak⟩
        · exact .inl (decision_sure weak (by decide))
    · obtain ⟨preference,conflicts⟩ := Classical.not_imp.mp free
      left
      unfold Texts.adjudicateV3
      dsimp only
      rw [if_neg guarded.mutable,if_neg several,if_pos preference]
      split
      · exact decision_clear (by decide)
      · rename_i none _
        exact absurd (newest_eq_none.mp none) conflicts
      · rename_i none _
        exact absurd (newest_eq_none.mp none) conflicts

theorem adjudicateMemory_cases (lib : Texts σ) (decisionId : DecisionId) (c : Candidate σ) (memories : List (Memory σ))
    (answer : Option Identity) : (lib.adjudicateMemory decisionId c memories answer).clear ∨
      ∃ pin, lib.Stranded c memories answer pin ∧ (lib.adjudicateMemory decisionId c memories answer).stuck pin := by
  unfold Texts.adjudicateMemory
  split
  · exact .inl (decision_settled (by decide) (by decide))
  rename_i store
  split
  · exact .inl decision_new
  rename_i found
  split
  · exact .inl adjudicateSemantic_clear
  rename_i mutable
  have rules (silent : lib.exact c memories = [] → lib.silent c memories answer) :
      (if lib.relationGuardV3 && lib.isV3Candidate c then lib.adjudicateV3 decisionId c memories
        else lib.adjudicateV2 decisionId c memories).clear ∨
      ∃ pin, lib.Stranded c memories answer pin ∧
        (if lib.relationGuardV3 && lib.isV3Candidate c then lib.adjudicateV3 decisionId c memories
          else lib.adjudicateV2 decisionId c memories).stuck pin := by
    split
    · rename_i guarded
      exact adjudicateV3_cases ⟨by simpa using store,found,mutable,guarded⟩ silent
    · exact .inl adjudicateV2_clear
  by_cases unknown : lib.exact c memories = []
  · simp only [if_pos unknown]
    rcases identityAdjudicatedDecision_cases lib decisionId c memories answer with ⟨none,silent⟩ | ⟨d,a,same,decisive,_,⟨clear,_⟩ | ⟨unsure,stuck⟩⟩
    · rw [none]
      exact rules (fun _ => silent)
    · rw [same]
      exact .inl clear
    · rw [same]
      exact .inr ⟨_,.unidentified (by simpa using store) found unknown decisive unsure,stuck⟩
  · simp only [if_neg unknown]
    exact rules (fun absent => absurd absent unknown)

theorem adjudicateMemory_guarded (guarded : lib.Guarded c memories)
    (silent : lib.exact c memories = [] → lib.silent c memories answer) :
    lib.adjudicateMemory decisionId c memories answer = lib.adjudicateV3 decisionId c memories := by
  unfold Texts.adjudicateMemory
  rw [if_neg (by simp [guarded.store]),if_neg guarded.found,if_neg guarded.mutable]
  simp only [guarded.guarded,↓reduceIte]
  split
  · rename_i unknown
    rcases identityAdjudicatedDecision_cases lib decisionId c memories answer with ⟨none,_⟩ | ⟨_,_,_,_,heard,_⟩
    · rw [none]
      rfl
    · exact absurd (silent unknown) heard
  · rfl

/-- A candidate that is stranded is left to a review that cannot approve it. -/
theorem stranded_stuck {pin : Option (Memory σ)} (stranded : lib.Stranded c memories answer pin) :
    (lib.adjudicateMemory decisionId c memories answer).stuck pin := by
  cases stranded with
  | unidentified store found unknown decisive unsure =>
    have mutable : c.memoryType ≠ .semantic := by
      intro semantic
      simp [Texts.decisive,semantic] at decisive
    unfold Texts.adjudicateMemory
    rw [if_neg (by simp [store]),if_neg found,if_neg mutable]
    simp only [if_pos unknown]
    rcases identityAdjudicatedDecision_cases lib decisionId c memories answer with
      ⟨_,silent⟩ | ⟨d,a,same,decisive',_,⟨_,sure⟩ | ⟨_,stuck⟩⟩
    · obtain ⟨target,named⟩ := silent _ decisive
      rcases unsure with uncertain | ⟨_,_,none⟩
      · simp [uncertain] at named
      · simp [none] at target
    · obtain rfl := Option.some.inj (decisive.symm.trans decisive')
      exact absurd unsure sure
    · obtain rfl := Option.some.inj (decisive.symm.trans decisive')
      rw [same]
      exact stuck
  | sameKey guarded several =>
    rw [adjudicateMemory_guarded guarded (fun unknown => by simp [unknown] at several)]
    exact adjudicateV3_sameKey guarded.mutable several
  | sameTask guarded unknown silent task several =>
    rw [adjudicateMemory_guarded guarded (fun _ => silent),adjudicateV3_unknown guarded.mutable unknown (by simp [task]),
      Texts.adjudicateRefinement]
    dsimp only
    rw [if_pos ⟨task,several⟩]
    exact decision_ambiguous
  | bareUpdate guarded single free update weak =>
    have bare := bare_of_update update
    rw [adjudicateMemory_guarded guarded (fun unknown => by simp [unknown] at single),
      adjudicateV3_single guarded.mutable single free,guardedConfidence_bare bare,bare.1,bare.2]
    exact decision_weak weak

/-! ### The consolidation -/

section
variable (lib : Texts σ) (k : Consolidation σ)

/-- The candidates that `consolidate_candidate` leaves to a review which cannot approve them. -/
inductive Consolidation.Stranded : Option (Memory σ) → Prop
  | judged {pin : Option (Memory σ)} (stranded : lib.Stranded k.candidate k.similar k.answer pin) : Stranded pin
  /-- a completion without a task, judged as an event -/
  | event {pin : Option (Memory σ)} (orphan : k.orphan lib) (none : lib.matchedTaskMemories k.candidate k.tasks = [])
      (stranded : lib.Stranded (lib.asEvent k.candidate) k.events k.eventAnswer pin) : Stranded pin
  /-- a completion of one of several tasks -/
  | completion (orphan : k.orphan lib) (several : 1 < (lib.matchedTaskMemories k.candidate k.tasks).length) : Stranded none
  /-- a completion of a task that is only similar -/
  | similar {m : TaskMatch σ} (orphan : k.orphan lib) (single : lib.matchedTaskMemories k.candidate k.tasks = [m])
      (fuzzy : m.kind = .fuzzyTopic) : Stranded (some m.memory)

/-- What would strand the candidate was made on a memory that has changed since. -/
def Consolidation.approvable (s : Store σ) : Prop :=
  ∀ pin, k.Stranded lib pin → ∃ m ∈ pin, ∃ t ∈ s.memories.find? m.id, t.currentVersion ≠ m.currentVersion

end

variable {k : Consolidation σ}

theorem doneDecision_several {matched : List (TaskMatch σ)} {reason : String} (several : 1 < matched.length) :
    (doneDecision decisionId c matched .ambiguousMatch .pendingReview reason).stuck (none : Option (Memory σ)) := by
  refine ⟨rfl,.inr rfl,by simp,?_⟩
  simp only [doneDecision,Option.map_none]
  rw [if_neg (Nat.ne_of_gt several)]

theorem doneDecision_similar {found : TaskMatch σ} {reason : String} :
    (doneDecision decisionId c [found] .ambiguousMatch .pendingReview reason).stuck (some found.memory) :=
  ⟨rfl,.inr rfl,fun m same => by rw [← Option.some.inj same]; rfl,rfl⟩

theorem doneDecision_clear {matched : List (TaskMatch σ)} {relation : DecisionRelation} {action : DecisionAction}
    {reason : String} (other : action ≠ .pendingReview) :
    (doneDecision decisionId c matched relation action reason).clear := fun pends => absurd pends other

theorem decided_cases (lib : Texts σ) (k : Consolidation σ) :
    (k.decided lib).2.1.clear ∨ ∃ pin, k.Stranded lib pin ∧ (k.decided lib).2.1.stuck pin := by
  unfold Consolidation.decided
  dsimp only
  split
  · rename_i orphan
    split
    · rename_i none
      rcases adjudicateMemory_cases lib k.decisionId (lib.asEvent k.candidate) k.events k.eventAnswer with
        clear | ⟨pin,stranded,stuck⟩
      · exact .inl clear
      · exact .inr ⟨pin,.event orphan none stranded,stuck.action,stuck.relation,stuck.head,stuck.version⟩
    · rename_i found others matched
      split
      · left
        dsimp only
        split
        · exact doneDecision_clear (by decide)
        · exact doneDecision_clear (by decide)
      · rename_i unclear
        right
        cases others with
        | nil =>
          have fuzzy : found.kind = .fuzzyTopic := by simpa using unclear
          exact ⟨_,.similar orphan matched fuzzy,doneDecision_similar⟩
        | cons other others =>
          have several : 1 < (found::other::others).length := by simp
          exact ⟨_,.completion orphan (by rw [matched]; exact several),doneDecision_several several⟩
  · rcases adjudicateMemory_cases lib k.decisionId k.candidate k.similar k.answer with clear | ⟨pin,stranded,stuck⟩
    · exact .inl clear
    · exact .inr ⟨pin,.judged stranded,stuck⟩

theorem decided_stuck {pin : Option (Memory σ)} (stranded : k.Stranded lib pin) : (k.decided lib).2.1.stuck pin := by
  unfold Consolidation.decided
  dsimp only
  cases stranded with
  | judged stranded =>
    have stuck : (lib.adjudicateMemory k.decisionId k.candidate k.similar k.answer).stuck pin := stranded_stuck stranded
    have known : ¬k.orphan lib := by
      rintro ⟨_,_,insert⟩
      rw [stuck.action] at insert
      cases insert
    rw [if_neg known]
    exact stuck
  | event orphan none stranded =>
    have stuck : (lib.adjudicateMemory k.decisionId (lib.asEvent k.candidate) k.events k.eventAnswer).stuck pin :=
      stranded_stuck stranded
    rw [if_pos orphan,none]
    exact ⟨stuck.action,stuck.relation,stuck.head,stuck.version⟩
  | completion orphan several =>
    rw [if_pos orphan]
    cases matched : lib.matchedTaskMemories k.candidate k.tasks with
    | nil => simp [matched] at several
    | cons found others =>
      rw [matched] at several
      have more : ¬(others = [] ∧ found.kind ≠ .fuzzyTopic) := by
        rintro ⟨rfl,_⟩
        simp at several
      simp only [if_neg more]
      exact doneDecision_several several
  | similar orphan single fuzzy =>
    rw [if_pos orphan,single]
    simp only [fuzzy,ne_eq,not_true_eq_false,and_false,↓reduceIte]
    exact doneDecision_similar

/-! ### Storing and approving -/

section
variable {s s' : Store σ} {result : Result} {later : Time}

theorem evolveMemory_ok {lib : Library σ} {call : ApplyCall σ} (ok : evolveMemory lib call s = (.ok result,s')) :
    ∃ content, applyMemoryDecision lib { call with mergedContent := content } s = (.ok result,s') := by
  unfold evolveMemory at ok
  split at ok
  · split at ok
    · split at ok
      · cases ok
      · exact ⟨_,ok⟩
    · exact ⟨_,ok⟩
  · exact ⟨_,ok⟩

theorem consolidateCandidate_ok (ok : consolidateCandidate lib k s = (.ok result,s')) :
    ∃ content u, applyMemoryDecision lib.toLibrary { k.call lib with mergedContent := content } s = (.ok result,u) ∧
      s'.memories = u.memories ∧ s'.decisions = u.decisions := by
  unfold consolidateCandidate at ok
  dsimp only at ok
  split at ok
  · rename_i _ r u evolved
    obtain ⟨same,rest⟩ := Prod.mk.inj ok
    obtain rfl := Except.ok.inj same
    obtain ⟨content,applied⟩ := evolveMemory_ok evolved
    refine ⟨content,u,applied,?_⟩
    subst rest
    split
    · unfold addSourceCommand
      split
      · exact ⟨rfl,rfl⟩
      · dsimp only
        split
        · exact ⟨rfl,rfl⟩
        · exact ⟨rfl,rfl⟩
    · exact ⟨rfl,rfl⟩
  · obtain ⟨same,_⟩ := Prod.mk.inj ok
    cases same

theorem supported_approves {lib : Library σ} {call : ApplyCall σ} {t : Memory σ} (waiting : Waiting lib call d s s')
    (found : s.memories.find? t.id = some t) (head : d.targetMemoryIds.head? = some t.id) (named : d.relation.approvable) :
    ∃ s₃, Approves lib call.newId d.decisionId later s' s₃ := by
  rcases named with merge | task | supersede | conflict
  · obtain ⟨s₃,approves,_⟩ := waiting.mutated later found head false merge
    exact ⟨s₃,approves⟩
  · obtain ⟨s₃,approves,_⟩ := waiting.mutated later found head true task
    exact ⟨s₃,approves⟩
  · obtain ⟨s₃,approves,_⟩ := waiting.replaced later found head true supersede
    exact ⟨s₃,approves⟩
  · obtain ⟨s₃,approves,_⟩ := waiting.replaced later found head false conflict
    exact ⟨s₃,approves⟩

/-- What waits for review is approved by its approval, unless a decision that cannot be
approved was made on memories that are still as they were. -/
theorem consolidated_approvable (apart : s.cardsApart) (drawn : (k.call lib).drawn s)
    (stored : consolidateCandidate lib k s = (.ok result,s')) (pends : result.action = .pendingReview)
    (new : result.idempotent = false) :
    (∃ s₃, Approves lib.toLibrary k.newId (k.call lib).decision.decisionId later s' s₃) ↔ k.approvable lib s := by
  obtain ⟨content,u,applied,memories,decisions⟩ := consolidateCandidate_ok stored
  let call : ApplyCall σ := { k.call lib with mergedContent := content }
  obtain ⟨target,v,stored⟩ : ∃ target v, Stored lib.toLibrary call target s v u result :=
    stored_of_pending applied pends new
  have waiting := (stored.waiting apart ⟨drawn.1,drawn.2,drawn.3⟩).congr memories decisions
  obtain ⟨sameId,_,sameTargets⟩ := settled_kept lib.toLibrary call target
  obtain ⟨chosen,found⟩ := target_ok stored.chosen
  have approves (t : Memory σ) (member : t ∈ target) (named : (call.settled lib.toLibrary target).relation.approvable) :
      ∃ s₃, Approves lib.toLibrary k.newId (k.call lib).decision.decisionId later s' s₃ := by
    obtain ⟨head,there⟩ := found t member
    obtain ⟨s₃,approves⟩ : ∃ s₃, Approves lib.toLibrary call.newId (call.settled lib.toLibrary target).decisionId later s' s₃ :=
      supported_approves waiting there (by rw [sameTargets]; exact head) named
    rw [sameId] at approves
    exact ⟨s₃,approves⟩
  by_cases stale : ∃ t ∈ target, call.decision.stale t
  · obtain ⟨t,rfl,stale⟩ := stale
    refine iff_of_true (approves t rfl (.inr (.inr (.inr (settled_conflict stale stored.action))))) ?_
    -- the version that the decision was made on is the one of the memory that strands it
    intro pin stranded
    have stuck : call.decision.stuck pin := decided_stuck stranded
    obtain ⟨version,known,other⟩ := stale
    rw [stuck.version] at known
    obtain ⟨m,rfl,rfl⟩ := Option.map_eq_some_iff.mp known
    obtain ⟨head,there⟩ := found t rfl
    have same : t.id = m.id := Option.some.inj (head.symm.trans (stuck.head m rfl))
    exact ⟨m,rfl,t,same ▸ there,Ne.symm other⟩
  · have settled : call.settled lib.toLibrary target = call.decision := by
      cases target with
      | none => rfl
      | some t => exact if_neg (fun outdated => stale ⟨t,rfl,outdated⟩)
    have action : call.decision.recommendedAction = .pendingReview := by
      rw [← settled]
      exact stored.action
    rcases decided_cases lib k with clear | ⟨pin,stranded,stuck⟩
    · obtain ⟨named,id,single⟩ := clear action
      have head : call.decision.targetMemoryIds.head? = some id := congrArg List.head? single
      obtain ⟨t,rfl,_⟩ := chosen id head
      refine iff_of_true (approves t rfl (by rw [settled]; exact named)) (fun pin stranded => ?_)
      exact absurd clear (decided_stuck stranded).not_clear
    · refine iff_of_false ?_ (fun approvable => ?_)
      · rintro ⟨s₃,⟨returned,approved⟩,_⟩
        obtain ⟨e,raised⟩ := waiting.unsupported later (by rw [settled]; exact stuck.relation)
        have both := raised.symm.trans approved
        cases both
      · obtain ⟨m,rfl,t,there,other⟩ := approvable pin stranded
        have head := stuck.head m rfl
        obtain ⟨t',rfl,there'⟩ := chosen m.id head
        obtain rfl : t = t' := Option.some.inj (there.symm.trans there')
        refine stale ⟨t,rfl,m.currentVersion,?_,Ne.symm other⟩
        rw [show call.decision.targetSnapshotVersion = _ from stuck.version]
        rfl

end

/-- Texts that share a key and nothing else. -/
def Texts.keyed (σ : Type) : Texts σ where
  toLibrary := { Library.plain σ with taskInstanceAuthorized := fun _ _ => true }
  similarity := fun _ _ => 1
  staleObservation := fun _ _ => false
  taskValuesChanged := fun _ _ => false
  taskMetadataChanged := fun _ _ => false
  detailDelta := fun _ _ => false
  reopens := fun _ => false
  correction := fun _ => false
  unconfirmed := fun _ => false
  scopeName := fun _ => "global"
  closureReason := fun _ => ""
  newValue := fun _ => ""
  progressNote := fun _ => ""
  keyVersionV3 := fun _ => false
  assertionKey := fun _ => ""
  familyKey := fun _ => ""
  ambiguousConflict := fun _ _ => false
  comparativeAlternative := fun _ _ => false
  scopesCompatible := fun _ _ => true
  topicCompatible := fun _ _ => true
  explicitlyReplaces := fun _ _ => false
  anchorsAgree := fun _ _ => true
  polarityAgrees := fun _ _ => true
  identifiersCompatible := fun _ _ => true
  sharesTopic := fun _ _ _ => true
  nearSame := fun _ _ _ => false
  sharesNamedToken := fun _ _ => true
  taskMatchKind := fun _ _ => none
  asEvent := id
  antecedentNote := fun _ => none

def report (id : CandidateId) (taskStatus : TaskStatus) (writable : taskStatus.writable) : Candidate Unit where
  candidateId := id
  memoryType := .task
  content := "report"
  importance := 1/2
  confidence := 4/5
  taskStatus := some taskStatus
  memoryKey := some "task:report"
  memoryKeyVersion := .memoryKeyV3
  scope := ()
  writable := by
    rintro s ⟨⟩
    exact writable

/-- Two tasks with the key of the candidate. -/
def reportsStored : Store Unit := (Store.empty Unit).after (.plain Unit)
  [.insert 1 0 (report 1 .todo todo_writable) 1 .active 0,.insert 2 0 (report 2 .todo todo_writable) 2 .active 1]

def reportAgain : Consolidation Unit := {
  spaceId := 0,noteId := 3,candidate := report 3 .todo todo_writable,similar := reportsStored.memories.rows
  decisionId := 3,newId := 3,now := 2 }

/-- A task that was done, and a candidate that would begin it again. -/
def reportDone : Store Unit := (Store.empty Unit).after (.plain Unit)
  [.insert 1 0 (report 1 .done done_writable) 1 .active 0]

def reportResumed : Consolidation Unit := { reportAgain with similar := reportDone.memories.rows }

def waitingReply (relation : DecisionRelation) : Result := {
  action := .pendingReview,relation,decisionId := 3,memoryId := some 3,targetMemoryId := some 1 }

/-- The approval of a candidate that has the key of two tasks raises. -/
theorem ambiguous_unapprovable :
    ¬∀ (lib : Texts Unit) (k : Consolidation Unit) (s s' : Store Unit) (result : Result) (later : Time),
      s.cardsApart → (k.call lib).drawn s → consolidateCandidate lib k s = (.ok result,s') →
      result.action = .pendingReview → result.idempotent = false →
      ∃ s₃, Approves lib.toLibrary k.newId (k.call lib).decision.decisionId later s' s₃ := by
  intro approvable
  let waiting := (consolidateCandidate (.keyed Unit) reportAgain reportsStored).2
  obtain ⟨s₃,⟨returned,approved⟩,_⟩ := approvable (.keyed Unit) reportAgain reportsStored waiting
    (waitingReply .ambiguousMatch) 5
    (show ∀ m ∈ reportsStored.memories.rows,∀ n ∈ reportsStored.memories.rows,_ by decide +kernel)
    ⟨by decide +kernel,show ∀ r ∈ reportsStored.decisions.rows,_ by decide +kernel,by decide +kernel⟩
    (Prod.ext (by decide +kernel) rfl) rfl rfl
  have raised : (approvePendingMemory (Texts.keyed Unit).toLibrary 3 5 waiting).toOption.isNone := by decide +kernel
  change approvePendingMemory (Texts.keyed Unit).toLibrary 3 5 waiting = _ at approved
  rw [approved] at raised
  cases raised

/-- The review of a task that would begin again. -/
theorem consolidated_approvable_resumed :
    (∃ s₃, Approves (Texts.keyed Unit).toLibrary 3 ((reportResumed.call (.keyed Unit)).decision.decisionId) 5
      (consolidateCandidate (.keyed Unit) reportResumed reportDone).2 s₃) ↔
      reportResumed.approvable (.keyed Unit) reportDone := by
  have stored : consolidateCandidate (.keyed Unit) reportResumed reportDone =
      (.ok (waitingReply .conflict),(consolidateCandidate (.keyed Unit) reportResumed reportDone).2) :=
    Prod.ext (by decide +kernel) rfl
  exact consolidated_approvable
    (show ∀ m ∈ reportDone.memories.rows,∀ n ∈ reportDone.memories.rows,_ by decide +kernel)
    ⟨by decide +kernel,show ∀ r ∈ reportDone.decisions.rows,_ by decide +kernel,by decide +kernel⟩ stored rfl rfl

end Suixinji.Memories
