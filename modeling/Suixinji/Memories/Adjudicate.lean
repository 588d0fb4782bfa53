import Suixinji.Relational.Ranking
import Suixinji.Memories.Apply
import Suixinji.Memories.Review

/-! How a candidate is judged against the memories that were found for it
(memory/relation_guard.py, memory/adjudicator.py). What the policies read out of the
texts and the scopes comes with `Texts`; which relation and which action follow
from it is decided here. -/
namespace Suixinji.Memories
open Ranking
open Text (contains mentionsAny)

variable {σ : Type}

/-- `identity_relation` in the answer of the model. -/
inductive IdentityRelation where
  | sameInstance
  | sameAssertion
  | sameFamily
  | different
  | uncertain
  deriving DecidableEq

def IdentityRelation.text : IdentityRelation → String
  | .sameInstance => "same_instance"
  | .sameAssertion => "same_assertion"
  | .sameFamily => "same_family"
  | .different => "different"
  | .uncertain => "uncertain"

/-- What `maybe_memory_identity_adjudication` returns. -/
structure Identity where
  relation : IdentityRelation
  targetMemoryId : Option MemoryId := none
  confidence : ℚ
  reasonCode : String := ""
  deriving DecidableEq

inductive MatchKind where
  | exactKey
  | structuredIdentity
  | identityCompatible
  | fuzzyTopic
  deriving DecidableEq

/-- What the policies read out of the texts and the scopes, and the settings. -/
structure Texts (σ : Type) extends Library σ where
  similarity : Candidate σ → Memory σ → ℚ
  staleObservation : Candidate σ → Memory σ → Bool
  taskValuesChanged : Candidate σ → Memory σ → Bool
  taskMetadataChanged : Candidate σ → Memory σ → Bool
  detailDelta : Candidate σ → Memory σ → Bool
  reopens : Candidate σ → Bool
  correction : Candidate σ → Bool
  unconfirmed : Candidate σ → Bool
  scopeName : σ → String
  closureReason : σ → String
  newValue : σ → String
  progressNote : σ → String
  keyVersionV3 : σ → Bool
  assertionKey : σ → String
  familyKey : σ → String
  ambiguousConflict : String → String → Bool
  comparativeAlternative : String → String → Bool
  scopesCompatible : Candidate σ → Memory σ → Bool
  topicCompatible : Candidate σ → Memory σ → Bool
  explicitlyReplaces : String → String → Bool
  anchorsAgree : Candidate σ → Memory σ → Bool
  polarityAgrees : Candidate σ → Memory σ → Bool
  identifiersCompatible : String → String → Bool
  sharesTopic : Candidate σ → Memory σ → ℚ → Bool
  nearSame : Candidate σ → Memory σ → ℚ → Bool
  sharesNamedToken : Candidate σ → Memory σ → Bool
  taskMatchKind : Candidate σ → Memory σ → Option (MatchKind × ℚ)
  asEvent : Candidate σ → Candidate σ
  antecedentNote : σ → Option NoteId
  strongEscalation : Bool := false
  relationGuardV3 : Bool := true
  autoMutationMinConfidence : ℚ := 3/4

/-- `effective_memory_key` of a record. -/
def Memory.effectiveMemoryKey (lib : Library σ) (m : Memory σ) : String :=
  (m.memoryKey.filter (· ≠ "")).getD (lib.memoryKeyFor m.memoryType m.subject m.predicate m.objectValue m.content)

structure RelationGuardResult where
  relation : DecisionRelation
  action : DecisionAction
  reason : String
  approved : Bool
  deriving DecidableEq

/-- `_same`. -/
def Library.same (lib : Library σ) (left right : Option String) : Bool :=
  orEmpty left ≠ "" && orEmpty right ≠ "" && lib.normalizeContent (orEmpty left) = lib.normalizeContent (orEmpty right)

/-- `is_v3_candidate`. -/
def Texts.isV3Candidate (lib : Texts σ) (c : Candidate σ) : Bool :=
  c.memoryKeyVersion = .memoryKeyV3 || lib.keyVersionV3 c.scope

/-- `_terminal_reactivation_requires_review`. -/
def Texts.terminalReactivationRequiresReview (lib : Texts σ) (c : Candidate σ) (m : Memory σ) : Bool :=
  m.taskStatus = some .done && c.taskStatus = some .todo && !lib.reopens c

/-- `a or b`, of texts. -/
def orText (a b : String) : String := if a = "" then b else a

/-- `_same_structured_value`. -/
def Texts.sameStructuredValue (lib : Texts σ) (c : Candidate σ) (m : Memory σ) : Bool :=
  lib.same (some (orText (lib.newValue c.scope) (orEmpty c.objectValue)))
    (some (orText (lib.newValue m.scope) (orEmpty m.objectValue)))

/-- Both polarities are named, and they differ. -/
def polarityChanged (c : Candidate σ) (m : Memory σ) : Bool :=
  orEmpty c.polarity ≠ "" && orEmpty m.polarity ≠ "" && c.polarity ≠ m.polarity

/-- `evaluate_relation` of two tasks. -/
def Texts.evaluateTask (lib : Texts σ) (c : Candidate σ) (m : Memory σ) : RelationGuardResult :=
  let candidateClosure := lib.closureReason c.scope
  let memoryClosure := lib.closureReason m.scope
  if !lib.taskInstanceAuthorized c m then ⟨.new,.insert,"task_requires_exact_canonical_key",false⟩
  else if lib.taskValuesChanged c m then ⟨.updateTask,.updateTask,"task_explicit_value_update",true⟩
  else if c.taskStatus = m.taskStatus then
    if c.taskStatus = some .done ∧ (candidateClosure ≠ "" ∨ memoryClosure ≠ "") ∧ candidateClosure ≠ memoryClosure then
      ⟨.conflict,.pendingReview,"task_closure_reason_conflict",false⟩
    else if lib.taskMetadataChanged c m then ⟨.updateTask,.updateTask,"task_lifecycle_metadata_update",true⟩
    else if lib.detailDelta c m then ⟨.merge,.merge,"task_detail_merge",true⟩
    else ⟨.same,.addSource,"same_task_identity_and_status",true⟩
  else if lib.terminalReactivationRequiresReview c m then
    ⟨.conflict,.pendingReview,"terminal_task_reactivation_requires_evidence",false⟩
  else if canTransition m.taskStatus c.taskStatus then ⟨.updateTask,.updateTask,"valid_task_state_transition",true⟩
  else ⟨.conflict,.pendingReview,"invalid_task_state_transition",false⟩

/-- `evaluate_relation` of two preferences. -/
def Texts.evaluatePreference (lib : Texts σ) (exactKey : Bool) (c : Candidate σ) (m : Memory σ) : RelationGuardResult :=
  let sameScope := lib.normalizeContent (lib.scopeName c.scope) = lib.normalizeContent (lib.scopeName m.scope)
  if !exactKey ∨ !lib.same c.subject m.subject ∨ ¬sameScope then ⟨.new,.insert,"preference_identity_mismatch",false⟩
  else if lib.unconfirmed c || lib.ambiguousConflict c.content m.content then
    ⟨.conflict,.pendingReview,"unconfirmed_preference_change",false⟩
  else if lib.correction c then ⟨.supersede,.update,"explicit_preference_correction",true⟩
  else if polarityChanged c m then ⟨.update,.update,"preference_polarity_update",true⟩
  else if lib.detailDelta c m then ⟨.merge,.update,"preference_scope_or_detail_merge",true⟩
  else ⟨.same,.addSource,"same_preference_identity",true⟩

/-- `evaluate_relation` of two events. -/
def Texts.evaluateEvent (lib : Texts σ) (exactKey : Bool) (c : Candidate σ) (m : Memory σ) : RelationGuardResult :=
  let none : RelationGuardResult := ⟨.new,.insert,"episodic_requires_exact_duplicate",false⟩
  if !exactKey then
    if lib.correction c && lib.same c.subject m.subject && lib.same c.predicate m.predicate then
      ⟨.supersede,.update,"explicit_event_correction_across_topic",true⟩
    else none
  else if lib.unconfirmed c || (contains c.content "没有" && !lib.correction c) then
    ⟨.conflict,.pendingReview,"unconfirmed_or_negative_event_claim",false⟩
  else if lib.correction c then ⟨.supersede,.update,"explicit_event_correction",true⟩
  else if lib.sameStructuredValue c m then
    if mentionsAny c.content ["改为","改成","时间"] then ⟨.update,.update,"episodic_time_or_fact_update",true⟩
    else if lib.detailDelta c m then ⟨.merge,.update,"episodic_detail_merge",true⟩
    else ⟨.same,.addSource,"same_episodic_event",true⟩
  else none

/-- `evaluate_relation`. -/
def Texts.evaluateRelation (lib : Texts σ) (c : Candidate σ) (m : Memory σ) : RelationGuardResult :=
  let exactKey := c.effectiveMemoryKey lib.toLibrary = m.effectiveMemoryKey lib.toLibrary
  if c.memoryType ≠ m.memoryType then ⟨.new,.insert,"memory_type_mismatch",false⟩
  else if exactKey ∧ lib.staleObservation c m then
    ⟨.conflict,.pendingReview,"candidate_observed_before_current_memory",false⟩
  else match c.memoryType with
  | .task => lib.evaluateTask c m
  | .semantic =>
    if exactKey then ⟨.same,.addSource,"same_semantic_fact",true⟩ else ⟨.new,.insert,"semantic_append_only",true⟩
  | .preference => lib.evaluatePreference exactKey c m
  | .episodic => lib.evaluateEvent exactKey c m

/-- `DESTRUCTIVE_ACTIONS`. -/
def DecisionAction.destructive (action : DecisionAction) : Bool :=
  action = .merge || action = .update || action = .updateTask || action = .supersede || action = .conflict

/-- `_combined_confidence`. -/
def combinedConfidence (c : Candidate σ) (relationConfidence : ℚ) : ℚ := 3/5 * c.confidence + 2/5 * relationConfidence

/-- `_decision`: what would change a memory on too little confidence is left to the review. -/
def Texts.decision (lib : Texts σ) (decisionId : DecisionId) (c : Candidate σ) (relation : DecisionRelation)
    (action : DecisionAction) (confidence : ℚ) (reason : String) (targets : List (Memory σ)) : Decision :=
  let bounded := min 1 (max 0 confidence)
  let weak := action.destructive && bounded < lib.autoMutationMinConfidence
  { decisionId
    candidateId := c.candidateId
    relation
    targetMemoryIds := targets.map Memory.id
    confidence := bounded
    reason := if weak then reason ++ "; below_auto_mutation_threshold" else reason
    recommendedAction := if weak then .pendingReview else action
    targetSnapshotVersion := targets.head?.map Memory.currentVersion }

/-- `m` was updated before `n`. -/
def Memory.older (m n : Memory σ) : Bool := byThen Memory.updatedAt (less Memory.currentVersion) m n

/-- The one that was updated last. -/
def newest (memories : List (Memory σ)) : Option (Memory σ) := greatest Memory.older memories

section
variable (lib : Texts σ) (decisionId : DecisionId) (c : Candidate σ) (memories : List (Memory σ))

def Texts.exact : List (Memory σ) :=
  memories.filter (fun m => c.effectiveMemoryKey lib.toLibrary = m.effectiveMemoryKey lib.toLibrary)

/-- The answer of the model is asked for, and it is sure enough. -/
def Texts.decisive (answer : Option Identity) : Option Identity :=
  if !lib.strongEscalation || !(c.memoryType = .task || c.memoryType = .preference) then none
  else answer.filter (9/10 ≤ ·.confidence)

def Identity.target (answer : Identity) : Option (Memory σ) :=
  answer.targetMemoryId.bind (fun id => memories.find? (·.id = id))

/-- `_identity_adjudicated_decision` of two tasks. -/
def Texts.identifiedTask (m : Memory σ) (confidence : ℚ) (reason : String) : Decision :=
  let decide := lib.decision decisionId c
  if !lib.identifiersCompatible c.content m.content then
    decide .conflict .pendingReview confidence (reason ++ "; identifier_conflict") [m]
  else if lib.scopeName c.scope ≠ lib.scopeName m.scope then
    decide .conflict .pendingReview confidence (reason ++ "; scope_conflict") [m]
  else if c.taskStatus = m.taskStatus then
    if lib.normalizeContent c.content ≠ lib.normalizeContent m.content ∨ lib.progressNote c.scope ≠ "" then
      decide .merge .update confidence reason [m]
    else decide .same .addSource confidence reason [m]
  else if canTransition m.taskStatus c.taskStatus then decide .updateTask .updateTask confidence reason [m]
  else decide .conflict .pendingReview confidence (reason ++ "; invalid_transition") [m]

/-- `_identity_adjudicated_decision` of two preferences. -/
def Texts.identifiedPreference (m : Memory σ) (confidence : ℚ) (reason : String) : Decision :=
  let decide := lib.decision decisionId c
  if !lib.anchorsAgree c m || !lib.scopesCompatible c m then
    decide .conflict .pendingReview confidence (reason ++ "; anchor_or_scope_conflict") [m]
  else if lib.polarityAgrees c m then decide .same .addSource confidence reason [m]
  else if lib.explicitlyReplaces c.content m.content then decide .supersede .supersede confidence reason [m]
  else decide .conflict .pendingReview confidence (reason ++ "; polarity_conflict") [m]

/-- `_identity_adjudicated_decision`. -/
def Texts.identityAdjudicatedDecision (answer : Option Identity) : Option Decision := do
  let answer ← lib.decisive c answer
  let reason := "llm_identity:" ++ orText answer.reasonCode answer.relation.text
  let decide := lib.decision decisionId c
  match answer.relation,answer.target memories with
  | .different,_ | .sameFamily,_ => decide .new .insert answer.confidence reason []
  | .uncertain,target => decide .ambiguousMatch .pendingReview answer.confidence reason target.toList
  | _,none => decide .ambiguousMatch .pendingReview answer.confidence reason []
  | .sameInstance,some m =>
    if c.memoryType = .task then lib.identifiedTask decisionId c m answer.confidence reason else none
  | .sameAssertion,some m =>
    if c.memoryType = .preference then lib.identifiedPreference decisionId c m answer.confidence reason else none

/-- The preferences that stand against the candidate. -/
def Texts.conflicts : List (Memory σ) :=
  memories.filter (fun m => lib.scopesCompatible c m &&
    (lib.ambiguousConflict c.content m.content || lib.comparativeAlternative c.content m.content))

def keyMatches (key : σ → String) : List (Memory σ) :=
  memories.filter (fun m => key c.scope ≠ "" && key m.scope = key c.scope)

/-- The memories that the guard lets the candidate change. -/
def Texts.refinements : List (Memory σ) :=
  memories.filter (fun m =>
    let guarded := lib.evaluateRelation c m
    guarded.approved && (guarded.action = .updateTask || guarded.action = .update))

/-- The decision of `_adjudicate_v3` on a preference no memory has the key of, by the keys of its scope. -/
def Texts.preferenceByScope : Option Decision :=
  let decide := lib.decision decisionId c
  match newest (keyMatches c memories lib.assertionKey) with
  | some best =>
    if c.polarity = best.polarity then
      some (decide .same .addSource (max c.confidence (23/25)) "same_preference_assertion_key" [best])
    else some (decide .conflict .pendingReview (max c.confidence (41/50)) "preference_assertion_polarity_conflict" [best])
  | none =>
    let family := keyMatches c memories lib.familyKey
    if family.any (fun m => polarityChanged c m && lib.scopesCompatible c m && lib.topicCompatible c m) then
      (newest family).map (fun best =>
        decide .conflict .pendingReview (max c.confidence (41/50)) "preference_family_polarity_conflict" [best])
    else none

/-- The decision of `_adjudicate_v3` where no memory has the key of the candidate. -/
def Texts.adjudicateRefinement : Decision :=
  let decide := lib.decision decisionId c
  let refinements := lib.refinements c memories
  if c.memoryType = .task ∧ 1 < refinements.length then
    decide .ambiguousMatch .pendingReview (max (4/5) c.confidence) "multiple_task_instance_matches" refinements
  else match greatest (byThen (lib.similarity c) Memory.older) refinements with
  | none => decide .new .insert (max (4/5) c.confidence) "v3_no_exact_canonical_identity" []
  | some best =>
    let guarded := lib.evaluateRelation c best
    decide guarded.relation guarded.action (combinedConfidence c (max (41/50) (lib.similarity c best))) guarded.reason [best]

/-- How sure `_adjudicate_v3` is of what the guard says of a memory that has the key. -/
def Texts.guardedConfidence (m : Memory σ) : ℚ :=
  let guarded := lib.evaluateRelation c m
  if guarded.action = .updateTask then combinedConfidence c (max (41/50) (lib.similarity c m))
  else if guarded.action = .update ∨ guarded.action = .supersede ∨ guarded.action = .pendingReview then
    combinedConfidence c (max (4/5) (lib.similarity c m))
  else max c.confidence (if guarded.action = .addSource then 23/25 else 4/5)

/-- A semantic fact is only ever added to. -/
def Texts.adjudicateSemantic : Decision :=
  match newest (lib.exact c memories) with
  | some best => lib.decision decisionId c .same .addSource (max c.confidence (23/25)) "same_semantic_fact" [best]
  | none => lib.decision decisionId c .new .insert (max (4/5) c.confidence) "semantic_append_only" []

/-- `_adjudicate_v3`. -/
def Texts.adjudicateV3 : Decision :=
  let decide := lib.decision decisionId c
  let exact := lib.exact c memories
  let conflict := if c.memoryType = .preference then newest (lib.conflicts c memories) else none
  if c.memoryType = .semantic then lib.adjudicateSemantic decisionId c memories
  else if 1 < exact.length then
    decide .ambiguousMatch .pendingReview (max (4/5) c.confidence) "multiple_exact_identity_matches" exact
  else match conflict,newest exact with
  | some best,_ =>
    decide .conflict .pendingReview (combinedConfidence c (41/50)) "ambiguous_preference_conflict" [best]
  | none,none =>
    ((if c.memoryType = .preference then lib.preferenceByScope decisionId c memories else none).getD
      (lib.adjudicateRefinement decisionId c memories))
  | none,some best =>
    let guarded := lib.evaluateRelation c best
    decide guarded.relation guarded.action (lib.guardedConfidence c best) guarded.reason [best]

/-- The rest of `adjudicate_memory`, once the memories are narrowed to those of one topic. -/
def Texts.adjudicateBest (best : Memory σ) : Decision :=
  let decide := lib.decision decisionId c
  let similarity := lib.similarity c best
  let sameTopic := lib.sharesTopic c best similarity
  if lib.nearSame c best similarity then
    decide .same .addSource (max (23/25) c.confidence) "same_or_near_duplicate" [best]
  else if c.memoryType = .task ∧ sameTopic ∧ c.taskStatus ≠ best.taskStatus then
    if canTransition best.taskStatus c.taskStatus then
      decide .updateTask .updateTask (combinedConfidence c (41/50 + 3/25 * similarity)) "valid_task_status_transition" [best]
    else decide .conflict .pendingReview (7/10) "invalid_or_ambiguous_task_status_transition" [best]
  else if c.memoryType = .preference ∧ sameTopic ∧ lib.ambiguousConflict c.content best.content then
    decide .conflict .pendingReview (combinedConfidence c (max (41/50) similarity)) "ambiguous_preference_conflict" [best]
  else if c.memoryType = .preference ∧ sameTopic ∧ lib.explicitlyReplaces c.content best.content then
    decide .supersede .supersede (combinedConfidence c (41/50 + 3/25 * similarity)) "explicit_preference_change" [best]
  else if sameTopic ∧ (17/50 ≤ similarity ∨ lib.sharesNamedToken c best) then
    decide .merge .merge (combinedConfidence c (37/50 + 4/25 * similarity)) "compatible_extension" [best]
  else decide .new .insert (max (39/50) c.confidence) "no_actionable_relation" []

/-- The memories `adjudicate_memory` narrows the others down to, outside of the guard,
or why there are none. -/
def Texts.narrowed : Except String (List (Memory σ)) := do
  let exact := lib.exact c memories
  let keyed := if c.memoryType = .preference ∧ exact = []
    then memories.filter (fun m => lib.comparativeAlternative c.content m.content) else exact
  Checked.require (¬((c.memoryType = .preference ∨ c.memoryType = .task) ∧ keyed = [])) "different_memory_key"
  let kept := if keyed = [] then memories else keyed
  match c.memoryType with
  | .preference =>
    let compatible := kept.filter (fun m =>
      (lib.topicCompatible c m || lib.comparativeAlternative c.content m.content) && lib.scopesCompatible c m)
    Checked.require (compatible ≠ []) "different_preference_topic_or_scope"
    return compatible
  | .task =>
    let compatible := kept.filter (fun m => lib.identifiersCompatible c.content m.content)
    Checked.require (compatible ≠ []) "different_task_identifier"
    return compatible
  | _ => return kept

/-- The part of `adjudicate_memory` that the guard does not take over. -/
def Texts.adjudicateV2 : Decision :=
  match lib.narrowed c memories with
  | .error reason => lib.decision decisionId c .new .insert (max (4/5) c.confidence) reason []
  | .ok kept =>
    match greatest (less (lib.similarity c)) kept with
    | none => lib.decision decisionId c .new .insert (max (39/50) c.confidence) "no_actionable_relation" []
    | some best => lib.adjudicateBest decisionId c best

/-- `adjudicate_memory`. -/
def Texts.adjudicateMemory (answer : Option Identity) : Decision :=
  if !c.shouldStore then
    lib.decision decisionId c .new .discard c.confidence
      ((c.effectiveReason.filter (· ≠ "")).getD "candidate_should_not_store") []
  else if memories = [] then
    lib.decision decisionId c .new .insert (max (4/5) c.confidence) "no_related_active_memory" []
  else if c.memoryType = .semantic then lib.adjudicateSemantic decisionId c memories
  else
    let identified := if lib.exact c memories = [] then lib.identityAdjudicatedDecision decisionId c memories answer else none
    identified.getD (if lib.relationGuardV3 && lib.isV3Candidate c then lib.adjudicateV3 decisionId c memories
      else lib.adjudicateV2 decisionId c memories)

end

end Suixinji.Memories
