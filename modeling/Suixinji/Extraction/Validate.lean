import Mathlib.Data.List.Induction
import Mathlib.Data.List.Nodup
import Suixinji.Extraction.Candidates
import Suixinji.Relational.Firsts

/-! Validation of a batch of candidates (memory/candidate_validator.py): what is accepted, what is
rejected, and which rejections as duplicates are true. -/
namespace Suixinji.Extraction
open Firsts
open Text (contains present stripped)

structure CandidateRejection where
  candidateId : String
  reason : String
  deriving DecidableEq

def lowValueTexts : List String := ["你好","您好","hello","hi","收到","好的","好","ok","谢谢","哈哈","嗯","嗯嗯"]

/-- `_safe_score`. -/
def safeScore : Number → ℚ
  | .finite q => min 1 (max 0 q)
  | _ => 0

variable {σ : Type} (lib : Library σ) (cfg : Settings)

/-- `str(value).strip()[:n] if value else None`. -/
def cut (n : Nat) (value : Option String) : Option String :=
  if present value then value.map (fun text => Text.slice n (stripped text)) else none

def validatedRecord (c : MemoryCandidate σ) (content evidenceSpan : String) : MemoryCandidate σ :=
  { c with
    content := Text.slice 1000 content
    confidence := .finite (safeScore c.confidence)
    importance := .finite (safeScore c.importance)
    entities := (((c.entities.map stripped).filter (· ≠ "")).eraseDups).take 12
    subject := cut 160 c.subject
    predicate := cut 80 c.predicate
    objectValue := cut 240 c.objectValue
    evidenceSpan := if evidenceSpan = "" then none else some (Text.slice 500 evidenceSpan)
    memoryKey :=
      if c.scope.preferenceDetail.isSome then c.memoryKey
      else some (lib.memoryKeyFor c.memoryType c.subject c.predicate c.objectValue (Text.slice 1000 content)) }

def taskIdentityComplete (c : MemoryCandidate σ) : Bool :=
  present c.subject && present c.predicate && present c.scope.operation && c.taskStatus.isSome

/-- `validate_candidate`. -/
def validateCandidate (noteText : String) (c : MemoryCandidate σ) : Except CandidateRejection (MemoryCandidate σ) :=
  let reject reason := Except.error ⟨c.candidateId,reason⟩
  if c.scope.taskInput then
    -- The task writer validates all nested evidence.
    if lib.containsSensitiveData noteText || lib.containsSensitiveData c.content then reject "sensitive_data"
    else if !c.shouldStore then reject "candidate_should_not_store"
    else if c.confidence.below cfg.minConfidence then reject "confidence_below_minimum"
    else .ok c
  else
    let content := Ask.clean c.content
    let normalized := normalizeContent lib content
    if lib.containsSensitiveData noteText || lib.containsSensitiveData content then reject "sensitive_data"
    else if !c.shouldStore && (c.scope.preferenceDetail.any present) then reject "preference_unresolved"
    else if !c.shouldStore then
      reject (if present c.effectiveReason then c.effectiveReason.getD "" else "candidate_should_not_store")
    else if (content = "" || normalized.length ≤ 2 || normalized ∈ lowValueTexts.map (normalizeContent lib)) &&
        !present c.scope.preferenceError then reject "low_value_content"
    else if safeScore c.confidence < cfg.minConfidence then reject "confidence_below_minimum"
    else
      let evidenceSpan := stripped (c.evidenceSpan.getD "")
      if evidenceSpan ≠ "" && !contains noteText evidenceSpan && cfg.extractorSchemaV3 then reject "evidence_span_not_grounded"
      else
        let kept := if evidenceSpan ≠ "" && !contains noteText evidenceSpan then "" else evidenceSpan
        let validated := validatedRecord lib c content kept
        if cfg.canonicalKeyV3 && c.scope.preferenceDetail.isNone &&
            !(cfg.factMemory && c.memoryType ∈ [.semantic,.episodic]) then
          let validated := canonicalizeCandidate lib validated
          if validated.memoryType = .task && !taskIdentityComplete validated then reject "task_identity_incomplete"
          else .ok validated
        else .ok validated

def seenKey (checked : MemoryCandidate σ) : MemoryType × String :=
  (checked.memoryType,if checked.scope.taskInput then checked.candidateId else checked.normalizedContent lib)

/-- The loop's lists `valid` and `rejected`; the set `seen` holds the keys of the valid ones. -/
structure Batch (σ : Type) where
  valid : List (MemoryCandidate σ) := []
  rejected : List CandidateRejection := []

def validateNext (noteText : String) (b : Batch σ) (c : MemoryCandidate σ) : Batch σ :=
  match validateCandidate lib cfg noteText c with
  | .error rejection => {b with rejected := b.rejected ++ [rejection]}
  | .ok checked =>
    if seenKey lib checked ∈ b.valid.map (seenKey lib) then {b with rejected := b.rejected ++ [⟨checked.candidateId,"duplicate_candidate"⟩]}
    else {b with valid := b.valid ++ [checked]}

/-- `validate_candidates`. -/
def validateCandidates (noteText : String) (candidates : List (MemoryCandidate σ)) : Batch σ :=
  candidates.foldl (validateNext lib cfg noteText) {}

/-! ### One candidate -/

/-- A candidate that asks not to be stored, for the reason that is written for duplicates. -/
def saysDuplicate (noteText : String) (c : MemoryCandidate σ) : Bool :=
  !c.scope.taskInput && !(lib.containsSensitiveData noteText || lib.containsSensitiveData (Ask.clean c.content)) &&
    !c.shouldStore && !c.scope.preferenceDetail.any present && c.effectiveReason = some "duplicate_candidate"

variable {lib cfg} {noteText : String} {c checked : MemoryCandidate σ} {candidates : List (MemoryCandidate σ)}

def Answers (refused : CandidateRejection → Prop) (accepted : MemoryCandidate σ → Prop) : Except CandidateRejection (MemoryCandidate σ) → Prop
  | .error rejection => refused rejection
  | .ok checked => accepted checked

theorem Answers.ite {refused : CandidateRejection → Prop} {accepted : MemoryCandidate σ → Prop} {p : Prop} [Decidable p]
    {x y : Except CandidateRejection (MemoryCandidate σ)} (first : p → Answers refused accepted x)
    (second : ¬p → Answers refused accepted y) : Answers refused accepted (if p then x else y) := by
  split
  · exact first ‹_›
  · exact second ‹_›

theorem refuse {refused : CandidateRejection → Prop} {accepted : MemoryCandidate σ → Prop} {rejection : CandidateRejection}
    (holds : refused rejection) : Answers refused accepted (.error rejection) := holds

theorem accept {refused : CandidateRejection → Prop} {accepted : MemoryCandidate σ → Prop} (holds : accepted checked) :
    Answers refused accepted (.ok checked) := holds

theorem validatedRecord_candidateId (c : MemoryCandidate σ) (content evidenceSpan : String) :
    (validatedRecord lib c content evidenceSpan).candidateId = c.candidateId := rfl

theorem canonicalizeCandidate_candidateId (c : MemoryCandidate σ) : (canonicalizeCandidate lib c).candidateId = c.candidateId := rfl

theorem validateCandidate_named (lib : Library σ) (cfg : Settings) (noteText : String) (c : MemoryCandidate σ) :
    Answers (fun rejection => rejection.candidateId = c.candidateId) (fun checked => checked.candidateId = c.candidateId)
      (validateCandidate lib cfg noteText c) := by
  unfold validateCandidate
  refine .ite (fun _ => ?_) (fun _ => ?_)
  · exact .ite (fun _ => refuse rfl) (fun _ => .ite (fun _ => refuse rfl) (fun _ => .ite (fun _ => refuse rfl) (fun _ => accept rfl)))
  · refine .ite (fun _ => refuse rfl) (fun _ => .ite (fun _ => refuse rfl) (fun _ => .ite (fun _ => refuse rfl) (fun _ => .ite
      (fun _ => refuse rfl) (fun _ => .ite (fun _ => refuse rfl) (fun _ => .ite (fun _ => refuse rfl) (fun _ => .ite (fun _ => ?_)
        (fun _ => accept (validatedRecord_candidateId _ _ _))))))))
    refine .ite (fun _ => refuse rfl) (fun _ => accept ?_)
    rw [canonicalizeCandidate_candidateId,validatedRecord_candidateId]

theorem candidateId_of_ok (ok : validateCandidate lib cfg noteText c = .ok checked) : checked.candidateId = c.candidateId := by
  have named := validateCandidate_named lib cfg noteText c
  rwa [ok] at named

theorem candidateId_of_error {rejection : CandidateRejection} (error : validateCandidate lib cfg noteText c = .error rejection) :
    rejection.candidateId = c.candidateId := by
  have named := validateCandidate_named lib cfg noteText c
  rwa [error] at named

theorem saysDuplicate_of_error (error : validateCandidate lib cfg noteText c = .error ⟨c.candidateId,"duplicate_candidate"⟩) :
    saysDuplicate lib noteText c = true := by
  have other {reason : String} (ne : reason ≠ "duplicate_candidate") :
      Answers (fun rejection => rejection.reason = "duplicate_candidate" → saysDuplicate lib noteText c = true) (fun _ => True)
        (Except.error ⟨c.candidateId,reason⟩ : Except _ (MemoryCandidate σ)) := refuse fun same => absurd same ne
  have reasons : Answers (fun rejection => rejection.reason = "duplicate_candidate" → saysDuplicate lib noteText c = true) (fun _ => True)
      (validateCandidate lib cfg noteText c) := by
    unfold validateCandidate
    refine .ite (fun _ => ?_) (fun plain => .ite (fun _ => other (by decide)) (fun harmless => .ite (fun _ => other (by decide))
      (fun resolved => .ite (fun unstored => refuse fun reason => ?_) (fun _ => ?_))))
    · exact .ite (fun _ => other (by decide)) (fun _ => .ite (fun _ => other (by decide)) (fun _ => .ite (fun _ => other (by decide))
        (fun _ => accept trivial)))
    · have given : c.effectiveReason = some "duplicate_candidate" := by
        change (if present c.effectiveReason then c.effectiveReason.getD "" else "candidate_should_not_store") = _ at reason
        split at reason
        · cases text : c.effectiveReason with
          | none => simp [text] at reason
          | some text' => simpa [text] using reason
        · exact absurd reason (by decide)
      simp only [Bool.not_eq_true] at plain harmless resolved
      rw [unstored,Bool.true_and] at resolved
      simp only [saysDuplicate,plain,harmless,unstored,resolved,given,Bool.not_false,Bool.true_and,decide_true]
    · refine .ite (fun _ => other (by decide)) (fun _ => .ite (fun _ => other (by decide)) (fun _ => .ite (fun _ => other (by decide))
        (fun _ => .ite (fun _ => ?_) (fun _ => accept trivial))))
      exact .ite (fun _ => other (by decide)) (fun _ => accept trivial)
  rw [error] at reasons
  exact reasons rfl

theorem error_of_saysDuplicate (quits : saysDuplicate lib noteText c = true) :
    validateCandidate lib cfg noteText c = .error ⟨c.candidateId,"duplicate_candidate"⟩ := by
  simp only [saysDuplicate,Bool.and_eq_true,Bool.not_eq_true',decide_eq_true_eq] at quits
  obtain ⟨⟨⟨⟨plain,harmless⟩,unstored⟩,resolved⟩,reason⟩ := quits
  unfold validateCandidate
  simp [plain,harmless,unstored,resolved,reason,present]

/-! ### A batch -/

def passing (lib : Library σ) (cfg : Settings) (noteText : String) (candidates : List (MemoryCandidate σ)) : List (MemoryCandidate σ) :=
  candidates.filterMap (fun c => (validateCandidate lib cfg noteText c).toOption)

theorem passing_snoc : passing lib cfg noteText (candidates ++ [c]) =
    passing lib cfg noteText candidates ++ (validateCandidate lib cfg noteText c).toOption.toList := by
  unfold passing
  rw [List.filterMap_append]
  rfl

theorem validateCandidates_append (before after : List (MemoryCandidate σ)) :
    validateCandidates lib cfg noteText (before ++ after) =
      after.foldl (validateNext lib cfg noteText) (validateCandidates lib cfg noteText before) := List.foldl_append

theorem valid_eq_firsts (candidates : List (MemoryCandidate σ)) :
    (validateCandidates lib cfg noteText candidates).valid = firsts (seenKey lib) (passing lib cfg noteText candidates) := by
  induction candidates using List.reverseRecOn with
  | nil => rfl
  | append_singleton candidates c ih =>
    rw [validateCandidates_append,passing_snoc,List.foldl_cons,List.foldl_nil,validateNext]
    cases validateCandidate lib cfg noteText c with
    | error rejection =>
      rw [Except.toOption,Option.toList_none,List.append_nil]
      exact ih
    | ok checked =>
      rw [Except.toOption,Option.toList_some,firsts_snoc,← ih]
      dsimp only
      split
      · rfl
      · rfl

theorem exists_more (lib : Library σ) (cfg : Settings) (noteText : String) (b : Batch σ) (candidates : List (MemoryCandidate σ)) :
    ∃ valid rejected, candidates.foldl (validateNext lib cfg noteText) b = ⟨b.valid ++ valid,b.rejected ++ rejected⟩ ∧
      (valid.map (·.candidateId) ++ rejected.map (·.candidateId)).Perm (candidates.map (·.candidateId)) ∧
      ∃ kept, kept.Sublist candidates ∧ List.Forall₂ (fun c checked => validateCandidate lib cfg noteText c = .ok checked) kept valid := by
  induction candidates generalizing b with
  | nil => exact ⟨[],[],by simp,.refl _,[],.refl _,.nil⟩
  | cons c candidates ih =>
    obtain ⟨valid,rejected,moved,accounted,kept,inOrder,passed⟩ := ih (validateNext lib cfg noteText b c)
    cases result : validateCandidate lib cfg noteText c with
    | error rejection =>
      have next : validateNext lib cfg noteText b c = {b with rejected := b.rejected ++ [rejection]} := by rw [validateNext,result]
      refine ⟨valid,rejection::rejected,?_,?_,kept,inOrder.cons c,passed⟩
      · rw [List.foldl_cons,moved,next,List.append_assoc,List.singleton_append]
      · rw [List.map_cons,List.map_cons,candidateId_of_error result]
        exact List.perm_middle.trans (accounted.cons _)
    | ok checked =>
      by_cases seen : seenKey lib checked ∈ b.valid.map (seenKey lib)
      · have next : validateNext lib cfg noteText b c =
            {b with rejected := b.rejected ++ [⟨checked.candidateId,"duplicate_candidate"⟩]} := by
          rw [validateNext,result]
          exact if_pos seen
        refine ⟨valid,⟨checked.candidateId,"duplicate_candidate"⟩::rejected,?_,?_,kept,inOrder.cons c,passed⟩
        · rw [List.foldl_cons,moved,next,List.append_assoc,List.singleton_append]
        · rw [List.map_cons,List.map_cons,candidateId_of_ok result]
          exact List.perm_middle.trans (accounted.cons _)
      · have next : validateNext lib cfg noteText b c = {b with valid := b.valid ++ [checked]} := by
          rw [validateNext,result]
          exact if_neg seen
        refine ⟨checked::valid,rejected,?_,?_,c::kept,inOrder.cons_cons c,.cons result passed⟩
        · rw [List.foldl_cons,moved,next,List.append_assoc,List.singleton_append]
        · rw [List.map_cons,List.map_cons,candidateId_of_ok result,List.cons_append]
          exact accounted.cons _

theorem accounted (candidates : List (MemoryCandidate σ)) :
    ((validateCandidates lib cfg noteText candidates).valid.map (·.candidateId) ++
      (validateCandidates lib cfg noteText candidates).rejected.map (·.candidateId)).Perm (candidates.map (·.candidateId)) := by
  obtain ⟨valid,rejected,same,perm,_⟩ := exists_more lib cfg noteText {} candidates
  rw [validateCandidates,same]
  exact perm

theorem passed_in_order (candidates : List (MemoryCandidate σ)) : ∃ kept, kept.Sublist candidates ∧
    List.Forall₂ (fun c checked => validateCandidate lib cfg noteText c = .ok checked) kept (validateCandidates lib cfg noteText candidates).valid := by
  obtain ⟨valid,rejected,same,_,kept⟩ := exists_more lib cfg noteText {} candidates
  rw [validateCandidates,same]
  exact kept

section Split

variable {before after : List (MemoryCandidate σ)}

theorem passing_split (ok : validateCandidate lib cfg noteText c = .ok checked) :
    passing lib cfg noteText (before ++ c::after) = passing lib cfg noteText before ++ checked::passing lib cfg noteText after := by
  unfold passing
  rw [List.filterMap_append,List.filterMap_cons_some (b := checked)]
  rw [ok]
  rfl

theorem exists_split_of_passing {before after : List (MemoryCandidate σ)}
    (split : passing lib cfg noteText candidates = before ++ checked::after) : ∃ first c rest, candidates = first ++ c::rest ∧
      validateCandidate lib cfg noteText c = .ok checked ∧ passing lib cfg noteText first = before := by
  obtain ⟨first,rest,rfl,same,tail⟩ := List.filterMap_eq_append_iff.mp split
  obtain ⟨skipped,c,more,rfl,none,some_,_⟩ := List.filterMap_eq_cons_iff.mp tail
  refine ⟨first ++ skipped,c,more,by rw [List.append_assoc],?_,?_⟩
  · cases result : validateCandidate lib cfg noteText c with
    | error rejection =>
      rw [result] at some_
      cases some_
    | ok other =>
      rw [result] at some_
      cases some_
      rfl
  · have quiet : passing lib cfg noteText skipped = [] := List.filterMap_eq_nil_iff.mpr none
    rw [← same,passing,List.filterMap_append]
    exact (congrArg _ quiet).trans (List.append_nil _)

theorem exists_rest (lib : Library σ) (cfg : Settings) (noteText : String) (distinct : ((before ++ c::after).map (·.candidateId)).Nodup) : ∃ valid rejected,
    validateCandidates lib cfg noteText (before ++ c::after) =
      ⟨(validateNext lib cfg noteText (validateCandidates lib cfg noteText before) c).valid ++ valid,
        (validateNext lib cfg noteText (validateCandidates lib cfg noteText before) c).rejected ++ rejected⟩ ∧
      (∀ kept ∈ valid, kept.candidateId ∉ (before ++ [c]).map (·.candidateId)) ∧
      ∀ rejection ∈ rejected, rejection.candidateId ∉ (before ++ [c]).map (·.candidateId) := by
  obtain ⟨valid,rejected,same,perm,_⟩ := exists_more lib cfg noteText
    (validateNext lib cfg noteText (validateCandidates lib cfg noteText before) c) after
  have apart : ∀ id, id ∈ valid.map (·.candidateId) ++ rejected.map (·.candidateId) → id ∉ (before ++ [c]).map (·.candidateId) := by
    intro id late early
    rw [show before ++ c::after = (before ++ [c]) ++ after by simp,List.map_append,List.nodup_append] at distinct
    exact distinct.2.2 id early id (perm.mem_iff.mp late) rfl
  refine ⟨valid,rejected,?_,fun kept inside => apart _ (List.mem_append_left _ (List.mem_map_of_mem inside)),
    fun rejection inside => apart _ (List.mem_append_right _ (List.mem_map_of_mem inside))⟩
  rw [validateCandidates_append]
  exact same

theorem kept_before (distinct : ((before ++ c::after).map (·.candidateId)).Nodup) {kept : MemoryCandidate σ}
    (inside : kept ∈ (validateCandidates lib cfg noteText (before ++ c::after)).valid)
    (early : kept.candidateId ∈ before.map (·.candidateId)) : kept ∈ (validateCandidates lib cfg noteText before).valid := by
  obtain ⟨valid,rejected,same,late,_⟩ := exists_rest lib cfg noteText distinct
  rw [same] at inside
  rcases List.mem_append.mp inside with here | there
  · unfold validateNext at here
    split at here
    · exact here
    · rename_i checked ok
      split at here
      · exact here
      · rcases List.mem_append.mp here with old | last
        · exact old
        · rw [List.mem_singleton.mp last,candidateId_of_ok ok] at early
          rw [List.map_append,List.nodup_append] at distinct
          exact absurd rfl (distinct.2.2 _ early _ List.mem_cons_self)
  · refine absurd ?_ (late kept there)
    rw [List.map_append]
    exact List.mem_append_left _ early

theorem rejected_duplicate_iff (distinct : ((before ++ c::after).map (·.candidateId)).Nodup) :
    ⟨c.candidateId,"duplicate_candidate"⟩ ∈ (validateCandidates lib cfg noteText (before ++ c::after)).rejected ↔
      saysDuplicate lib noteText c = true ∨
        ∃ checked, validateCandidate lib cfg noteText c = .ok checked ∧ seenKey lib checked ∈ (passing lib cfg noteText before).map (seenKey lib) := by
  obtain ⟨valid,rejected,same,_,late⟩ := exists_rest lib cfg noteText distinct
  have here : c.candidateId ∈ (before ++ [c]).map (·.candidateId) := by simp
  have unlisted : (⟨c.candidateId,"duplicate_candidate"⟩ : CandidateRejection) ∉ (validateCandidates lib cfg noteText before).rejected := by
    intro listed
    have early : c.candidateId ∈ before.map (·.candidateId) :=
      (accounted before).mem_iff.mp (List.mem_append_right _ (List.mem_map_of_mem (f := (·.candidateId)) listed))
    rw [List.map_append,List.nodup_append] at distinct
    exact distinct.2.2 _ early _ List.mem_cons_self rfl
  have later : (⟨c.candidateId,"duplicate_candidate"⟩ : CandidateRejection) ∉ rejected := fun listed => late _ listed here
  rw [same,List.mem_append,or_iff_left later,validateNext]
  cases result : validateCandidate lib cfg noteText c with
  | error rejection =>
    have own := candidateId_of_error result
    dsimp only
    rw [List.mem_append,or_iff_right unlisted,List.mem_singleton]
    constructor
    · intro its
      exact .inl (saysDuplicate_of_error (its ▸ result))
    · rintro (quits | ⟨checked,ok,_⟩)
      · rw [error_of_saysDuplicate quits] at result
        cases result
        rfl
      · cases ok
  | ok checked =>
    have quiet : ¬saysDuplicate lib noteText c = true := by
      intro quits
      rw [error_of_saysDuplicate quits] at result
      cases result
    have keys : seenKey lib checked ∈ (validateCandidates lib cfg noteText before).valid.map (seenKey lib) ↔
        seenKey lib checked ∈ (passing lib cfg noteText before).map (seenKey lib) := by
      rw [valid_eq_firsts,mem_keys_firsts]
    rw [or_iff_right quiet]
    dsimp only
    split
    · rename_i seen
      rw [candidateId_of_ok result]
      exact ⟨fun _ => ⟨checked,rfl,keys.mp seen⟩,fun _ => List.mem_append_right _ List.mem_cons_self⟩
    · rename_i new
      rw [keys] at new
      refine ⟨fun listed => absurd listed unlisted,?_⟩
      rintro ⟨other,ok,seen⟩
      cases ok
      exact absurd seen new

end Split

/-! ### True duplicates -/

def statement (c : MemoryCandidate σ) : MemoryType × Option String × Option String × Option String × Option TaskStatus :=
  (c.memoryType,c.memoryKey,c.subject,c.polarity,c.taskStatus)

structure DropsDuplicates (lib : Library σ) (cfg : Settings) (noteText : String) (candidates : List (MemoryCandidate σ)) : Prop where
  accounted : ((validateCandidates lib cfg noteText candidates).valid.map (·.candidateId) ++
    (validateCandidates lib cfg noteText candidates).rejected.map (·.candidateId)).Perm (candidates.map (·.candidateId))
  in_order : ∃ kept, kept.Sublist candidates ∧
    List.Forall₂ (fun c checked => validateCandidate lib cfg noteText c = .ok checked) kept (validateCandidates lib cfg noteText candidates).valid
  truthful : ∀ before c after, candidates = before ++ c::after →
    ⟨c.candidateId,"duplicate_candidate"⟩ ∈ (validateCandidates lib cfg noteText candidates).rejected →
    ∃ checked, validateCandidate lib cfg noteText c = .ok checked ∧ ∃ kept ∈ (validateCandidates lib cfg noteText candidates).valid,
      kept.candidateId ∈ before.map (·.candidateId) ∧ statement kept = statement checked

/-- A batch drops only true duplicates exactly when no candidate says that it is one, and whenever a
passing candidate has the key of an earlier one, what it is about was there before. -/
theorem drops_duplicates_iff (lib : Library σ) (cfg : Settings) (noteText : String) (candidates : List (MemoryCandidate σ))
    (distinct : (candidates.map (·.candidateId)).Nodup) :
    DropsDuplicates lib cfg noteText candidates ↔ (∀ c ∈ candidates, saysDuplicate lib noteText c = false) ∧
      ∀ before checked after, passing lib cfg noteText candidates = before ++ checked::after →
        seenKey lib checked ∈ before.map (seenKey lib) → statement checked ∈ before.map statement := by
  constructor
  · intro drops
    refine ⟨fun c inside => ?_,?_⟩
    · obtain ⟨before,after,rfl⟩ := List.append_of_mem inside
      by_contra quits
      rw [Bool.not_eq_false] at quits
      obtain ⟨checked,ok,_⟩ := drops.truthful before c after rfl ((rejected_duplicate_iff distinct).mpr (.inl quits))
      rw [error_of_saysDuplicate quits] at ok
      cases ok
    · intro before checked after split seen
      obtain ⟨first,c,rest,rfl,ok,rfl⟩ := exists_split_of_passing split
      obtain ⟨checked',ok',kept,inside,early,same⟩ :=
        drops.truthful first c rest rfl ((rejected_duplicate_iff distinct).mpr (.inr ⟨checked,ok,seen⟩))
      rw [ok] at ok'
      cases ok'
      have old := kept_before distinct inside early
      rw [valid_eq_firsts] at old
      rw [← same]
      exact List.mem_map_of_mem (firsts_subset old)
  · rintro ⟨quiet,repeats⟩
    refine ⟨accounted candidates,passed_in_order candidates,?_⟩
    rintro before c after rfl rejected
    rcases (rejected_duplicate_iff distinct).mp rejected with quits | ⟨checked,ok,seen⟩
    · rw [quiet c (List.mem_append_right _ List.mem_cons_self)] at quits
      cases quits
    · refine ⟨checked,ok,?_⟩
      have there := repeats _ checked _ (passing_split ok) seen
      obtain ⟨other,earlier,same⟩ := List.mem_map.mp there
      have listed : statement other ∈ (firsts (seenKey lib) (passing lib cfg noteText before)).map statement :=
        mem_values_firsts (fun first x rest split => repeats first x (rest ++ checked::passing lib cfg noteText after)
          (by rw [passing_split ok,split,List.append_assoc,List.cons_append])) earlier
      rw [← valid_eq_firsts] at listed
      obtain ⟨kept,inside,agrees⟩ := List.mem_map.mp listed
      obtain ⟨valid,rest,same',_⟩ := exists_more lib cfg noteText
        (validateCandidates lib cfg noteText before) (c::after)
      refine ⟨kept,?_,?_,agrees.trans same⟩
      · rw [validateCandidates_append,same']
        exact List.mem_append_left _ inside
      · exact (accounted before).mem_iff.mp (List.mem_append_left _ (List.mem_map_of_mem (f := (·.candidateId)) inside))

/-- Two people who like the same. -/
def noteOfTwo : String := "张三喜欢咖啡，李四也喜欢咖啡"

def libraryOfTwo : Library Unit where
  folded := id
  containsSensitiveData _ := false
  memoryKeyFor _ subject _ _ _ := "preference:" ++ subject.getD "用户" ++ ":咖啡:global"
  identity c := ⟨c.subject,c.predicate,c.objectValue,c.taskStatus,c.polarity,c.memoryKey,c.scope.operation,c.scope.polarity,()⟩

def likesCoffee (candidateId subject evidenceSpan : String) : MemoryCandidate Unit where
  candidateId := candidateId
  memoryType := .preference
  content := "喜欢咖啡"
  importance := .finite 1
  confidence := .finite 1
  subject := some subject
  predicate := some "preference"
  objectValue := some "咖啡"
  evidenceSpan := some evidenceSpan
  memoryKey := some ("preference:" ++ subject ++ ":咖啡:global")
  polarity := some "positive"
  scope := {preferenceDetail := some none,rest := ()}
  extractorType := "llm"

theorem drops_duplicates_of_two : DropsDuplicates libraryOfTwo {} noteOfTwo
    [likesCoffee "cand_1" "张三" "张三喜欢咖啡",likesCoffee "cand_2" "张三" "喜欢咖啡"] := by
  apply (drops_duplicates_iff _ _ _ _ (by decide)).mpr
  refine ⟨by decide +kernel,?_⟩
  intro before checked after split seen
  have about : ∀ x ∈ passing libraryOfTwo {} noteOfTwo
      [likesCoffee "cand_1" "张三" "张三喜欢咖啡",likesCoffee "cand_2" "张三" "喜欢咖啡"],
      statement x = (.preference,some "preference:张三:咖啡:global",some "张三",some "positive",none) := by decide +kernel
  rw [split] at about
  obtain ⟨first,earlier,_⟩ := List.mem_map.mp seen
  exact List.mem_map.mpr ⟨first,earlier,(about first (List.mem_append_left _ earlier)).trans
    (about checked (List.mem_append_right _ List.mem_cons_self)).symm⟩

theorem wording_drops_subject : ((likesCoffee "cand_1" "张三" "张三喜欢咖啡").candidateId ≠ (likesCoffee "cand_2" "李四" "李四也喜欢咖啡").candidateId) ∧
    ¬DropsDuplicates libraryOfTwo {} noteOfTwo [likesCoffee "cand_1" "张三" "张三喜欢咖啡",likesCoffee "cand_2" "李四" "李四也喜欢咖啡"] := by
  refine ⟨by decide,fun drops => ?_⟩
  obtain ⟨checked,ok,kept,inside,_,same⟩ := drops.truthful [likesCoffee "cand_1" "张三" "张三喜欢咖啡"]
    (likesCoffee "cand_2" "李四" "李四也喜欢咖啡") [] rfl (by decide +kernel)
  have hers : (validateCandidate libraryOfTwo {} noteOfTwo (likesCoffee "cand_2" "李四" "李四也喜欢咖啡")).toOption.map
      (·.subject) = some (some "李四") := by decide +kernel
  have his : ∀ kept ∈ (validateCandidates libraryOfTwo {} noteOfTwo
      [likesCoffee "cand_1" "张三" "张三喜欢咖啡",likesCoffee "cand_2" "李四" "李四也喜欢咖啡"]).valid, kept.subject = some "张三" := by decide +kernel
  rw [ok] at hers
  have subjects : kept.subject = checked.subject := congrArg (fun s => s.2.2.1) same
  rw [his kept inside,(Option.some.inj hers : checked.subject = _)] at subjects
  exact absurd subjects (by decide)

end Suixinji.Extraction
