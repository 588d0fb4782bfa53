import Mathlib.Algebra.Order.Ring.Rat
import Mathlib.Data.List.Infix
import Suixinji.Extraction.Candidates
import Suixinji.Relational.Firsts

/-! The merge of the model's candidates with those of the rules (memory/extractor.py). How the wording of two candidates
compares is a parameter. -/
namespace Suixinji.Extraction.Hybrid
open Text (contains isSpace present stripped)

/-- A value of the dict `scope`: its `str`, whether Python takes it for true, and its items. -/
structure Value where
  str : String
  truth : Bool := true
  items : List String := []

def Value.text (s : String) : Value := {str := s,truth := s ≠ "",items := s.toList.map toString}

def Value.null : Value := {str := "None",truth := false}

/-- A list of texts, without quotes and escapes in them. -/
def Value.list (items : List String) : Value :=
  {str := "[" ++ ", ".intercalate (items.map (fun s => "'" ++ s ++ "'")) ++ "]",truth := items ≠ [],items}

abbrev Dict := String → Option Value

/-- `d.get(key) or default`, if that is a text. -/
def Dict.read (d : Dict) (key default : String) : String := ((d key).filter Value.truth).elim default Value.str

/-- `bool(d.get(key))`. -/
def Dict.flag (d : Dict) (key : String) : Bool := (d key).any Value.truth

/-- `list(d.get(key) or [])`. -/
def Dict.list (d : Dict) (key : String) : List String := ((d key).filter Value.truth).elim [] Value.items

def Dict.set (d : Dict) (key : String) (v : Value) : Dict := fun k => if k = key then some v else d k

def Dict.update (older newer : Dict) : Dict := fun k => (newer k).or (older k)

/-- A candidate as the merge reads it: of its scope any key, of its other fields (`rest`) none. -/
structure MemoryCandidate (ρ : Type) extends Statement where
  scope : Dict := fun _ => none
  rest : ρ

/-- memory/policies/preference.py, memory/canonicalizer.py and memory/field_contracts.py. -/
structure Compatibility (ρ : Type) where
  topicCompatibility : MemoryCandidate ρ → MemoryCandidate ρ → ℚ
  scopesCompatible : MemoryCandidate ρ → MemoryCandidate ρ → Bool
  taskIdentityCompatible : MemoryCandidate ρ → MemoryCandidate ρ → Bool
  normalizeSemanticAttribute : Option String → Option String

variable {σ ρ : Type}

def dedupeKey (lib : Library σ) (c : MemoryCandidate ρ) : Option String × MemoryType × String × String :=
  (c.noteId,c.memoryType,c.effectiveMemoryKey lib,if present c.evidenceSpan then c.evidenceSpan.getD "" else c.normalizedContent lib)

def dedupe (lib : Library σ) (candidates : List (MemoryCandidate ρ)) : List (MemoryCandidate ρ) :=
  Firsts.firsts (dedupeKey lib) candidates

/-- `part and whole and part in whole`. -/
def inside (part whole : Option String) : Bool := present part && present whole && contains (whole.getD "") (part.getD "")

def overlapping (a b : Option String) : Bool := inside a b || inside b a

def hasTaskInput (c : MemoryCandidate ρ) : Bool := (c.scope "task_input").isSome

def hasPreferenceDetail (c : MemoryCandidate ρ) : Bool := (c.scope "preference_detail").isSome

section Facts

variable (lib : Library σ) (like : Compatibility ρ)

def sameEvidence (model rule : MemoryCandidate ρ) : Bool :=
  let modelEvidence := Ask.clean (model.evidenceSpan.getD "")
  let ruleEvidence := Ask.clean (rule.evidenceSpan.getD "")
  modelEvidence ≠ "" && ruleEvidence ≠ "" && (contains ruleEvidence modelEvidence || contains modelEvidence ruleEvidence)

def decided (polarity : Option String) : Bool := polarity = some "positive" || polarity = some "negative"

def preferenceIdentityCompatible (model rule : MemoryCandidate ρ) : Bool :=
  if like.topicCompatibility model rule < 3/4 then false
  else if !like.scopesCompatible model rule then false
  else !(decided model.polarity && decided rule.polarity && model.polarity ≠ rule.polarity)

def episodicTopic (c : MemoryCandidate ρ) : String := normalizeContent lib (c.scope.read "canonical_topic" (c.objectValue.getD ""))

def episodicIdentityCompatible (model rule : MemoryCandidate ρ) : Bool :=
  if model.scope.read "scope" "history" ≠ rule.scope.read "scope" "history" then false
  else
    let modelTopic := episodicTopic lib model
    let ruleTopic := episodicTopic lib rule
    if modelTopic = "" || ruleTopic = "" then false
    else
      let (shorter,longer) := if modelTopic.length ≤ ruleTopic.length then (modelTopic,ruleTopic) else (ruleTopic,modelTopic)
      modelTopic = ruleTopic || (4 ≤ shorter.length && contains longer shorter)

/-- The evidence without `[\s。！？!?；;，,]+`. -/
def compact (c : MemoryCandidate ρ) : List Char :=
  (c.evidenceSpan.getD "").toList.filter (fun x => !isSpace x && !"。！？!?；;，,".toList.contains x)

def taskIdentityCompatibleForSameEvidence (model rule : MemoryCandidate ρ) : Bool :=
  let modelBlocker := stripped (model.scope.read "blocker" "")
  let ruleBlocker := stripped (rule.scope.read "blocker" "")
  like.taskIdentityCompatible model rule ||
    modelBlocker ≠ "" && modelBlocker = ruleBlocker && model.taskStatus = rule.taskStatus ||
    "这个项目".toList.isPrefixOf (compact model) || "该项目".toList.isPrefixOf (compact model)

def genericAttributes : List String := ["fact","事实","other","其他"]

def semanticIdentityCompatibleForSameEvidence (model rule : MemoryCandidate ρ) : Bool :=
  if model.effectiveMemoryKey lib = rule.effectiveMemoryKey lib then true
  else if normalizeContent lib (rule.predicate.getD "") ∉ genericAttributes then false
  else present (like.normalizeSemanticAttribute model.predicate)

/-- The branches after the four types are never taken: a candidate has one of them. -/
def isSameFact (model rule : MemoryCandidate ρ) : Bool :=
  if model.memoryType ≠ rule.memoryType then false
  else if !sameEvidence model rule then false
  else match model.memoryType with
  | .preference =>
    model.effectiveMemoryKey lib = rule.effectiveMemoryKey lib || preferenceIdentityCompatible like model rule
  | .task => taskIdentityCompatibleForSameEvidence like model rule
  | .episodic => episodicIdentityCompatible lib model rule
  | .semantic => semanticIdentityCompatibleForSameEvidence lib like model rule

/-- `preference_pair_is_unambiguous` and `semantic_pair_is_unambiguous`, by their type. -/
def pairIsUnambiguous (type : MemoryType) (models rules : List (MemoryCandidate ρ)) (model rule : MemoryCandidate ρ) : Bool :=
  model.effectiveMemoryKey lib = rule.effectiveMemoryKey lib ||
    (models.filter (fun c => c.memoryType = type && isSameFact lib like c rule)).length = 1 &&
    (rules.filter (fun c => c.memoryType = type && isSameFact lib like model c)).length = 1

def matchingRule (models rules : List (MemoryCandidate ρ)) (taken : List Nat) (model : MemoryCandidate ρ) :
    Option (MemoryCandidate ρ × Nat) :=
  rules.zipIdx.find? (fun (rule,index) => isSameFact lib like model rule &&
    match model.memoryType with
    | .preference => !taken.contains index && pairIsUnambiguous lib like .preference models rules model rule
    | .semantic => pairIsUnambiguous lib like .semantic models rules model rule
    | .task | .episodic => true)

end Facts

def backfilled (model rule : MemoryCandidate ρ) : MemoryCandidate ρ :=
  let merged := rule.scope.update model.scope
  let merged := if model.memoryType = .preference then
      let qualifiers := Firsts.firsts id (rule.scope.list "qualifiers" ++ model.scope.list "qualifiers")
      merged.set "qualifiers" (.list qualifiers)
    else merged
  let merged := if !model.scope.flag "scope_explicit" && rule.scope.flag "scope_explicit" then
      ((merged.set "scope" ((rule.scope "scope").getD .null)).set "scope_explicit" {str := "True"}).set "scope_source"
        (((rule.scope "scope_source").filter Value.truth).getD (.text "rules"))
    else merged
  { model with
    taskStatus := model.taskStatus.or rule.taskStatus
    polarity := if model.polarity = none ∨ model.polarity = some "unknown" then rule.polarity else model.polarity
    scope := merged }

def repairReason : String := "hybrid_atom_coverage_repair"

def preferenceError : String := "第一阶段可能遗漏了这条偏好，需要补充或重新处理"

section Merge

variable (lib : Library σ) (like : Compatibility ρ)

/-- The loop over the model candidates, with the indexes of the preferences that are matched. -/
def enriched (models rules : List (MemoryCandidate ρ)) : List Nat → List (MemoryCandidate ρ) → List (MemoryCandidate ρ) × List Nat
  | taken,[] => ([],taken)
  | taken,model::rest =>
    match matchingRule lib like models rules taken model with
    | none =>
      let (rows,taken) := enriched models rules taken rest
      (model::rows,taken)
    | some (rule,index) =>
      let (rows,taken) := enriched models rules (if model.memoryType = .preference then taken ++ [index] else taken) rest
      (backfilled model rule::rows,taken)

def covered (rows rules : List (MemoryCandidate ρ)) (taken : List Nat) (candidate : MemoryCandidate ρ) (index : Nat) : Bool :=
  match candidate.memoryType with
  | .preference => taken.contains index
  | .semantic => rows.any (fun model =>
    isSameFact lib like model candidate && pairIsUnambiguous lib like .semantic rows rules model candidate)
  | .task | .episodic => rows.any (fun model => isSameFact lib like model candidate)

def repaired (c : MemoryCandidate ρ) : MemoryCandidate ρ := { c with reason := some repairReason,extractionReason := some repairReason }

def additions (rows rules : List (MemoryCandidate ρ)) (taken : List Nat) : List (MemoryCandidate ρ) :=
  (rules.zipIdx.filter (fun (candidate,index) => !covered lib like rows rules taken candidate index)).map (fun (candidate,_) => repaired candidate)

/-- The plain rows: those of neither the task cards nor the preference cards. -/
def mergePlain (models rules : List (MemoryCandidate ρ)) : List (MemoryCandidate ρ) :=
  let (rows,taken) := enriched lib like models rules [] models
  dedupe lib (rows ++ additions lib like rows rules taken)

/-- `str(rule.object_value or '') and str(rule.object_value) in (str(c.object_value or '') + c.content)`. -/
def names (c rule : MemoryCandidate ρ) : Bool :=
  present rule.objectValue && contains (c.objectValue.getD "" ++ c.content) (rule.objectValue.getD "")

def preferenceCovered (direct preferenceRules : List (MemoryCandidate ρ)) (rule : MemoryCandidate ρ) : Bool :=
  let hits := direct.filter (fun c => overlapping rule.evidenceSpan c.evidenceSpan)
  let peers := preferenceRules.filter (fun r => hits.any (fun c => overlapping r.evidenceSpan c.evidenceSpan))
  hits ≠ [] && (peers.length = 1 || hits.any (fun c => names c rule))

def uncoveredPreferences (direct rules : List (MemoryCandidate ρ)) : List (MemoryCandidate ρ) :=
  let preferenceRules := rules.filter (fun c => c.memoryType = .preference)
  (preferenceRules.filter (fun rule => !preferenceCovered direct preferenceRules rule)).map
    (fun rule => { rule with scope := rule.scope.set "preference_error" (.text preferenceError) })

def uncoveredTasks (direct rules : List (MemoryCandidate ρ)) : List (MemoryCandidate ρ) :=
  rules.filter (fun r => r.memoryType = .task && !direct.any (fun c => inside r.evidenceSpan c.evidenceSpan))

def having (p : MemoryCandidate ρ → Bool) (candidates : List (MemoryCandidate ρ)) : List (MemoryCandidate ρ) := candidates.filter p

def lacking (p : MemoryCandidate ρ → Bool) (candidates : List (MemoryCandidate ρ)) : List (MemoryCandidate ρ) :=
  candidates.filter (fun c => !p c)

theorem lacking_length_lt {p : MemoryCandidate ρ → Bool} {candidates : List (MemoryCandidate ρ)} (some_row : having p candidates ≠ []) :
    (lacking p candidates).length < candidates.length := by
  obtain ⟨c,member⟩ := List.exists_mem_of_ne_nil _ some_row
  obtain ⟨inside,meets⟩ := List.mem_filter.mp member
  exact List.length_filter_lt_length_iff_exists.mpr ⟨c,inside,by simp [meets]⟩

def mergeUncoveredRuleCandidates (models rules : List (MemoryCandidate ρ)) : List (MemoryCandidate ρ) :=
  if having hasTaskInput models ≠ [] then
    let taskDirect := having hasTaskInput models
    let rest := mergeUncoveredRuleCandidates (lacking hasTaskInput models) (rules.filter (fun r => r.memoryType ≠ .task))
    dedupe lib (taskDirect ++ rest ++ uncoveredTasks taskDirect rules)
  else if having hasPreferenceDetail models ≠ [] then
    let direct := having hasPreferenceDetail models
    let other := mergeUncoveredRuleCandidates (lacking hasPreferenceDetail models)
      (rules.filter (fun r => r.memoryType ≠ .preference))
    dedupe lib (direct ++ other ++ uncoveredPreferences direct rules)
  else mergePlain lib like models rules
termination_by models.length
decreasing_by
  · exact lacking_length_lt ‹_›
  · exact lacking_length_lt ‹_›

end Merge

end Suixinji.Extraction.Hybrid
