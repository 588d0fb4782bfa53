import Suixinji.Ask.Evidence
import Suixinji.Memories.Review

/-! From the bundles of a plan to the answer and the claims it exports
(agent/ask_workflow.py). What the model answers is any JSON or an error, and is checked
before anything of it is kept. -/
namespace Suixinji.Ask
open Text (contains mentionsAny stripChars stripped)

/-- The JSON an answer is parsed to. A number is its text and whether it is zero. -/
inductive Data where
  | null
  | bool (value : Bool)
  | number (text : String) (zero : Bool)
  | text (s : String)
  | list (items : List Data)
  | object (fields : List (String × Data))

abbrev Fields := List (String × Data)

/-- `item.get(name)`. -/
def Fields.get (fields : Fields) (name : String) : Data := (List.lookup name fields).getD .null

def Data.truthy : Data → Bool
  | .null => false
  | .bool value => value
  | .number _ zero => !zero
  | .text s => s ≠ ""
  | .list items => !items.isEmpty
  | .object fields => !fields.isEmpty

/-- The elements of `value or []`. A number and `true` have none to give and raise. -/
def Data.elements : Data → Option (List Data)
  | .list items => some items
  | .text s => some (s.toList.map (fun c => .text (String.singleton c)))
  | .object fields => some (fields.map (fun field => .text field.1))
  | value => if value.truthy then none else some []

/-- How Python treats texts. -/
structure Writing where
  casefold : String → String
  isAlnum : Char → Bool
  /-- `str` of a list or an object. -/
  shown : Data → String

/-- What is asked of the model, and the kind of an error it ends in. -/
abbrev Response := Except String Data

structure Line where
  unitId : Option String
  text : String
  deriving DecidableEq

inductive SupportRole where
  | current
  | history
  deriving DecidableEq

/-- A claim exported, with the unit and the identity it is merged under. -/
structure Claim where
  unitId : String
  identity : String
  text : String
  memoryIds : List String := []
  versionIds : List String := []
  sourceIds : List String := []
  supportRole : SupportRole := .current
  deriving DecidableEq

inductive ContractStatus where
  | notApplicable
  | valid
  | repaired
  | failed
  deriving DecidableEq

/-- The answer by its lines, the claims and the diagnostic. -/
structure Reply where
  lines : List Line
  claims : List Claim
  status : ContractStatus
  attempts : Nat
  failureReason : Option String := none
  failureReasons : List String := []
  answeredUnits : List String := []
  deriving DecidableEq

def Reply.answer (reply : Reply) : String := "\n".intercalate (reply.lines.map (·.text))

/-- `text.split(marker, 1)[0]`. -/
def before (marker : List Char) : List Char → List Char
  | [] => []
  | c::rest => if marker.isPrefixOf (c::rest) then [] else c::before marker rest

/-- `_timeline_topic`. -/
def timelineTopic (content : String) : String :=
  let text := stripped content
  let cut := match [":","：","是","被阻塞","开始","完成","待处理","取消"].find? (contains text) with
    | none => text
    | some marker => String.ofList (before marker.toList text.toList)
  orText (stripChars [' ','，','。'] cut) "该事项"

/-- `_status_from_evidence`. -/
def statusFromEvidence (writing : Writing) (item : EvidenceItem) : Option String :=
  let status := writing.casefold (stripped (item.taskStatus.getD ""))
  if mentionsAny item.content ["阻塞","blocked"] then some "blocked"
  else if mentionsAny item.content ["完成","做完","done"] then some "done"
  else if status ∈ ["todo","blocked","done"] then some status
  else if mentionsAny item.content ["开始","待处理","todo"] then some "todo"
  else none

/-- The text of the summary claim of `_timeline_claim_group`. -/
def timelineSummary (writing : Writing) (bundle : UnitEvidenceBundle) : Option String :=
  let items := bundle.evidence.filter (fun item => item.versionId.any (· ≠ ""))
  if items.length < 2 ∨ (items.map (·.memoryId)).eraseDups.length ≠ 1 then none
  else
    let topic := timelineTopic ((items.head?.map (·.content)).getD "")
    match bundle.evidence.head?.bind (·.memoryType),items.mapM (statusFromEvidence writing) with
    | some .task,some (first::second::rest) =>
      if rest.isEmpty then some (topic ++ "从" ++ first ++ "变为" ++ second ++ "。")
      else some (topic ++ "先处于" ++ first ++ "，随后进入" ++ second ++ "，最后转为" ++ rest.getLastD second ++ "。")
    | _,_ => some ("；".intercalate (items.map (fun item => stripChars ['。','；',' '] item.content)) ++ "。")

def notFoundText (unit : QueryUnit) : String := "关于“" ++ unit.question ++ "”，没有找到相关记录。"

def conflictText (unit : QueryUnit) : String := "关于“" ++ unit.question ++ "”，现有记录存在冲突，暂时无法确认。"

def unverifiedText (unit : QueryUnit) : String := "关于“" ++ unit.question ++ "”，已找到相关证据，但暂时无法生成可验证回答。"

/-- `{bundle.unit_id: bundle for bundle in bundles}`. -/
def bundleFor (bundles : List UnitEvidenceBundle) (unitId : String) : Option UnitEvidenceBundle :=
  bundles.reverse.find? (fun bundle => bundle.unitId = unitId)

/-- What `_fallback_answer` says of a unit. -/
def fallbackText (writing : Writing) (bundles : List UnitEvidenceBundle) (unit : QueryUnit) : Option String :=
  match bundleFor bundles unit.id with
  | none => some (notFoundText unit)
  | some bundle =>
    match bundle.resolution.status with
    | .notFound => some (notFoundText unit)
    | .conflict => some (conflictText unit)
    | _ =>
      if unit.intent = .memoryHistory then some (orText ((timelineSummary writing bundle).getD "") (bundle.resolution.value.getD ""))
      else bundle.resolution.value.filter (· ≠ "")

/-- `_fallback_answer`. -/
def fallbackAnswer (writing : Writing) (plan : AskPlan) (bundles : List UnitEvidenceBundle) : List Line :=
  let values := plan.units.filterMap (fun unit => (fallbackText writing bundles unit).map (⟨some unit.id,·⟩))
  if "\n".intercalate (values.map (·.text)) = "" then [⟨none,"没有找到足够的相关记录。"⟩] else values

/-- `_answer_contract_failure_answer`. -/
def answerContractFailureAnswer (plan : AskPlan) (bundles : List UnitEvidenceBundle) : List Line :=
  let found := plan.units.filter (fun unit =>
    bundles.any (fun bundle => bundle.unitId = unit.id && !bundle.resolution.selectedEvidenceIds.isEmpty))
  if found.isEmpty then [⟨none,"已找到相关证据，但暂时无法生成可验证回答。"⟩]
  else found.map (fun unit => ⟨some unit.id,unverifiedText unit⟩)

def UnitEvidenceBundle.answerable (bundle : UnitEvidenceBundle) : Bool :=
  (bundle.resolution.status = .resolved || bundle.resolution.status = .partly) && !bundle.resolution.selectedEvidenceIds.isEmpty

/-- `evidence_by_unit[unit_id][evidence_id]`. -/
def itemOf (bundles : List UnitEvidenceBundle) (unitId evidenceId : String) : Option EvidenceItem :=
  (bundleFor bundles unitId).bind (fun bundle => bundle.evidence.reverse.find? (fun item => item.evidenceId = evidenceId))

def attach (claim : Claim) (item : EvidenceItem) : Claim :=
  let add := fun (ids : List String) (id : String) => if id ∈ ids then ids else ids ++ [id]
  { claim with
    memoryIds := (item.memoryId.filter (· ≠ "")).elim claim.memoryIds (add claim.memoryIds)
    versionIds := (item.versionId.filter (· ≠ "")).elim claim.versionIds (add claim.versionIds)
    sourceIds := item.sourceNoteIds.foldl add claim.sourceIds
    supportRole := if item.evidenceRole = .historical then .history else claim.supportRole }

namespace Writing

variable (w : Writing) (bundles : List UnitEvidenceBundle)

/-- `str(value)`. -/
def str : Data → String
  | .null => "None"
  | .bool true => "True"
  | .bool false => "False"
  | .number text _ => text
  | .text s => s
  | value => w.shown value

/-- `str(value or "")`. -/
def strOr (value : Data) : String := if value.truthy then w.str value else ""

/-- `list(dict.fromkeys(str(value) for value in item.get("evidence_ids") or [] if str(value)))`. -/
def evidenceIds (item : Fields) : Option (List String) :=
  (item.get "evidence_ids").elements.map (fun values => ((values.map w.str).filter (· ≠ "")).eraseDups)

def unitId (item : Fields) : String := w.strOr (item.get "unit_id")

def answer (item : Fields) : String := stripped (w.strOr (item.get "answer"))

/-- `_claim_identity`. -/
def claimIdentity (text : String) : String := String.ofList ((w.casefold text).toList.filter w.isAlnum)

/-- Why a unit answer is not accepted. -/
def rejection (seen : List String) (item : Fields) (ids : List String) : Option String :=
  if w.unitId item = "" ∨ (bundleFor bundles (w.unitId item)).isNone then some "unit_id_not_allowed"
  else if w.unitId item ∈ seen then some "duplicate_unit_id"
  else if ids = [] then some "evidence_ids_empty"
  else if ∃ id ∈ ids, (itemOf bundles (w.unitId item) id).isNone then some "evidence_id_not_allowed"
  else if w.answer item = "" then some "answer_empty"
  else none

/-- The loop of `_validated_answer_contract_items`: what is accepted, and why the rest is not.
None where it raises. -/
def acceptAnswers : List Data → List String → Option (List Fields × List String)
  | [],_ => some ([],[])
  | .object item::rest,seen => do
    let ids ← w.evidenceIds item
    match w.rejection bundles seen item ids with
    | some reason => do
      let (accepted,rejected) ← acceptAnswers rest seen
      pure (accepted,reason::rejected)
    | none => do
      let (accepted,rejected) ← acceptAnswers rest (w.unitId item::seen)
      pure (item::accepted,rejected)
  | _::rest,seen => do
    let (accepted,rejected) ← acceptAnswers rest seen
    pure (accepted,"unit_answer_not_object"::rejected)

/-- `_validated_answer_contract_items`. -/
def validatedAnswerContractItems (data : Data) : Option (List Fields × List String) :=
  let answers := match data with
    | .object fields => Fields.get fields "unit_answers"
    | _ => .null
  match answers with
  | .list items => do
    let (accepted,rejected) ← w.acceptAnswers bundles items []
    pure (accepted,if accepted.isEmpty && rejected.isEmpty then ["no_unit_answers"] else rejected)
  | _ => some ([],["unit_answers_not_list"])

def unitClaims (item : Fields) (ids : List String) : List Data → Option (List (String × List String))
  | [] => some []
  | .object claim::rest => do
    let cited ← w.evidenceIds claim
    let text := stripped (w.strOr (Fields.get claim "text"))
    let others ← unitClaims item ids rest
    let supported := text ≠ "" ∧ cited ≠ [] ∧
      (w.claimIdentity text).toList <:+: (w.claimIdentity (w.answer item)).toList ∧
      ∀ id ∈ cited, id ∈ ids ∧ (itemOf bundles (w.unitId item) id).isSome
    pure (if supported then (text,cited)::others else others)
  | _::rest => unitClaims item ids rest

def ownClaims (item : Fields) (ids : List String) : Option (List (String × List String)) :=
  match item.get "claims" with
  | .list claims => w.unitClaims bundles item ids claims
  | _ => some []

/-- The claims rendered for a unit answer: the whole answer where none of its own will do. -/
def renderedClaims (item : Fields) : Option (List (String × List String)) := do
  let ids ← w.evidenceIds item
  let claims ← w.ownClaims bundles item ids
  pure (if claims.isEmpty then [(w.answer item,ids)] else claims)

def mergeClaim (unitId : String) (merged : List Claim) (claim : String × List String) : List Claim :=
  let identity := w.claimIdentity claim.1
  if identity = "" then merged
  else
    let cited := claim.2.filterMap (itemOf bundles unitId)
    let same := fun c : Claim => c.unitId = unitId && c.identity = identity
    if merged.any same then merged.map (fun c => if same c then cited.foldl attach c else c)
    else merged ++ [cited.foldl attach { unitId := unitId, identity := identity, text := stripped claim.1 }]

/-- `_claims_from_answer_units`. -/
def claimsFromAnswerUnits (accepted : List (String × List (String × List String))) : List Claim :=
  accepted.foldl (fun merged answer => answer.2.foldl (w.mergeClaim bundles answer.1) merged) []

/-- `_render_validated_answer_contract`, on answers that were accepted. -/
def renderValidatedAnswerContract (items : List Fields) : Option (List Line × List Claim) := do
  let answers := items.filter (fun item => w.unitId item ≠ "" && w.answer item ≠ "")
  let claims ← answers.mapM (fun item => (w.renderedClaims bundles item).map (w.unitId item,·))
  pure (answers.map (fun item => ⟨some (w.unitId item),w.answer item⟩),w.claimsFromAnswerUnits bundles claims)

/-- One attempt: what it accepts and why it does not accept the rest. -/
def attempt : Response → Option (List Fields × List String)
  | .error kind => some ([],["provider_" ++ kind])
  | .ok data => w.validatedAnswerContractItems bundles data

/-- `_answer_with_claims_from_bundles_detailed`, with the responses to the first and to the
second request. None where it raises. -/
def answerWithClaimsFromBundlesDetailed (plan : AskPlan) (bundles : List UnitEvidenceBundle) (first second : Response) : Option Reply :=
  if plan.answerMode = .timeline ∨ ∃ unit ∈ plan.units, unit.intent = .memoryHistory then
    some { lines := fallbackAnswer w plan bundles, claims := [], status := .notApplicable, attempts := 0 }
  else
    let answerable := bundles.filter (·.answerable)
    if answerable.isEmpty then
      some { lines := fallbackAnswer w plan bundles, claims := [], status := .notApplicable, attempts := 0,
             failureReason := some "no_answerable_bundle" }
    else do
      let (accepted,rejected) ← w.attempt answerable first
      if !accepted.isEmpty then do
        let (lines,claims) ← w.renderValidatedAnswerContract answerable accepted
        pure { lines, claims, status := .valid, attempts := 1, failureReasons := rejected,
               answeredUnits := accepted.map w.unitId }
      else do
        let (accepted,more) ← w.attempt answerable second
        if !accepted.isEmpty then do
          let (lines,claims) ← w.renderValidatedAnswerContract answerable accepted
          pure { lines, claims, status := .repaired, attempts := 2, failureReasons := rejected ++ more,
                 answeredUnits := accepted.map w.unitId }
        else
          pure { lines := answerContractFailureAnswer plan bundles, claims := [], status := .failed, attempts := 2,
                 failureReason := (rejected ++ more).head?.or (some "no_valid_unit_answer"), failureReasons := rejected ++ more }

end Writing

end Suixinji.Ask
