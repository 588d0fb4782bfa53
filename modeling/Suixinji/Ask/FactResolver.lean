import Suixinji.Ask.Answer

/-! Atomic facts for the units of a plan (agent/fact_resolver.py). The model is asked once for
all units, and what it gives is checked against the evidence of all units before the facts
are handed to the bundles. -/
namespace Suixinji.Ask
open Text (contains isSpace)

variable {Q : Type}

/-- How Python reads texts and numbers. -/
structure Numbers (Q : Type) where
  casefold : String → String
  /-- `\d`. -/
  isDigit : Char → Bool
  /-- A value that pydantic takes for a float. -/
  read : Data → Option Q
  /-- `str(int(quantity))` of a whole number and `str(quantity)` of any other. -/
  rendered : Q → String

inductive Modality where
  | asserted
  | planned
  | uncertain
  deriving DecidableEq

/-- A claim with the words it is taken from. -/
structure EvidenceFact (Q : Type) where
  unitId : String
  evidenceId : String
  quote : String
  claim : String
  modality : Modality
  subject : Option String
  predicate : Option String
  value : Option String
  eventTime : Option String
  itemKey : Option String
  quantity : Option Q
  deriving DecidableEq

structure FactBundle (Q : Type) extends UnitEvidenceBundle where
  facts : List (EvidenceFact Q)
  factSummary : Option String

inductive Rejection where
  | notObject
  | schemaInvalid
  | unknownUnit
  | unknownEvidence
  | quoteNotGrounded
  | quantityNotGrounded
  | llmUnavailable
  | factsMissing
  deriving DecidableEq

structure FactResolutionResult where
  accepted : Nat
  rejected : Nat
  rejectedReasons : List (Rejection × Nat)
  deriving DecidableEq

def FactResolutionResult.none : FactResolutionResult := ⟨0,0,[]⟩

/-- `reasons[reason] = reasons.get(reason, 0) + 1`. -/
def counted (reason : Rejection) (reasons : List (Rejection × Nat)) : List (Rejection × Nat) :=
  if (reasons.lookup reason).isSome then reasons.map (fun entry => if entry.1 = reason then (reason,entry.2 + 1) else entry)
  else reasons ++ [(reason,1)]

def FactResolutionResult.reject (result : FactResolutionResult) (reason : Rejection) : FactResolutionResult :=
  { result with rejected := result.rejected + 1,rejectedReasons := counted reason result.rejectedReasons }

def required (least most : Nat) : Data → Option String
  | .text s => if least ≤ s.length ∧ s.length ≤ most then some s else none
  | _ => none

/-- A text field that may be left out. -/
def optional (most : Nat) : Data → Option (Option String)
  | .null => some none
  | .text s => if s.length ≤ most then some (some s) else none
  | _ => none

def Modality.read : Data → Option Modality
  | .text "asserted" => some .asserted
  | .text "planned" => some .planned
  | .text "uncertain" => some .uncertain
  | _ => none

def Numbers.quantity (numbers : Numbers Q) : Data → Option (Option Q)
  | .null => some none
  | data => (numbers.read data).map some

/-- `EvidenceFact.model_validate`. -/
def EvidenceFact.validate (numbers : Numbers Q) (raw : Fields) : Option (EvidenceFact Q) := do
  let unitId ← required 1 32 (raw.get "unit_id")
  let evidenceId ← required 1 128 (raw.get "evidence_id")
  let quote ← required 3 600 (raw.get "quote")
  let claim ← required 1 500 (raw.get "claim")
  let modality ← Modality.read (raw.get "modality")
  let subject ← optional 160 (raw.get "subject")
  let predicate ← optional 160 (raw.get "predicate")
  let value ← optional 240 (raw.get "value")
  let eventTime ← optional 80 (raw.get "event_time")
  let itemKey ← optional 160 (raw.get "item_key")
  let quantity ← numbers.quantity (raw.get "quantity")
  pure { unitId,evidenceId,quote,claim,modality,subject,predicate,value,eventTime,itemKey,quantity }

/-- `_normalise`: no white space, and case folded. -/
def Numbers.normalise (numbers : Numbers Q) (text : String) : String :=
  numbers.casefold (String.ofList (text.toList.filter (fun c => !isSpace c)))

/-- `_quote_is_grounded`. -/
def Numbers.quoteIsGrounded (numbers : Numbers Q) (quote evidenceText : String) : Bool :=
  3 ≤ (numbers.normalise quote).length && contains (numbers.normalise evidenceText) (numbers.normalise quote)

def standsApart (joinedBefore joinedAfter : List Char → Bool) (word text : List Char) : Bool :=
  (List.range (text.length + 1)).any (fun i =>
    word.isPrefixOf (text.drop i) && !joinedBefore (text.take i).reverse && !joinedAfter (text.drop (i + word.length)))

/-- The look-around `\d`. -/
def Numbers.digitNext (numbers : Numbers Q) (rest : List Char) : Bool := rest.head?.any numbers.isDigit

/-- `_quantity_is_grounded`. -/
def Numbers.quantityIsGrounded (numbers : Numbers Q) (quantity : Option Q) (quote : String) : Bool :=
  quantity.all (fun q => standsApart numbers.digitNext numbers.digitNext (numbers.rendered q).toList quote.toList)

/-- `_fact_from_raw`. -/
def factFromRaw (numbers : Numbers Q) (evidenceById : List (String × String)) (validUnits : List String) :
    Data → Except Rejection (EvidenceFact Q)
  | .object raw =>
    match EvidenceFact.validate numbers raw with
    | none => .error .schemaInvalid
    | some fact =>
      let evidenceText := (evidenceById.lookup fact.evidenceId).getD ""
      if fact.unitId ∉ validUnits then .error .unknownUnit
      else if evidenceText = "" then .error .unknownEvidence
      else if !numbers.quoteIsGrounded fact.quote evidenceText then .error .quoteNotGrounded
      else if !numbers.quantityIsGrounded fact.quantity fact.quote then .error .quantityNotGrounded
      else .ok fact
  | _ => .error .notObject

def Modality.label : Modality → String
  | .asserted => "明确陈述"
  | .planned => "计划/愿望"
  | .uncertain => "不确定"

def EvidenceFact.detail (fact : EvidenceFact Q) : String :=
  match fact.eventTime with
  | none | some "" => fact.claim
  | some time => fact.claim ++ "（时间：" ++ time ++ "）"

/-- `if detail not in parts: parts.append(...)`, where a part begins with its label. -/
def addPart (parts : List String) (fact : EvidenceFact Q) : List String :=
  if fact.detail ∈ parts then parts else parts ++ ["[" ++ fact.modality.label ++ "] " ++ fact.detail]

/-- `_bundle_summary`. -/
def bundleSummary (facts : List (EvidenceFact Q)) : Option String :=
  let joined := "；".intercalate (facts.foldl addPart [])
  if joined = "" then none else some (String.ofList (joined.toList.take 1000))

/-- `item.evidence_span or item.content`. -/
def EvidenceItem.span (item : EvidenceItem) : String := orText (item.evidenceSpan.getD "") item.content

def FactBundle.eligible (bundle : FactBundle Q) : Bool :=
  !bundle.evidence.isEmpty && bundle.resolution.status ≠ .notFound

def FactBundle.spans (bundle : FactBundle Q) : List (String × String) :=
  (bundle.evidence.filter (fun item => item.span ≠ "")).map (fun item => (item.evidenceId,item.span))

/-- A later item takes the place of an earlier one with its id. -/
def evidenceById (eligible : List (FactBundle Q)) : List (String × String) := (eligible.flatMap FactBundle.spans).reverse

structure RequestUnit where
  unitId : String
  evidenceMode : EvidenceMode
  evidence : List (String × String)

/-- The payload of the call. -/
structure FactRequest where
  question : String
  units : List RequestUnit

def factRequest (question : String) (plan : AskPlan) (eligible : List (FactBundle Q)) : FactRequest where
  question := question
  units := eligible.map (fun bundle => {
    unitId := bundle.unitId
    evidenceMode := ((plan.units.find? (fun unit => unit.id = bundle.unitId)).map (·.evidenceMode)).getD .aggregate
    evidence := bundle.spans })

/-- `raw.get("facts")`, if it is a list. -/
def rawFacts : Data → Option (List Data)
  | .object fields =>
    match Fields.get fields "facts" with
    | .list items => some items
    | _ => none
  | _ => none

/-- The facts that the model gives, or the result without them. -/
def askFacts (llm : FactRequest → Response) (question : String) (plan : AskPlan) (eligible : List (FactBundle Q)) :
    Except FactResolutionResult (List Data) :=
  if (evidenceById eligible).isEmpty then .error .none
  else
    match llm (factRequest question plan eligible) with
    | .error _ => .error (FactResolutionResult.none.reject .llmUnavailable)
    | .ok raw =>
      match rawFacts raw with
      | none => .error (FactResolutionResult.none.reject .factsMissing)
      | some items => .ok items

def EvidenceFact.identity (numbers : Numbers Q) (fact : EvidenceFact Q) : String × String × String :=
  (fact.unitId,fact.evidenceId,numbers.normalise fact.quote)

/-- The facts kept so far: `seen` are their identities and `by_unit` has them by their units. -/
structure FactReading (Q : Type) where
  result : FactResolutionResult
  kept : List (EvidenceFact Q)

def FactReading.next (numbers : Numbers Q) (evidenceById : List (String × String)) (validUnits : List String)
    (reading : FactReading Q) (raw : Data) : FactReading Q :=
  match factFromRaw numbers evidenceById validUnits raw with
  | .error reason => { reading with result := reading.result.reject reason }
  | .ok fact =>
    if fact.identity numbers ∈ reading.kept.map (·.identity numbers) then reading
    else {
      result := { reading.result with accepted := reading.result.accepted + 1 }
      kept := reading.kept ++ [fact] }

def readFacts (numbers : Numbers Q) (evidenceById : List (String × String)) (validUnits : List String) (raws : List Data) :
    FactReading Q :=
  (raws.take 32).foldl (FactReading.next numbers evidenceById validUnits) ⟨.none,[]⟩

def FactBundle.attach (kept : List (EvidenceFact Q)) (bundle : FactBundle Q) : FactBundle Q :=
  let facts := (kept.filter (fun fact => fact.unitId = bundle.unitId)).take 12
  { bundle with facts := facts,factSummary := bundleSummary facts }

/-- `resolve_evidence_facts`. -/
def resolveEvidenceFacts (numbers : Numbers Q) (llm : FactRequest → Response) (question : String) (plan : AskPlan)
    (bundles : List (FactBundle Q)) : FactResolutionResult × List (FactBundle Q) :=
  let eligible := bundles.filter FactBundle.eligible
  match askFacts llm question plan eligible with
  | .error result => (result,bundles)
  | .ok raws =>
    let reading := readFacts numbers (evidenceById eligible) (plan.units.map (·.id)) raws
    (reading.result,bundles.map (fun bundle => if bundle.eligible then bundle.attach reading.kept else bundle))

end Suixinji.Ask
