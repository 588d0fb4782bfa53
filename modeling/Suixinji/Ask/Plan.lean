import Suixinji.Memories.Schema
import Suixinji.Relational.Checked
import Suixinji.Relational.Text

/-! The plan of a question (agent/ask_models.py) and the one that takes its place
when the planner's is of no use. A check that fails is named by its model and the
first field that does not fit. -/
namespace Suixinji.Ask
open Suixinji.Checked
open Memories (MemoryType)
open Text (isSpace)

instance lawfulType : LawfulBEq (Option MemoryType) := inferInstance

structure ValidationError where
  model : String
  field : String
  deriving DecidableEq

/-- `ASK_INTENTS`. -/
inductive Intent where
  | taskState
  | taskInventory
  | preferenceCurrent
  | semanticCurrent
  | semanticHistory
  | episodicHistory
  | noteLookup
  | memoryHistory
  deriving DecidableEq

/-- `ASK_FACETS`. -/
inductive Facet where
  | identity
  | location
  | education
  | career
  | project
  | learning
  | capability
  | device
  | other
  deriving DecidableEq

inductive TimeMode where
  | current
  | recent
  | history
  | all
  deriving DecidableEq

inductive EvidenceMode where
  | currentState
  | inventory
  | timeline
  | sourceQuote
  | aggregate
  deriving DecidableEq

inductive AnswerMode where
  | direct
  | list
  | timeline
  | compare
  | causal
  | summary
  deriving DecidableEq

inductive ContextSource where
  | currentMessage
  | sessionContext
  deriving DecidableEq

structure AskContextItem where
  text : String
  source : ContextSource
  deriving DecidableEq

/-- A unit is changed field by field after it was checked, so its bounds are no part of it. -/
structure QueryUnit where
  id : String
  question : String
  sourceSpans : List String
  intent : Intent
  memoryType : Option MemoryType
  facet : Option Facet
  topic : Option String
  timeMode : TimeMode
  evidenceMode : EvidenceMode
  needSourceEvidence : Bool
  dependsOn : List String
  priority : Nat
  deriving DecidableEq

/-- `" ".join(value.split())`. -/
def clean (value : String) : String := String.ofList (Text.collapse isSpace value.toList)

theorem clean_clean (value : String) : clean (clean value) = clean value := by
  rw [clean,clean,String.toList_ofList,Text.collapse_collapse (by decide)]

theorem clean_length (value : String) : (clean value).length ≤ value.length := by
  rw [clean,String.length_ofList,← String.length_toList]
  exact Text.collapse_length value.toList

/-- `QueryUnit.clean_list`. -/
def cleanList (items : List String) : List String :=
  ((items.filter (fun item => !item.toList.all isSpace)).map clean).eraseDups

/-- The validators that run before the fields are checked. -/
def QueryUnit.cleaned (u : QueryUnit) : QueryUnit :=
  { u with
    id := clean u.id
    question := clean u.question
    topic := u.topic.map clean
    sourceSpans := cleanList u.sourceSpans
    dependsOn := cleanList u.dependsOn }

def QueryUnit.check (u : QueryUnit) : Except ValidationError Unit := do
  require (1 ≤ u.id.length ∧ u.id.length ≤ 32) ⟨"QueryUnit","id"⟩
  require (1 ≤ u.question.length ∧ u.question.length ≤ 500) ⟨"QueryUnit","question"⟩
  require (u.sourceSpans.length ≤ 8) ⟨"QueryUnit","source_spans"⟩
  require (∀ topic ∈ u.topic, topic.length ≤ 160) ⟨"QueryUnit","topic"⟩
  require (u.dependsOn.length ≤ 6) ⟨"QueryUnit","depends_on"⟩
  require (1 ≤ u.priority ∧ u.priority ≤ 9) ⟨"QueryUnit","priority"⟩

/-- `QueryUnit(...)`. -/
def QueryUnit.make (u : QueryUnit) : Except ValidationError QueryUnit := do
  u.cleaned.check
  pure u.cleaned

/-- The units are instances, and a plan does not look into them again. -/
structure AskPlan where
  originalQuery : String
  context : List AskContextItem
  units : List QueryUnit
  answerMode : AnswerMode
  query_fits : 1 ≤ originalQuery.length ∧ originalQuery.length ≤ 2000
  context_fits : context.length ≤ 8
  units_fit : 1 ≤ units.length ∧ units.length ≤ 16

theorem no_context_fits : ([] : List AskContextItem).length ≤ 8 := by decide

/-- `AskPlan(...)`. -/
def AskPlan.make (originalQuery : String) (context : List AskContextItem) (units : List QueryUnit) (answerMode : AnswerMode) :
    Except ValidationError AskPlan :=
  if query_fits : 1 ≤ originalQuery.length ∧ originalQuery.length ≤ 2000 then
    if context_fits : context.length ≤ 8 then
      if units_fit : 1 ≤ units.length ∧ units.length ≤ 16 then
        .ok { originalQuery, context, units, answerMode, query_fits, context_fits, units_fit }
      else .error ⟨"AskPlan","units"⟩
    else .error ⟨"AskPlan","context"⟩
  else .error ⟨"AskPlan","original_query"⟩

def blankQuestion : String := "查询相关记录"

def fallbackUnit (question : String) : QueryUnit where
  id := "u1"
  question := question
  sourceSpans := [question]
  intent := .noteLookup
  memoryType := none
  facet := none
  topic := none
  timeMode := .all
  evidenceMode := .sourceQuote
  needSourceEvidence := true
  dependsOn := []
  priority := 1

def safeFallbackPlan (question : String) : Except ValidationError AskPlan := do
  let question := if clean question = "" then blankQuestion else clean question
  let unit ← QueryUnit.make (fallbackUnit question)
  AskPlan.make question [] [unit] .direct

theorem AskPlan.make_ok {query : String} {context : List AskContextItem} {units : List QueryUnit} {mode : AnswerMode}
    (query_fits : 1 ≤ query.length ∧ query.length ≤ 2000) (context_fits : context.length ≤ 8)
    (units_fit : 1 ≤ units.length ∧ units.length ≤ 16) :
    AskPlan.make query context units mode = .ok ⟨query,context,units,mode,query_fits,context_fits,units_fit⟩ := by
  rw [AskPlan.make,dif_pos query_fits,dif_pos context_fits,dif_pos units_fit]

theorem AskPlan.make_units {query : String} {context : List AskContextItem} {units : List QueryUnit} {mode : AnswerMode} {plan : AskPlan}
    (made : AskPlan.make query context units mode = .ok plan) : plan.units = units := by
  unfold AskPlan.make at made
  split_ifs at made
  cases made
  rfl

section Fallback

variable {question : String}

theorem fallbackUnit_cleaned (question : String) : ∃ spans, spans.length ≤ 1 ∧
    (fallbackUnit (clean question)).cleaned = { fallbackUnit (clean question) with sourceSpans := spans } := by
  have name : clean "u1" = "u1" := by decide
  refine ⟨cleanList [clean question],?_,by simp [QueryUnit.cleaned,fallbackUnit,name,clean_clean,cleanList]⟩
  cases blank : (clean question).toList.all isSpace <;> simp [cleanList,blank,List.eraseDups_cons]

theorem fallbackUnit_check (text : clean question ≠ "") :
    (fallbackUnit (clean question)).cleaned.check =
      if (clean question).length ≤ 500 then .ok () else .error ⟨"QueryUnit","question"⟩ := by
  obtain ⟨spans,few,cleaned⟩ := fallbackUnit_cleaned question
  have some_text : 1 ≤ (clean question).length := Nat.one_le_iff_ne_zero.mpr (by simpa using text)
  have few : spans.length ≤ 8 := Nat.le_trans few (by decide)
  have name : "u1".length = 2 := by decide
  rw [cleaned]
  by_cases short : (clean question).length ≤ 500
  · rw [if_pos short]
    simp [QueryUnit.check,fallbackUnit,require,name,some_text,short,few,bind,Except.bind]
  · rw [if_neg short]
    simp [QueryUnit.check,fallbackUnit,require,name,short,bind,Except.bind]

theorem fallback_ok (text : clean question ≠ "") (short : (clean question).length ≤ 500) :
    ∃ plan, safeFallbackPlan question = .ok plan ∧ plan.units = [(fallbackUnit (clean question)).cleaned] := by
  have some_text : 1 ≤ (clean question).length := Nat.one_le_iff_ne_zero.mpr (by simpa using text)
  have made : QueryUnit.make (fallbackUnit (clean question)) = .ok (fallbackUnit (clean question)).cleaned := by
    rw [QueryUnit.make,fallbackUnit_check text,if_pos short]
    rfl
  refine ⟨⟨clean question,[],[(fallbackUnit (clean question)).cleaned],.direct,?_,Nat.zero_le 8,?_⟩,?_,rfl⟩
  · exact ⟨some_text,Nat.le_trans short (by decide)⟩
  · exact ⟨Nat.le_refl 1,Nat.le_add_left 1 15⟩
  · simp only [safeFallbackPlan,if_neg text,made,bind,Except.bind]
    exact AskPlan.make_ok _ _ _

theorem fallback_dependsOn : (fallbackUnit (clean question)).cleaned.dependsOn = [] := by
  obtain ⟨spans,-,cleaned⟩ := fallbackUnit_cleaned question
  rw [cleaned]
  rfl

theorem fallback_too_long (text : clean question ≠ "") (long : 500 < (clean question).length) :
    safeFallbackPlan question = .error ⟨"QueryUnit","question"⟩ := by
  simp only [safeFallbackPlan,if_neg text,QueryUnit.make,fallbackUnit_check text,if_neg (Nat.not_le.mpr long)]
  rfl

end Fallback

end Suixinji.Ask
