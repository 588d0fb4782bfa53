import Suixinji.Ask.FactResolver
import Suixinji.Relational.Firsts
import Mathlib.Data.Set.Card

/-! Whose evidence the facts of a unit are taken from. -/
namespace Suixinji.Ask
open Firsts (firsts mem_take_firsts)
open Text (contains)

variable {Q : Type} {numbers : Numbers Q} {evidence : List (String × String)} {units : List String}

def passed (numbers : Numbers Q) (evidence : List (String × String)) (units : List String) (raws : List Data) : List (EvidenceFact Q) :=
  raws.filterMap (fun raw => (factFromRaw numbers evidence units raw).toOption)

theorem next_kept (reading : FactReading Q) (raw : Data) {as : List (EvidenceFact Q)} (kept : reading.kept = firsts (·.identity numbers) as) :
    (reading.next numbers evidence units raw).kept =
      firsts (·.identity numbers) (as ++ (factFromRaw numbers evidence units raw).toOption.toList) := by
  unfold FactReading.next
  cases factFromRaw numbers evidence units raw with
  | error reason => simpa [Except.toOption] using kept
  | ok fact =>
    dsimp only
    rw [Except.toOption,Option.toList_some,Firsts.firsts_snoc,← kept]
    split <;> rfl

theorem readFacts_kept (raws : List Data) :
    (readFacts numbers evidence units raws).kept = firsts (·.identity numbers) (passed numbers evidence units (raws.take 32)) := by
  suffices run : ∀ (raws : List Data) (reading : FactReading Q) (as : List (EvidenceFact Q)), reading.kept = firsts (·.identity numbers) as →
      (raws.foldl (FactReading.next numbers evidence units) reading).kept =
        firsts (·.identity numbers) (as ++ passed numbers evidence units raws) by
    exact run (raws.take 32) _ [] rfl
  intro raws
  induction raws with
  | nil => exact fun reading as kept => by simpa [passed] using kept
  | cons raw raws ih =>
    intro reading as kept
    rw [List.foldl_cons,ih _ _ (next_kept reading raw kept),List.append_assoc]
    congr 2
    rw [passed,passed,List.filterMap_cons]
    cases (factFromRaw numbers evidence units raw).toOption <;> rfl

theorem standsApart_iff {joinedBefore joinedAfter : List Char → Bool} {word text : List Char} :
    standsApart joinedBefore joinedAfter word text ↔
      ∃ before after, text = before ++ word ++ after ∧ joinedBefore before.reverse = false ∧ joinedAfter after = false := by
  simp only [standsApart,List.any_eq_true,List.mem_range,Bool.and_eq_true,Bool.not_eq_true',List.isPrefixOf_iff_prefix]
  constructor
  · rintro ⟨i,_,⟨⟨after,rest⟩,first⟩,last⟩
    refine ⟨text.take i,after,?_,first,?_⟩
    · rw [List.append_assoc,rest,List.take_append_drop]
    · rwa [← List.drop_drop,← rest,List.drop_left] at last
  · rintro ⟨before,after,rfl,first,last⟩
    refine ⟨before.length,by simp only [List.length_append]; omega,⟨?_,?_⟩,?_⟩
    · rw [List.append_assoc,List.drop_left]
      exact List.prefix_append word after
    · rwa [List.append_assoc,List.take_left]
    · rwa [← List.length_append,List.drop_left]

/-- A numeral goes on with a digit, or with a point or a comma that has a digit behind it. -/
def Numbers.goesOn (numbers : Numbers Q) (rest : List Char) : Bool :=
  numbers.digitNext rest || (rest.head?.any (· ∈ ['.',',']) && numbers.digitNext rest.tail)

def Numbers.begun (numbers : Numbers Q) (back : List Char) : Bool :=
  numbers.digitNext back || back.head? = some '.' || (back.head? = some ',' && numbers.digitNext back.tail)

structure Own (numbers : Numbers Q) (bundle : UnitEvidenceBundle) (fact : EvidenceFact Q) : Prop where
  unit : fact.unitId = bundle.unitId
  quoted : ∃ item ∈ bundle.evidence, item.evidenceId = fact.evidenceId ∧ 3 ≤ (numbers.normalise fact.quote).length ∧
    contains (numbers.normalise item.span) (numbers.normalise fact.quote)
  whole : ∀ q ∈ fact.quantity, ∃ before after, fact.quote.toList = before ++ (numbers.rendered q).toList ++ after ∧
    numbers.begun before.reverse = false ∧ numbers.goesOn after = false

def Foreign (numbers : Numbers Q) (bundle : FactBundle Q) (fact : EvidenceFact Q) : Prop :=
  ∀ item ∈ bundle.evidence, item.evidenceId = fact.evidenceId → numbers.quoteIsGrounded fact.quote item.span = false

def PartOfNumeral (numbers : Numbers Q) (fact : EvidenceFact Q) : Prop :=
  ∃ q ∈ fact.quantity, standsApart numbers.begun numbers.goesOn (numbers.rendered q).toList fact.quote.toList = false

theorem own_iff {bundle : FactBundle Q} {fact : EvidenceFact Q} :
    Own numbers bundle.toUnitEvidenceBundle fact ↔
      fact.unitId = bundle.unitId ∧ ¬Foreign numbers bundle fact ∧ ¬PartOfNumeral numbers fact := by
  simp only [Foreign,PartOfNumeral,not_forall,not_exists,not_and,Bool.not_eq_false,standsApart_iff,Numbers.quoteIsGrounded,
    Bool.and_eq_true,decide_eq_true_eq,exists_prop]
  exact ⟨fun own => ⟨own.unit,own.quoted,own.whole⟩,fun ⟨unit,quoted,whole⟩ => ⟨unit,quoted,whole⟩⟩

def lastWith (bundles : List (FactBundle Q)) (id : String) : Option EvidenceItem :=
  ((bundles.flatMap (·.evidence)).filter (fun item => item.span ≠ "" ∧ item.evidenceId = id)).getLast?

/-- The raw fact has the fields of a fact for a unit of the plan, its quote is in what the last item with the id says,
and no digit is on either side of its number in the quote. -/
structure Admitted (numbers : Numbers Q) (plan : AskPlan) (bundles : List (FactBundle Q)) (raw : Data) (fact : EvidenceFact Q) : Prop where
  valid : ∃ fields, raw = .object fields ∧ EvidenceFact.validate numbers fields = some fact
  unit : ∃ unit ∈ plan.units, unit.id = fact.unitId
  pooled : ∃ item ∈ lastWith bundles fact.evidenceId, numbers.quoteIsGrounded fact.quote item.span
  quantity : numbers.quantityIsGrounded fact.quantity fact.quote

theorem lookup_evidenceById (bundles : List (FactBundle Q)) (id : String) :
    (evidenceById bundles).lookup id = (lastWith bundles id).map (·.span) := by
  have items : bundles.flatMap FactBundle.spans =
      ((bundles.flatMap (·.evidence)).filter (fun item => item.span ≠ "")).map (fun item => (item.evidenceId,item.span)) := by
    rw [List.filter_flatMap,List.map_flatMap]
    rfl
  rw [evidenceById,items,lastWith]
  induction bundles.flatMap (·.evidence) using List.reverseRecOn with
  | nil => rfl
  | append_singleton items item ih =>
    rw [List.filter_append,List.filter_append,List.map_append,List.reverse_append]
    by_cases blank : item.span = ""
    · simpa [blank] using ih
    · by_cases same : item.evidenceId = id
      · simp [blank,same]
      · rw [List.filter_cons_of_pos (by simpa using blank),List.filter_cons_of_neg (by simp [same])]
        simpa [List.lookup_cons,beq_eq_false_iff_ne.mpr (Ne.symm same)] using ih

theorem span_of_lastWith {bundles : List (FactBundle Q)} {id : String} {item : EvidenceItem} (last : item ∈ lastWith bundles id) :
    item.span ≠ "" := by
  have chosen := (List.mem_filter.mp (List.mem_of_getLast? last)).2
  exact (of_decide_eq_true chosen).1

theorem factFromRaw_iff {plan : AskPlan} {bundles : List (FactBundle Q)} {raw : Data} {fact : EvidenceFact Q} :
    factFromRaw numbers (evidenceById bundles) (plan.units.map (·.id)) raw = .ok fact ↔ Admitted numbers plan bundles raw fact := by
  constructor
  · intro ok
    unfold factFromRaw at ok
    split at ok
    · rename_i fields
      split at ok
      · cases ok
      · rename_i read valid
        dsimp only at ok
        rw [lookup_evidenceById] at ok
        split at ok
        · cases ok
        · rename_i unit
          split at ok
          · cases ok
          · rename_i some_text
            split at ok
            · cases ok
            · rename_i quoted
              split at ok
              · cases ok
              · rename_i quantity
                obtain rfl := Except.ok.inj ok
                cases last : lastWith bundles read.evidenceId with
                | none =>
                  rw [last] at some_text
                  exact absurd rfl some_text
                | some item =>
                  rw [last] at quoted
                  exact ⟨⟨fields,rfl,valid⟩,by simpa using unit,⟨item,last,by simpa using quoted⟩,by simpa using quantity⟩
    · cases ok
  · rintro ⟨⟨fields,rfl,valid⟩,unit,⟨item,last,quoted⟩,quantity⟩
    have known : ¬fact.unitId ∉ plan.units.map (·.id) := by simpa using unit
    simp only [factFromRaw,valid]
    rw [lookup_evidenceById,Option.mem_def.mp last,if_neg known,Option.map_some,Option.getD_some,if_neg (span_of_lastWith last),
      if_neg (by simp [quoted]),if_neg (by simp [quantity])]

def readBefore (numbers : Numbers Q) (plan : AskPlan) (bundles : List (FactBundle Q)) (before : List Data) (unitId : String) :
    Set (String × String × String) :=
  {identity | ∃ raw ∈ before, ∃ fact, Admitted numbers plan bundles raw fact ∧ fact.unitId = unitId ∧ fact.identity numbers = identity}

/-- The raw fact comes to a fact that is new to its unit, and the unit has room for it. -/
structure Placed (numbers : Numbers Q) (plan : AskPlan) (bundles : List (FactBundle Q)) (before : List Data) (raw : Data)
    (fact : EvidenceFact Q) : Prop where
  admitted : Admitted numbers plan bundles raw fact
  new : fact.identity numbers ∉ readBefore numbers plan bundles before fact.unitId
  room : (readBefore numbers plan bundles before fact.unitId).ncard < 12

theorem read_iff {plan : AskPlan} {bundles : List (FactBundle Q)} {raw : Data} {fact : EvidenceFact Q} :
    (factFromRaw numbers (evidenceById bundles) (plan.units.map (·.id)) raw).toOption = some fact ↔ Admitted numbers plan bundles raw fact := by
  rw [← factFromRaw_iff]
  cases factFromRaw numbers (evidenceById bundles) (plan.units.map (·.id)) raw <;> simp [Except.toOption]

theorem mem_passed {plan : AskPlan} {bundles : List (FactBundle Q)} {raws : List Data} {fact : EvidenceFact Q} :
    fact ∈ passed numbers (evidenceById bundles) (plan.units.map (·.id)) raws ↔ ∃ raw ∈ raws, Admitted numbers plan bundles raw fact := by
  simp only [passed,List.mem_filterMap,read_iff]

theorem readBefore_eq {plan : AskPlan} {bundles : List (FactBundle Q)} {before : List Data} {unitId : String} :
    readBefore numbers plan bundles before unitId = {identity | identity ∈
      (((passed numbers (evidenceById bundles) (plan.units.map (·.id)) before).filter (fun earlier => earlier.unitId = unitId)).map
        (·.identity numbers)).dedup} := by
  ext identity
  simp only [readBefore,Set.mem_ofPred_eq,List.mem_dedup,List.mem_map,List.mem_filter,decide_eq_true_eq,mem_passed]
  exact ⟨fun ⟨raw,there,fact,admitted,unit,same⟩ => ⟨fact,⟨⟨raw,there,admitted⟩,unit⟩,same⟩,
    fun ⟨fact,⟨⟨raw,there,admitted⟩,unit⟩,same⟩ => ⟨raw,there,fact,admitted,unit,same⟩⟩

theorem ncard_readBefore {plan : AskPlan} {bundles : List (FactBundle Q)} {before : List Data} {unitId : String} :
    (readBefore numbers plan bundles before unitId).ncard =
      (((passed numbers (evidenceById bundles) (plan.units.map (·.id)) before).filter (fun earlier => earlier.unitId = unitId)).map
        (·.identity numbers)).dedup.length := by
  rw [readBefore_eq,← List.toFinset_card_of_nodup (List.nodup_dedup _),← Set.ncard_coe_finset]
  congr 1
  ext identity
  simp

theorem mem_attached {plan : AskPlan} {bundles : List (FactBundle Q)} {raws : List Data} {bundle : FactBundle Q} {fact : EvidenceFact Q} :
    fact ∈ (bundle.attach (firsts (·.identity numbers) (passed numbers (evidenceById bundles) (plan.units.map (·.id)) raws))).facts ↔
      fact.unitId = bundle.unitId ∧ ∃ before raw after, raws = before ++ raw::after ∧ Placed numbers plan bundles before raw fact := by
  have respects : ∀ a b : EvidenceFact Q, a.identity numbers = b.identity numbers →
      decide (a.unitId = bundle.unitId) = decide (b.unitId = bundle.unitId) := by
    intro a b same
    rw [show a.unitId = b.unitId from congrArg Prod.fst same]
  rw [FactBundle.attach,mem_take_firsts respects,decide_eq_true_iff]
  refine and_congr_right (fun unit => ?_)
  have fresh (before : List Data) : fact.identity numbers ∈ readBefore numbers plan bundles before fact.unitId ↔
      fact.identity numbers ∈ (passed numbers (evidenceById bundles) (plan.units.map (·.id)) before).map (·.identity numbers) := by
    simp only [readBefore,Set.mem_ofPred_eq,List.mem_map,mem_passed]
    constructor
    · exact fun ⟨raw,there,earlier,admitted,_,same⟩ => ⟨earlier,⟨raw,there,admitted⟩,same⟩
    · exact fun ⟨earlier,⟨raw,there,admitted⟩,same⟩ => ⟨raw,there,earlier,admitted,congrArg Prod.fst same,same⟩
  constructor
  · rintro ⟨before,after,split,new,room⟩
    obtain ⟨before,rest,rfl,rfl,kept⟩ := List.filterMap_eq_append_iff.mp split
    obtain ⟨skipped,raw,after,rfl,none,here,rfl⟩ := List.filterMap_eq_cons_iff.mp kept
    have same : passed numbers (evidenceById bundles) (plan.units.map (·.id)) (before ++ skipped) =
        passed numbers (evidenceById bundles) (plan.units.map (·.id)) before := by
      rw [passed,List.filterMap_append,List.filterMap_eq_nil_iff.mpr none,List.append_nil]
      rfl
    refine ⟨before ++ skipped,raw,after,by rw [List.append_assoc],read_iff.mp here,?_,?_⟩
    · rw [fresh,same]
      exact new
    · rw [ncard_readBefore,same,unit]
      exact room
  · rintro ⟨before,raw,after,rfl,admitted,new,room⟩
    rw [fresh] at new
    rw [ncard_readBefore,unit] at room
    refine ⟨passed numbers (evidenceById bundles) (plan.units.map (·.id)) before,
      passed numbers (evidenceById bundles) (plan.units.map (·.id)) after,?_,new,room⟩
    rw [passed,List.filterMap_append]
    exact congrArg (_ ++ ·) (List.filterMap_cons_some (read_iff.mpr admitted))

def asked (bundles : List (FactBundle Q)) : List (FactBundle Q) := bundles.filter FactBundle.eligible

/-- No raw fact that is placed is foreign to the bundle of its unit, or has a part of a numeral for its number. Where
the model gives no facts, the ones that the bundles come with are of their units and neither of this. -/
def OwnCitations (numbers : Numbers Q) (llm : FactRequest → Response) (question : String) (plan : AskPlan)
    (bundles : List (FactBundle Q)) : Prop :=
  match askFacts llm question plan (asked bundles) with
  | .error _ => ∀ bundle ∈ asked bundles, ∀ fact ∈ bundle.facts,
      fact.unitId = bundle.unitId ∧ ¬Foreign numbers bundle fact ∧ ¬PartOfNumeral numbers fact
  | .ok raws => ∀ before raw after fact, raws.take 32 = before ++ raw::after →
      Placed numbers plan (asked bundles) before raw fact →
      ∀ bundle ∈ asked bundles, bundle.unitId = fact.unitId → ¬Foreign numbers bundle fact ∧ ¬PartOfNumeral numbers fact

def digitText (d : Fin 10) : String := String.singleton (Char.ofNat (48 + d.val))

/-- Texts without letter case, and the numbers of one digit. -/
def plainNumbers : Numbers (Fin 10) where
  casefold := id
  isDigit c := c.isDigit
  read
    | .number text _ => (List.finRange 10).find? (fun d => digitText d = text)
    | _ => none
  rendered := digitText

def spanItem (id span : String) : EvidenceItem where
  evidenceId := id
  sourceKind := .note
  memoryType := none
  content := span
  evidenceSpan := none
  memoryId := none
  versionId := none
  noteId := none
  sourceNoteIds := []
  taskCard := none
  preferenceDetails := []
  eventTime := none
  observedAt := none
  recordedAt := none
  taskStatus := none
  retrievalChannels := []
  evidenceRole := .rawNote

def spanBundle (unitId : String) (item : EvidenceItem) : FactBundle (Fin 10) where
  unitId := unitId
  evidence := [item]
  resolution := ⟨.resolved,none,.directDomainEvidence,[],[]⟩
  facts := []
  factSummary := none

def milk : FactBundle (Fin 10) := spanBundle "u1" (spanItem "e1" "bought milk")

def apples : FactBundle (Fin 10) := spanBundle "u2" (spanItem "e2" "bought 1.5 apples")

def shopping : AskPlan where
  originalQuery := "milk and apples"
  context := []
  units := [{ fallbackUnit "milk" with id := "u1" },{ fallbackUnit "apples" with id := "u2" }]
  answerMode := .direct
  query_fits := by decide
  context_fits := no_context_fits
  units_fit := by decide

def rawApples (unitId : String) (quantity : Data) : Data :=
  .object [("unit_id",.text unitId),("evidence_id",.text "e2"),("quote",.text "bought 1.5 apples"),("claim",.text "apples"),
    ("modality",.text "asserted"),("quantity",quantity)]

def shopped (raw : Data) : List (FactBundle (Fin 10)) :=
  (resolveEvidenceFacts plainNumbers (fun _ => .ok (.object [("facts",.list [raw])])) "milk and apples" shopping [milk,apples]).2

end Suixinji.Ask
