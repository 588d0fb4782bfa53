import Suixinji.Ask.Execute
import Suixinji.Relational.Table

/-! `repair_missing_evidence` (agent/ask_executor.py), whatever the readers give for a unit. -/
namespace Suixinji.Ask
open Checked

deriving instance DecidableEq for Source
deriving instance DecidableEq for TaskCardView
deriving instance DecidableEq for EvidenceItem
deriving instance DecidableEq for UnitResolution
deriving instance DecidableEq for UnitEvidenceBundle

structure FallbackReaders where
  memorySearch : QueryUnit → Option (List Record)
  noteFallback : QueryUnit → Option (List Record)
  recordRelevant : QueryUnit → Record → Bool

/-- The tool, the reason and the records, an exception being none. -/
structure Fallback where
  tool : Tool := .searchNotes
  reason : ReasonCode := .noteFallback
  records : List Record := []

namespace FallbackReaders

variable (read : FallbackReaders)

def attempt (unit : QueryUnit) : Fallback :=
  if unit.intent = .taskState then
    match read.memorySearch unit with
    | none => {}
    | some [] =>
      match read.noteFallback unit with
      | none => {tool := .searchEpisodes,reason := .taskEpisodeFallback}
      | some records => {reason := .taskNoteFallback,records}
    | some records => {tool := .searchEpisodes,reason := .taskEpisodeFallback,records}
  else
    match read.noteFallback unit with
    | none => {}
    | some records => {records}

/-- What is left bears the identity of the unit. -/
def fallback (unit : QueryUnit) : Fallback :=
  { read.attempt unit with records := (read.attempt unit).records.filter (read.recordRelevant unit) }

end FallbackReaders

/-- `_partial_bundle`. -/
def partialBundle (unit : QueryUnit) (f : Fallback) : Except ValidationError UnitEvidenceBundle := do
  let role : EvidenceRole := if unit.intent = .taskState ∧ f.tool = .searchEpisodes then .historical else .rawNote
  let evidence ← (f.records.take 3).mapM (fun item => asEvidence f.tool item role)
  let resolution : UnitResolution := ⟨.partly,evidence.head?.map (·.content),f.reason,evidence.map (·.evidenceId),[]⟩
  resolution.check
  let bundle : UnitEvidenceBundle := ⟨unit.id,evidence,resolution⟩
  bundle.check
  pure bundle

/-- What the repair changes of a result, and the units it gives back. -/
structure Repair where
  bundles : List UnitEvidenceBundle
  recordsByUnit : List (String × List Record) := []
  executedTools : List Tool := []
  repaired : List String := []

section Loop

variable (read : FallbackReaders) (byId : String → Option UnitEvidenceBundle) (budget : Nat)

def repairs (unit : QueryUnit) : Bool :=
  (byId unit.id).any (fun bundle => bundle.resolution.status = .notFound) && (read.fallback unit).records ≠ []

def repairUnit (unit : QueryUnit) (d : Repair) : Except ValidationError Repair := do
  let replacement ← partialBundle unit (read.fallback unit)
  let bundle ← demand (byId unit.id) ⟨"dict","get"⟩
  let index ← demand (d.bundles.findIdx? (· = bundle)) ⟨"list","index"⟩
  pure
    { bundles := d.bundles.set index replacement
      recordsByUnit := d.recordsByUnit ++ [(unit.id,(read.fallback unit).records)]
      executedTools := d.executedTools ++ [(read.fallback unit).tool]
      repaired := d.repaired ++ [unit.id] }

def repairLoop : List QueryUnit → Repair → Except ValidationError Repair
  | [],d => .ok d
  | unit::rest,d =>
    if budget ≤ d.repaired.length then .ok d
    else if repairs read byId unit then do
      let next ← repairUnit read byId unit d
      repairLoop rest next
    else repairLoop rest d

end Loop

/-- `by_id` of the bundles before the repair. -/
def bundleOfUnit (bundles : List UnitEvidenceBundle) (id : String) : Option UnitEvidenceBundle :=
  bundles.reverse.find? (fun bundle => bundle.unitId = id)

/-- `repair_missing_evidence`, by the settings. -/
def repairMissing (read : FallbackReaders) (maxRetrievalRounds maxFallbackUnits : ℤ) (plan : AskPlan) (bundles : List UnitEvidenceBundle) :
    Except ValidationError Repair :=
  if maxRetrievalRounds < 2 then .ok {bundles}
  else
    repairLoop read (bundleOfUnit bundles) (max 0 maxFallbackUnits).toNat plan.units {bundles}

structure Replaced (budget : Nat) (before after : List UnitEvidenceBundle) : Prop where
  length : after.length = before.length
  places : ∃ places : List Nat, places.length ≤ budget ∧ (∀ i, i ∉ places → after[i]? = before[i]?) ∧
    ∀ i ∈ places, ∃ old new, before[i]? = some old ∧ after[i]? = some new ∧ old.resolution.status = .notFound ∧ new.unitId = old.unitId

/-- The records can be quoted: three of them as evidence, and the first as the value of the resolution. -/
def Quotable (records : List Record) : Prop := (∀ item ∈ records.take 3, item.Fits) ∧ ∀ first ∈ records.head?, first.quoted.length ≤ 1000

theorem partialBundle_ok {unit : QueryUnit} {f : Fallback} : (∃ made, partialBundle unit f = .ok made) ↔ Quotable f.records := by
  have value (role : EvidenceRole) : (∀ text ∈ ((f.records.take 3).map (fun item => evidenceView f.tool (item,role))).head?.map (·.content),
      text.length ≤ 1000) ↔ ∀ first ∈ f.records.head?, first.quoted.length ≤ 1000 := by
    cases f.records with
    | nil => simp
    | cons first rest =>
      simp only [List.take_succ_cons,List.map_cons,List.head?_cons,Option.map_some,Option.mem_some_iff,forall_eq']
      exact Text.slice_le (by decide : 1000 < 2400) first.quoted
  constructor
  · rintro ⟨made,ran⟩
    obtain ⟨evidence,listed,ran⟩ := bind_ok.mp ran
    have fits : ∀ item ∈ f.records.take 3, item.Fits := by
      intro item member
      obtain ⟨view,_,passed⟩ := (mapM_ok listed).1 item member
      exact (asEvidence_ok.mp passed).1
    rw [mapM_of_each (fun item member => asEvidence_ok.mpr ⟨fits item member,rfl⟩)] at listed
    cases listed
    obtain ⟨_,checked,_⟩ := bind_ok.mp ran
    unfold UnitResolution.check at checked
    simp only [bind_ok,require_ok,exists_const] at checked
    exact ⟨fits,(value _).mp checked.1⟩
  · rintro ⟨fits,short⟩
    refine ⟨_,bind_ok.mpr ⟨_,mapM_of_each (fun item member => asEvidence_ok.mpr ⟨fits item member,rfl⟩),
      bind_ok.mpr ⟨(),?_,bind_ok.mpr ⟨(),?_,rfl⟩⟩⟩⟩
    · unfold UnitResolution.check
      simp only [bind_ok,require_ok,exists_const,List.length_map,List.length_take]
      exact ⟨(value _).mpr short,by omega,Nat.zero_le 8⟩
    · unfold UnitEvidenceBundle.check
      simp only [require_ok,List.length_map,List.length_take]
      omega

theorem partialBundle_unitId {unit : QueryUnit} {f : Fallback} {made : UnitEvidenceBundle} (ran : partialBundle unit f = .ok made) :
    made.unitId = unit.id := by
  obtain ⟨_,_,ran⟩ := bind_ok.mp ran
  obtain ⟨_,_,ran⟩ := bind_ok.mp ran
  obtain ⟨_,_,ran⟩ := bind_ok.mp ran
  cases ran
  rfl

theorem partialBundle_evidence {unit : QueryUnit} {f : Fallback} {made : UnitEvidenceBundle} (ran : partialBundle unit f = .ok made) :
    ∀ e ∈ made.evidence, ∃ item ∈ f.records, ∃ memoryType tool role, e = evidenceOf item memoryType tool role := by
  obtain ⟨evidence,listed,ran⟩ := bind_ok.mp ran
  obtain ⟨_,_,ran⟩ := bind_ok.mp ran
  obtain ⟨_,_,ran⟩ := bind_ok.mp ran
  cases ran
  intro e member
  obtain ⟨item,taken,passed⟩ := (mapM_ok listed).2 e member
  obtain ⟨_,rfl⟩ := asEvidence_ok.mp passed
  exact ⟨item,List.mem_of_mem_take taken,_,_,_,rfl⟩

/-- As many places are replaced as units are repaired, and they were the places of these. -/
structure Repair.Kept (before : List UnitEvidenceBundle) (d : Repair) : Prop where
  length : d.bundles.length = before.length
  places : ∃ places : List Nat, places.length ≤ d.repaired.length ∧ (∀ i, i ∉ places → d.bundles[i]? = before[i]?) ∧
    ∀ i ∈ places, ∃ old new, before[i]? = some old ∧ d.bundles[i]? = some new ∧ old.resolution.status = .notFound ∧
      new.unitId = old.unitId ∧ old.unitId ∈ d.repaired

section Loop

variable {read : FallbackReaders} {byId : String → Option UnitEvidenceBundle} {before : List UnitEvidenceBundle} {budget : Nat}
  {unit : QueryUnit} {d d' : Repair}

theorem repairUnit_ok (listed : ∀ id bundle, byId id = some bundle → bundle ∈ before ∧ bundle.unitId = id) (kept : d.Kept before)
    (new : unit.id ∉ d.repaired) (missing : repairs read byId unit) (quotable : Quotable (read.fallback unit).records) :
    ∃ d', repairUnit read byId unit d = .ok d' ∧ d'.Kept before ∧ d'.repaired = d.repaired ++ [unit.id] := by
  obtain ⟨replacement,made⟩ := partialBundle_ok.mpr quotable
  cases named : byId unit.id with
  | none => simp [repairs,named] at missing
  | some bundle =>
    have lost : bundle.resolution.status = .notFound := by
      rw [repairs,named] at missing
      simpa using (Bool.and_eq_true_iff.mp missing).1
    obtain ⟨there,unitId⟩ := listed _ _ named
    obtain ⟨i,own⟩ := List.getElem?_of_mem there
    obtain ⟨places,few,outside,inside⟩ := kept.places
    -- a place that has been replaced is one of another unit
    have untouched (j : Nat) (same : d.bundles[j]? = some bundle ∨ before[j]? = some bundle) : j ∉ places := by
      intro replaced
      obtain ⟨old,other,first,last,_,sameUnit,done⟩ := inside j replaced
      rcases same with same | same
      · obtain rfl := Option.some.inj (last.symm.trans same)
        exact new (by rw [← unitId,sameUnit]; exact done)
      · obtain rfl := Option.some.inj (first.symm.trans same)
        exact new (by rw [← unitId]; exact done)
    have still : bundle ∈ d.bundles := List.mem_of_getElem? ((outside i (untouched i (.inr own))).trans own)
    have some_place : (d.bundles.findIdx? (· = bundle)).isSome := by
      rw [List.findIdx?_isSome]
      exact List.any_eq_true.mpr ⟨bundle,still,decide_eq_true rfl⟩
    obtain ⟨j,found⟩ := Option.isSome_iff_exists.mp some_place
    have place : d.bundles[j]? = some bundle := by
      obtain ⟨bound,same,_⟩ := List.findIdx?_eq_some_iff_getElem.mp found
      exact List.getElem?_eq_some_iff.mpr ⟨bound,of_decide_eq_true same⟩
    have fresh := untouched j (.inl place)
    refine ⟨_,bind_ok.mpr ⟨replacement,made,bind_ok.mpr ⟨bundle,demand_ok.mpr named,bind_ok.mpr ⟨j,demand_ok.mpr found,rfl⟩⟩⟩,?_,rfl⟩
    refine ⟨by rw [List.length_set]; exact kept.length,j::places,?_,?_,?_⟩
    · simpa using few
    · intro k other
      rw [List.mem_cons,not_or] at other
      rw [List.getElem?_set_ne (Ne.symm other.1)]
      exact outside k other.2
    · intro k member
      rcases List.mem_cons.mp member with rfl | old
      · refine ⟨bundle,replacement,(outside k fresh).symm.trans place,?_,lost,(partialBundle_unitId made).trans unitId.symm,?_⟩
        · exact List.getElem?_set_self (List.getElem?_eq_some_iff.mp place).1
        · rw [unitId]
          exact List.mem_append_right _ (List.mem_singleton.mpr rfl)
      · obtain ⟨older,newer,first,last,missed,sameUnit,done⟩ := inside k old
        refine ⟨older,newer,first,?_,missed,sameUnit,List.mem_append_left _ done⟩
        have other : j ≠ k := by
          rintro rfl
          exact fresh old
        rw [List.getElem?_set_ne other]
        exact last

/-- The repair brings evidence of its own records only. -/
theorem repairLoop_evidence {P : EvidenceItem → Prop} (units : List QueryUnit)
    (found : ∀ unit ∈ units, ∀ item ∈ (read.fallback unit).records, ∀ memoryType tool role, P (evidenceOf item memoryType tool role))
    (old : ∀ bundle ∈ d.bundles, ∀ e ∈ bundle.evidence, P e) (ran : repairLoop read byId budget units d = .ok d') :
    ∀ bundle ∈ d'.bundles, ∀ e ∈ bundle.evidence, P e := by
  induction units generalizing d with
  | nil =>
    cases ran
    exact old
  | cons unit rest ih =>
    obtain ⟨here,later⟩ := List.forall_mem_cons.mp found
    unfold repairLoop at ran
    split at ran
    · cases ran
      exact old
    · split at ran
      · obtain ⟨next,repaired,ran⟩ := bind_ok.mp ran
        obtain ⟨replacement,made,repaired⟩ := bind_ok.mp repaired
        obtain ⟨_,_,repaired⟩ := bind_ok.mp repaired
        obtain ⟨_,_,same⟩ := bind_ok.mp repaired
        cases same
        refine ih later (fun bundle member e inside => ?_) ran
        rcases List.mem_or_eq_of_mem_set member with kept | rfl
        · exact old bundle kept e inside
        · obtain ⟨item,listed,_,_,_,rfl⟩ := partialBundle_evidence made e inside
          exact here item listed _ _ _
      · exact ih later old ran

theorem repairLoop_iff (listed : ∀ id bundle, byId id = some bundle → bundle ∈ before ∧ bundle.unitId = id) (units : List QueryUnit)
    (distinct : (units.map (·.id)).Nodup) (kept : d.Kept before) (new : ∀ unit ∈ units, unit.id ∉ d.repaired) (room : d.repaired.length ≤ budget) :
    ((∃ d', repairLoop read byId budget units d = .ok d') ↔
      ∀ unit ∈ (units.filter (repairs read byId)).take (budget - d.repaired.length), Quotable (read.fallback unit).records) ∧
    ∀ d', repairLoop read byId budget units d = .ok d' → d'.Kept before ∧ d'.repaired.length ≤ budget := by
  induction units generalizing d with
  | nil => simpa [repairLoop] using ⟨kept,room⟩
  | cons unit rest ih =>
    obtain ⟨apart,distinct⟩ := List.nodup_cons.mp distinct
    unfold repairLoop
    by_cases spent : budget ≤ d.repaired.length
    · rw [if_pos spent,Nat.sub_eq_zero_of_le spent]
      simpa using ⟨kept,room⟩
    · rw [if_neg spent]
      by_cases missing : repairs read byId unit
      · rw [if_pos missing,List.filter_cons_of_pos missing]
        have more : budget - d.repaired.length = (budget - (d.repaired.length + 1)) + 1 := by omega
        rw [more,List.take_succ_cons,List.forall_mem_cons]
        by_cases quotable : Quotable (read.fallback unit).records
        · obtain ⟨next,made,after,grown⟩ := repairUnit_ok listed kept (new unit List.mem_cons_self) missing quotable
          have others : ∀ other ∈ rest, other.id ∉ next.repaired := by
            intro other member seen
            rw [grown,List.mem_append,List.mem_singleton] at seen
            rcases seen with old | same
            · exact new other (List.mem_cons_of_mem _ member) old
            · exact apart (List.mem_map.mpr ⟨other,member,same⟩)
          have size : next.repaired.length = d.repaired.length + 1 := by
            rw [grown]
            exact List.length_append
          have later := ih distinct after others (by omega)
          rw [size] at later
          simp only [quotable,true_and]
          rw [made]
          exact later
        · have raises (d' : Repair) : (do let next ← repairUnit read byId unit d; repairLoop read byId budget rest next) ≠ .ok d' := by
            intro ran
            obtain ⟨next,made,_⟩ := bind_ok.mp ran
            obtain ⟨replacement,quoted,_⟩ := bind_ok.mp made
            exact quotable (partialBundle_ok.mp ⟨replacement,quoted⟩)
          exact ⟨⟨fun ⟨d',ran⟩ => absurd ran (raises d'),fun all => absurd all.1 quotable⟩,fun d' ran => absurd ran (raises d')⟩
      · rw [if_neg missing,List.filter_cons_of_neg missing]
        exact ih distinct kept (fun other member => new other (List.mem_cons_of_mem _ member)) room

end Loop

/-- How many units may be repaired. -/
def fallbackBudget (maxRetrievalRounds maxFallbackUnits : ℤ) : Nat := if maxRetrievalRounds < 2 then 0 else (max 0 maxFallbackUnits).toNat

/-- With distinct units the repair ends, with no more bundles replaced than there is a budget for, exactly where the records that it
makes bundles of can be quoted. -/
theorem repairMissing_iff {read : FallbackReaders} {rounds most : ℤ} {plan : AskPlan} {bundles : List UnitEvidenceBundle}
    (distinct : (plan.units.map (·.id)).Nodup) :
    (∃ d, repairMissing read rounds most plan bundles = .ok d ∧ Replaced (max 0 most).toNat bundles d.bundles) ↔
      ∀ unit ∈ (plan.units.filter (repairs read (bundleOfUnit bundles))).take (fallbackBudget rounds most),
        Quotable (read.fallback unit).records := by
  have listed (id : String) (bundle : UnitEvidenceBundle) (named : bundleOfUnit bundles id = some bundle) :
      bundle ∈ bundles ∧ bundle.unitId = id :=
    ⟨List.mem_reverse.mp (List.mem_of_find?_eq_some named),by simpa using List.find?_some named⟩
  have untouched : Repair.Kept bundles {bundles} := ⟨rfl,[],Nat.zero_le _,fun _ _ => rfl,fun i none => absurd none List.not_mem_nil⟩
  unfold repairMissing fallbackBudget
  by_cases few : rounds < 2
  · rw [if_pos few,if_pos few]
    simpa using ⟨rfl,[],Nat.zero_le _,fun _ _ => rfl,fun i none => absurd none List.not_mem_nil⟩
  · rw [if_neg few,if_neg few]
    have start : ∀ unit ∈ plan.units, unit.id ∉ ({ bundles } : Repair).repaired := fun _ _ => List.not_mem_nil
    obtain ⟨loop,kept⟩ : ((∃ d, repairLoop read (bundleOfUnit bundles) (max 0 most).toNat plan.units {bundles} = .ok d) ↔ _) ∧ _ :=
      repairLoop_iff listed plan.units distinct untouched start (Nat.zero_le _)
    simp only [List.length_nil,Nat.sub_zero] at loop
    rw [← loop]
    refine ⟨fun ⟨d,ran,_⟩ => ⟨d,ran⟩,fun ⟨d,ran⟩ => ⟨d,ran,?_⟩⟩
    obtain ⟨⟨length,places,few,outside,inside⟩,within⟩ := kept d ran
    refine ⟨length,places,few.trans within,outside,fun i member => ?_⟩
    obtain ⟨old,new,first,last,missed,sameUnit,_⟩ := inside i member
    exact ⟨old,new,first,last,missed,sameUnit⟩

end Suixinji.Ask
