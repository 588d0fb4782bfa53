import Suixinji.Ask.Total

/-! When a question's plan is executed in full, whatever the order in which its
futures finish: exactly when the units kept have ids of their own and their tools'
records can be shown, or the fallback's question is short enough for a unit. -/
namespace Suixinji.Ask
open Suixinji.Checked
open Suixinji.Ranking

section Answers

variable {lib : Library} {plan : AskPlan} {tools : Nat → Outcome} {timing : Timing}

def Answerable (lib : Library) (unit : QueryUnit) : Outcome → Prop
  | .returned tool records => records = [] ∨ lib.Resolvable unit tool records
  | .raised _ _ => True

theorem resolve_of_answerable {unit : QueryUnit} {outcome : Outcome} :
    Answerable lib unit outcome ↔ ∃ b, lib.resolve unit outcome.result.1 outcome.result.2 = .ok b := by
  cases outcome with
  | raised kind text => exact ⟨fun _ => ⟨_,rfl⟩,fun _ => trivial⟩
  | returned tool records =>
    by_cases empty : records = []
    · subst empty
      exact ⟨fun _ => ⟨_,rfl⟩,fun _ => .inl rfl⟩
    · exact (or_iff_right empty).trans (resolve_ok empty).symm

theorem owned_of_answerable {f : Future} (answerable : Answerable lib f.1 (tools f.2)) : Owned lib tools timing f := by
  unfold Owned ownBundle
  by_cases done : timing.done f.2
  · rw [if_pos done]
    exact resolve_of_answerable.mp answerable
  · exact ⟨_,if_neg done⟩

def inTurn (plan : AskPlan) : Timing := ⟨List.range plan.units.length,[],List.nodup_range⟩

theorem inTurn_done {f : Future} (there : f ∈ plan.units.zipIdx) : (inTurn plan).done f.2 := by
  left
  obtain ⟨inside,-⟩ := List.getElem?_eq_some_iff.mp (List.mem_zipIdx_iff_getElem?.mp there)
  exact List.mem_range.mpr inside

/-- One future finishes in time and no other. -/
def alone (place : Nat) : Timing := ⟨[place],[],List.nodup_singleton place⟩

end Answers

section Sorting

variable {lib : Library} {plan : AskPlan} {tools : Nat → Outcome} {timing : Timing}

theorem placeOf_eq (distinct : (plan.units.map (·.id)).Nodup) {f : Future} (there : f ∈ plan.units.zipIdx) : placeOf plan f.1.id = f.2 := by
  have found : plan.units.zipIdx.reverse.find? (fun g => g.1.id = f.1.id) = some f := by
    rw [← futures_ids] at distinct
    have reversed : (plan.units.zipIdx.reverse.map (fun g => g.1.id)).Nodup := by
      rw [List.map_reverse]
      exact List.nodup_reverse.mpr distinct
    exact Relational.Table.find?_of_distinct reversed (List.mem_reverse.mpr there)
  rw [placeOf,found]
  rfl

theorem futures_sorted : plan.units.zipIdx.Pairwise (fun f g => f.2 < g.2) := by
  apply List.pairwise_map.mp
  rw [List.zipIdx_map_snd]
  exact List.pairwise_lt_range'

theorem sortBundles_eq (distinct : (plan.units.map (·.id)).Nodup) {run : List Future} (perm : run.Perm plan.units.zipIdx) :
    sortBundles plan (run.map (bundleOf lib tools timing)) = plan.units.zipIdx.map (bundleOf lib tools timing) := by
  have key : ∀ f ∈ plan.units.zipIdx, placeOf plan (bundleOf lib tools timing f).unitId = f.2 := by
    intro f there
    rw [bundleOf_unitId,placeOf_eq distinct there]
  apply sortBy_eq (perm.map _)
  · apply List.pairwise_map.mpr
    apply futures_sorted.imp_of_mem
    intro f g there there' before
    rw [key f there,key g there']
    exact Nat.le_of_lt before
  · intro a member b member' same
    obtain ⟨f,there,rfl⟩ := List.mem_map.mp member
    obtain ⟨g,there',rfl⟩ := List.mem_map.mp member'
    rw [key f there,key g there'] at same
    rw [future_eq there there' same]

end Sorting

section Execution

variable {lib : Library} {plan : AskPlan} {tools : Nat → Outcome} {timing : Timing}

theorem execute_complete (timing : Timing) (distinct : (plan.units.map (·.id)).Nodup)
    (next : ∀ completed : String → Prop, (∃ unit ∈ plan.units, ¬completed unit.id) →
      ∃ unit ∈ plan.units, ¬completed unit.id ∧ ∀ parent ∈ unit.dependsOn, completed parent)
    (answerable : ∀ f ∈ plan.units.zipIdx, Answerable lib f.1 (tools f.2)) :
    ∃ result, executeAskPlan lib plan tools timing = .ok result ∧ Complete lib plan tools timing result := by
  have owned : ∀ f ∈ plan.units.zipIdx, Owned lib tools timing f := fun f there => owned_of_answerable (answerable f there)
  obtain ⟨run,s,result,ran,all⟩ := rounds_total distinct next owned (n := plan.units.length) (Ran.initial timing)
    (Nat.le_add_right _ _)
  have perm : run.Perm plan.units.zipIdx :=
    (List.perm_ext_iff_of_nodup ran.nodup futures_nodup).mpr fun f => ⟨fun member => ran.inside member,fun there => all there⟩
  refine ⟨{ s with bundles := sortBundles plan s.bundles },by rw [executeAskPlan,result]; rfl,?_,ran.started⟩
  change _ = (sortBundles plan s.bundles).map Except.ok
  rw [ran.bundles,sortBundles_eq distinct perm,List.map_map]
  apply List.map_congr_left
  exact fun f there => (owned f there).bundle

theorem ownBundle_ne_unresolved {f : Future} {unit : QueryUnit} :
    ownBundle lib tools timing f ≠ .ok (emptyBundle unit .partly .unresolvedDependency) := by
  unfold ownBundle
  split
  · intro resolved
    exact (resolve_bundle resolved).2 rfl
  · intro same
    exact ReasonCode.noConfusion (congrArg (fun b => b.resolution.reasonCode) (Except.ok.inj same))

theorem run_of_complete {result : Progress} (ran : executeAskPlan lib plan tools timing = .ok result)
    (complete : Complete lib plan tools timing result) : ∃ run t, Ran lib plan tools timing run t ∧ plan.units.zipIdx ⊆ run ∧
      result.bundles = sortBundles plan (run.map (bundleOf lib tools timing)) := by
  obtain ⟨s,ended,same⟩ := bind_ok.mp ran
  cases same
  obtain ⟨run,t,left,inner,bundles⟩ := rounds_bundles (Ran.initial timing) ended
  have own := complete.bundles
  change _ = (sortBundles plan s.bundles).map Except.ok at own
  have none_left : left = [] := by
    apply List.eq_nil_iff_forall_not_mem.mpr
    intro unit member
    have there : emptyBundle unit .partly .unresolvedDependency ∈ sortBundles plan s.bundles := by
      apply (sortBy_perm _ s.bundles).mem_iff.mpr
      rw [bundles]
      exact List.mem_append_right _ (List.mem_map_of_mem member)
    have there : (.ok (emptyBundle unit .partly .unresolvedDependency) : Except ValidationError _) ∈
        plan.units.zipIdx.map (ownBundle lib tools timing) := by
      rw [own]
      exact List.mem_map_of_mem there
    obtain ⟨f,-,same⟩ := List.mem_map.mp there
    exact ownBundle_ne_unresolved same
  subst none_left
  rw [List.map_nil,List.append_nil] at bundles
  have length : plan.units.zipIdx.length ≤ run.length := by
    have lengths := congrArg List.length own
    rw [List.length_map,List.length_map,sortBundles,(sortBy_perm _ s.bundles).length_eq,bundles,List.length_map] at lengths
    exact Nat.le_of_eq lengths
  have perm := (inner.nodup.subperm inner.inside).perm_of_length_le length
  exact ⟨run,t,inner,perm.symm.subset,by rw [← bundles]⟩

theorem owned_of_complete {result : Progress} (complete : Complete lib plan tools timing result) :
    ∀ f ∈ plan.units.zipIdx, Owned lib tools timing f := by
  intro f there
  have member : ownBundle lib tools timing f ∈ plan.units.zipIdx.map (ownBundle lib tools timing) := List.mem_map_of_mem there
  rw [complete.bundles] at member
  obtain ⟨b,-,own⟩ := List.mem_map.mp member
  exact ⟨b,own.symm⟩

theorem bundles_of_complete {result : Progress} (complete : Complete lib plan tools timing result) :
    result.bundles = plan.units.zipIdx.map (bundleOf lib tools timing) := by
  have own : plan.units.zipIdx.map (ownBundle lib tools timing) = (plan.units.zipIdx.map (bundleOf lib tools timing)).map .ok := by
    rw [List.map_map]
    exact List.map_congr_left fun f there => (owned_of_complete complete f there).bundle
  rw [complete.bundles] at own
  exact List.map_injective_iff.mpr (fun _ _ => Except.ok.inj) own

theorem bundleOf_late {f : Future} (late : ¬timing.done f.2) : (bundleOf lib tools timing f).resolution.status = .partly := by
  rw [bundleOf,ownBundle,if_neg late]
  rfl

theorem bundleOf_done {f : Future} (done : timing.done f.2) (owned : Owned lib tools timing f) :
    (bundleOf lib tools timing f).resolution.status ≠ .partly := by
  have own := owned.bundle
  rw [ownBundle,if_pos done] at own
  exact (resolve_bundle own).2

theorem distinct_of_complete (complete : ∀ timing, ∃ result, executeAskPlan lib plan tools timing = .ok result ∧
    Complete lib plan tools timing result) : (plan.units.map (·.id)).Nodup := by
  rw [← futures_ids,List.nodup_iff_pairwise_ne]
  apply List.pairwise_map.mpr
  apply futures_sorted.imp_of_mem
  intro a b there there' before same
  obtain ⟨result,ran,complete⟩ := complete (alone b.2)
  obtain ⟨run,t,inner,all,bundles⟩ := run_of_complete ran complete
  obtain ⟨pre,post,split,others⟩ := inner.first b (all there') rfl
  have shown : result.bundles.filter (fun bundle => bundle.unitId = b.1.id) =
      bundleOf lib tools (alone b.2) b::(post.map (bundleOf lib tools (alone b.2))).filter (fun bundle => bundle.unitId = b.1.id) := by
    have none_before : (pre.map (bundleOf lib tools (alone b.2))).filter (fun bundle => bundle.unitId = b.1.id) = [] := by
      apply List.filter_eq_nil_iff.mpr
      intro bundle member
      obtain ⟨g,earlier,rfl⟩ := List.mem_map.mp member
      rw [bundleOf_unitId,decide_eq_true_eq]
      exact others g earlier
    rw [bundles,sortBundles,filter_sortBy,split,List.map_append,List.filter_append,none_before,List.nil_append,List.map_cons]
    · exact List.filter_cons_of_pos (by simp [bundleOf_unitId])
    · intro c d named named'
      rw [of_decide_eq_true named,of_decide_eq_true named']
  have planned : result.bundles.filter (fun bundle => bundle.unitId = b.1.id) =
      (plan.units.zipIdx.filter (fun f => f.1.id = b.1.id)).map (bundleOf lib tools (alone b.2)) := by
    rw [bundles_of_complete complete,List.filter_map]
    simp only [Function.comp_def,bundleOf_unitId]
  have member : a ∈ plan.units.zipIdx.filter (fun f => f.1.id = b.1.id) := List.mem_filter.mpr ⟨there,decide_eq_true same⟩
  cases firsts : plan.units.zipIdx.filter (fun f => f.1.id = b.1.id) with
  | nil => rw [firsts] at member; cases member
  | cons f rest =>
    -- the first of the id in the plan is no later than `a`, so it is late
    have sorted : (f::rest).Pairwise (fun f g => f.2 < g.2) := firsts ▸ futures_sorted.filter _
    have early : f.2 ≠ b.2 := by
      rw [firsts] at member
      rcases List.mem_cons.mp member with rfl | later
      · exact Nat.ne_of_lt before
      · exact Nat.ne_of_lt (Nat.lt_trans (List.rel_of_pairwise_cons sorted later) before)
    have late : ¬(alone b.2).done f.2 := by simpa [Timing.done,alone] using early
    rw [planned,firsts,List.map_cons] at shown
    have heads := (List.cons.inj shown).1
    apply bundleOf_done (.inl (List.mem_singleton.mpr rfl)) (owned_of_complete complete b there')
    rw [← heads,bundleOf_late late]

theorem answerable_of_complete (complete : ∀ timing, ∃ result, executeAskPlan lib plan tools timing = .ok result ∧
    Complete lib plan tools timing result) : ∀ f ∈ plan.units.zipIdx, Answerable lib f.1 (tools f.2) := by
  intro f there
  obtain ⟨result,-,complete⟩ := complete (inTurn plan)
  obtain ⟨b,own⟩ := owned_of_complete complete f there
  rw [ownBundle,if_pos (inTurn_done there)] at own
  exact resolve_of_answerable.mpr ⟨b,own⟩

end Execution

section Question

variable (lib : Library) (casefold : Char → List Char) (raw : Option AskPlan) (question : String) (context : List SessionValue)
  (maxUnits : Int) (tools : Nat → Outcome)

/-- The plan of the question is executed in full, in whatever order its futures finish. -/
def Total : Prop := ∀ timing, ∃ plan result, validateAskPlan casefold raw question context maxUnits = .ok plan ∧
  executeAskPlan lib plan tools timing = .ok result ∧ Complete lib plan tools timing result

/-- The planner's output holds units to keep, and they do not wait for one another in a circle. -/
def Planned : Prop := ∃ plan, raw = some plan ∧ Usable (kept casefold plan question context maxUnits)

/-- The units to be executed: those kept of the planner's, or the fallback's. -/
def unitsFor : List QueryUnit :=
  match raw with
  | none => [(fallbackUnit (clean question)).cleaned]
  | some plan =>
    if Usable (kept casefold plan question context maxUnits) then kept casefold plan question context maxUnits
    else [(fallbackUnit (clean question)).cleaned]

/-- A question short enough for the fallback where that is needed, an id of its own for
each unit, and from the tools what can be shown. -/
structure Executable : Prop where
  short : ¬Planned casefold raw question context maxUnits → (clean question).length ≤ 500
  distinct : ((unitsFor casefold raw question context maxUnits).map (·.id)).Nodup
  answerable : ∀ f ∈ (unitsFor casefold raw question context maxUnits).zipIdx, Answerable lib f.1 (tools f.2)

end Question

section Exactly

variable {lib : Library} {casefold : Char → List Char} {raw : Option AskPlan} {question : String} {context : List SessionValue}
  {maxUnits : Int} {tools : Nat → Outcome}

theorem unitsFor_planned {plan : AskPlan} (usable : Usable (kept casefold plan question context maxUnits)) :
    unitsFor casefold (some plan) question context maxUnits = kept casefold plan question context maxUnits := if_pos usable

theorem fallback_of_not_planned (unplanned : ¬Planned casefold raw question context maxUnits) :
    validateAskPlan casefold raw question context maxUnits = safeFallbackPlan question ∧
      unitsFor casefold raw question context maxUnits = [(fallbackUnit (clean question)).cleaned] := by
  cases raw with
  | none => exact ⟨rfl,rfl⟩
  | some plan =>
    have useless : ¬Usable (kept casefold plan question context maxUnits) := fun usable => unplanned ⟨plan,rfl,usable⟩
    exact ⟨if_neg useless,if_neg useless⟩

theorem validate_ok (text : clean question ≠ "") (fits : question.length ≤ 2000)
    (short : ¬Planned casefold raw question context maxUnits → (clean question).length ≤ 500) :
    ∃ plan, validateAskPlan casefold raw question context maxUnits = .ok plan ∧
      plan.units = unitsFor casefold raw question context maxUnits := by
  by_cases planned : Planned casefold raw question context maxUnits
  · obtain ⟨plan,rfl,usable⟩ := planned
    rw [unitsFor_planned usable]
    exact validate_usable text fits usable
  · obtain ⟨same,units⟩ := fallback_of_not_planned planned
    rw [same,units]
    exact fallback_ok text (short planned)

theorem next_of_unitsFor (distinct : ((unitsFor casefold raw question context maxUnits).map (·.id)).Nodup) (completed : String → Prop)
    (waiting : ∃ unit ∈ unitsFor casefold raw question context maxUnits, ¬completed unit.id) :
    ∃ unit ∈ unitsFor casefold raw question context maxUnits, ¬completed unit.id ∧ ∀ parent ∈ unit.dependsOn, completed parent := by
  by_cases planned : Planned casefold raw question context maxUnits
  · obtain ⟨plan,rfl,usable⟩ := planned
    rw [unitsFor_planned usable] at distinct waiting ⊢
    exact next_unit usable distinct (fun _ member _ waits => kept_dependsOn member waits) waiting
  · rw [(fallback_of_not_planned planned).2] at waiting ⊢
    obtain ⟨unit,member,waits⟩ := waiting
    obtain rfl := List.mem_singleton.mp member
    refine ⟨_,member,waits,?_⟩
    rw [fallback_dependsOn]
    exact fun _ parent => (List.not_mem_nil parent).elim

/-- `execute_ask_plan(validate_ask_plan(...))` is total and complete exactly when the
units have ids of their own, a fallback's question has at most 500 characters, and the
evidence of each unit can be shown. -/
theorem total_iff (text : clean question ≠ "") (fits : question.length ≤ 2000) :
    Total lib casefold raw question context maxUnits tools ↔ Executable lib casefold raw question context maxUnits tools := by
  constructor
  · intro total
    have short : ¬Planned casefold raw question context maxUnits → (clean question).length ≤ 500 := by
      intro unplanned
      by_contra long
      obtain ⟨plan,result,valid,-⟩ := total ⟨[],[],List.nodup_nil⟩
      rw [(fallback_of_not_planned unplanned).1,fallback_too_long text (Nat.not_le.mp long)] at valid
      cases valid
    obtain ⟨plan,valid,units⟩ := validate_ok text fits short
    have complete : ∀ timing, ∃ result, executeAskPlan lib plan tools timing = .ok result ∧ Complete lib plan tools timing result := by
      intro timing
      obtain ⟨plan',result,valid',ran,complete⟩ := total timing
      obtain rfl := Except.ok.inj (valid.symm.trans valid')
      exact ⟨result,ran,complete⟩
    refine ⟨short,?_,?_⟩
    · rw [← units]
      exact distinct_of_complete complete
    · rw [← units]
      exact answerable_of_complete complete
  · intro fine timing
    obtain ⟨plan,valid,units⟩ := validate_ok text fits fine.short
    have distinct : (plan.units.map (·.id)).Nodup := units ▸ fine.distinct
    obtain ⟨result,ran,complete⟩ := execute_complete timing distinct (units ▸ next_of_unitsFor fine.distinct) (units ▸ fine.answerable)
    exact ⟨plan,result,valid,ran,complete⟩

/-- A library without terms, scores and profiles. -/
def plainLibrary : Library where
  normalizeContent := id
  overlapScore := fun _ _ => 0
  timestamp := fun _ => none
  profile := fun _ => none
  constraints := fun _ => ⟨[],[],false,false⟩
  recordTerms := fun _ => []
  recordText := fun _ => ""
  evidencePerUnit := 5

def noteRecord (content : String) : Record := { id := some ⟨"n1",by decide⟩, sourceKind := "note", content := content }

/-- The planner's output was of no use, and the notes are searched for the question itself. -/
def noteFound (content : String) (_ : Nat) : Outcome := .returned .searchNotes [noteRecord content]

theorem noteFound_records (content : String) : plainLibrary.evidenceRecords (fallbackUnit (clean "q")).cleaned .searchNotes
    [noteRecord content] = [(noteRecord content,.currentCandidate)] := rfl

theorem noteFound_resolvable {content : String} (some_text : content ≠ "") :
    plainLibrary.Resolvable (fallbackUnit (clean "q")).cleaned .searchNotes [noteRecord content] ↔ content.length ≤ 1000 := by
  have quoted : (noteRecord content).quoted = content := if_neg some_text
  constructor
  · intro fine
    have short := fine.short
    rw [noteFound_records] at short
    have fits : (noteRecord content).quoted.length ≤ 1000 := short (noteRecord content,.currentCandidate) (Option.mem_some_self _)
    rwa [quoted] at fits
  · intro short
    refine ⟨?_,?_,?_,?_⟩
    · intro item member
      rw [noteFound_records] at member
      obtain rfl := List.mem_singleton.mp member
      exact ⟨fun _ absent => (Option.not_mem_none _ absent).elim,fun _ absent => (Option.not_mem_none _ absent).elim⟩
    · intro item member
      rw [noteFound_records] at member
      obtain rfl := Option.mem_some.mp member
      exact quoted.symm ▸ short
    · exact Nat.le_add_right 1 7
    · exact Nat.zero_le 8

theorem total_iff_short : Total plainLibrary (fun c => [c.toLower]) none "q" [] 4 (noteFound "short") :=
  (total_iff (by decide) (by decide)).mpr {
    short := fun _ => by decide
    distinct := by decide
    answerable := by
      intro f there
      obtain rfl := List.mem_singleton.mp there
      exact .inr ((noteFound_resolvable (by decide)).mpr (by decide)) }

/-- A note of 1001 characters is a value that does not fit its resolution, and the error
leaves the executor. -/
theorem long_note_raises :
    ¬Total plainLibrary (fun c => [c.toLower]) none "q" [] 4 (noteFound (String.ofList (List.replicate 1001 'a'))) := by
  intro total
  have planned : ∃ plan, safeFallbackPlan "q" = .ok plan ∧ plan.units = [(fallbackUnit (clean "q")).cleaned] :=
    fallback_ok (by decide) (by decide)
  obtain ⟨plan,valid,units⟩ := planned
  have complete : ∀ timing, ∃ result,
      executeAskPlan plainLibrary plan (noteFound (String.ofList (List.replicate 1001 'a'))) timing = .ok result ∧
        Complete plainLibrary plan (noteFound (String.ofList (List.replicate 1001 'a'))) timing result := by
    intro timing
    obtain ⟨plan',result,valid',ran,complete⟩ := total timing
    obtain rfl := Except.ok.inj (valid.symm.trans valid')
    exact ⟨result,ran,complete⟩
  have there : ((fallbackUnit (clean "q")).cleaned,0) ∈ plan.units.zipIdx := by rw [units]; exact List.mem_singleton.mpr rfl
  have some_text : String.ofList (List.replicate 1001 'a') ≠ "" := by
    intro same
    have := congrArg String.length same
    rw [String.length_ofList,List.length_replicate] at this
    exact absurd this (by decide)
  rcases answerable_of_complete complete _ there with empty | fine
  · cases empty
  · have short := (noteFound_resolvable some_text).mp fine
    rw [String.length_ofList,List.length_replicate] at short
    exact absurd short (by decide)

end Exactly

end Suixinji.Ask
