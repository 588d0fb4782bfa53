import Suixinji.Ask.Answer

/-! What an answer and its claims rest on, whatever the model responds: evidence of the
unit's own bundle. Not all of it is what the resolver selected, and the fallbacks have
lines for units that were not resolved. -/
namespace Suixinji.Ask
open Checked
open Text (isSpace stripped)

def Supported (bundles : List UnitEvidenceBundle) (unitId : String) : Prop :=
  ∃ bundle ∈ bundles, bundle.unitId = unitId ∧ (bundle.resolution.status = .resolved ∨ bundle.resolution.status = .partly)

def UnitEvidenceBundle.Chosen (bundle : UnitEvidenceBundle) (item : EvidenceItem) : Prop :=
  item ∈ bundle.evidence ∧ item.evidenceRole ≠ .conflicting ∧ item.evidenceId ∉ bundle.resolution.conflictingEvidenceIds

structure Claim.From (P : EvidenceItem → Prop) (claim : Claim) : Prop where
  memories : ∀ id ∈ claim.memoryIds, ∃ item, P item ∧ item.memoryId = some id
  versions : ∀ id ∈ claim.versionIds, ∃ item, P item ∧ item.versionId = some id
  sources : ∀ id ∈ claim.sourceIds, ∃ item, P item ∧ id ∈ item.sourceNoteIds

namespace Writing

variable (w : Writing)

def Contained (lines : List Line) (claim : Claim) : Prop :=
  ∃ line ∈ lines, line.unitId = some claim.unitId ∧ (w.claimIdentity claim.text).toList <:+: (w.claimIdentity line.text).toList

structure RestsOnSelected (plan : AskPlan) (bundles : List UnitEvidenceBundle) (reply : Reply) : Prop where
  lines : ∀ line ∈ reply.lines, ∃ unit ∈ plan.units, line.unitId = some unit.id ∧ Supported bundles unit.id
  once : (reply.lines.map (·.unitId)).Nodup
  claims : ∀ claim ∈ reply.claims, (∃ unit ∈ plan.units, unit.id = claim.unitId) ∧ Supported bundles claim.unitId ∧
    w.Contained reply.lines claim ∧ ∃ bundle ∈ bundles, bundle.unitId = claim.unitId ∧ claim.From bundle.Chosen

/-- An answer of the model that was taken: every line is of a unit with evidence, no unit
has two, and a claim rests on the evidence of its unit. -/
structure Rests (plan : AskPlan) (bundles : List UnitEvidenceBundle) (reply : Reply) : Prop where
  lines : ∀ line ∈ reply.lines, ∃ bundle ∈ bundles, line.unitId = some bundle.unitId ∧ bundle.answerable
  planned : (∀ bundle ∈ bundles, ∃ unit ∈ plan.units, unit.id = bundle.unitId) →
    ∀ line ∈ reply.lines, ∃ unit ∈ plan.units, line.unitId = some unit.id
  once : (reply.lines.map (·.unitId)).Nodup
  claims : ∀ claim ∈ reply.claims, w.Contained reply.lines claim ∧
    ∃ bundle ∈ bundles, bundle.unitId = claim.unitId ∧ bundle.answerable ∧ claim.From (· ∈ bundle.evidence)

end Writing

/-- An answer that takes nothing of the model's: no claim, at most one line for each unit of
the plan, and for a unit that was not resolved one that states no fact. -/
structure FallsBack (plan : AskPlan) (bundles : List UnitEvidenceBundle) (reply : Reply) : Prop where
  claims : reply.claims = []
  once : (reply.lines.filterMap (·.unitId)).Sublist (plan.units.map (·.id))
  lines : ∀ line ∈ reply.lines, ∀ id, line.unitId = some id → Supported bundles id ∨
    ∃ unit ∈ plan.units, unit.id = id ∧ line.text ∈ [notFoundText unit,conflictText unit,unverifiedText unit]
  general : ∀ line ∈ reply.lines, line.unitId = none → line.text ∈ ["没有找到足够的相关记录。","已找到相关证据，但暂时无法生成可验证回答。"]

/-! ### The fallbacks -/

section Fallbacks

variable {w : Writing} {plan : AskPlan} {bundles : List UnitEvidenceBundle} {unit : QueryUnit}

theorem bundleFor_some {unitId : String} {bundle : UnitEvidenceBundle} (found : bundleFor bundles unitId = some bundle) :
    bundle ∈ bundles ∧ bundle.unitId = unitId :=
  ⟨List.mem_reverse.mp (List.mem_of_find?_eq_some found),by simpa using List.find?_some found⟩

theorem fallbackText_supported {text : String} (gives : fallbackText w bundles unit = some text) :
    Supported bundles unit.id ∨ text ∈ [notFoundText unit,conflictText unit,unverifiedText unit] := by
  unfold fallbackText at gives
  split at gives
  · cases gives
    exact .inr (by simp)
  · rename_i bundle found
    obtain ⟨inside,same⟩ := bundleFor_some found
    cases status : bundle.resolution.status with
    | notFound =>
      rw [status] at gives
      cases gives
      exact .inr (by simp)
    | conflict =>
      rw [status] at gives
      cases gives
      exact .inr (by simp)
    | resolved => exact .inl ⟨bundle,inside,same,.inl status⟩
    | partly => exact .inl ⟨bundle,inside,same,.inr status⟩

theorem filterMap_units {g : QueryUnit → Option String} (units : List QueryUnit) :
    ((units.filterMap (fun unit => (g unit).map (Line.mk (some unit.id)))).filterMap (·.unitId)).Sublist (units.map (·.id)) := by
  induction units with
  | nil => exact List.Sublist.refl _
  | cons unit rest ih =>
    rw [List.filterMap_cons]
    cases g unit with
    | none => exact ih.cons unit.id
    | some text => exact ih.cons_cons unit.id

theorem fallbackAnswer_fallsBack {reply : Reply} (lines : reply.lines = fallbackAnswer w plan bundles) (claims : reply.claims = []) :
    FallsBack plan bundles reply := by
  unfold fallbackAnswer at lines
  dsimp only at lines
  split at lines
  · refine ⟨claims,by simp [lines],?_,?_⟩
    · intro line member id named
      rw [lines,List.mem_singleton] at member
      rw [member] at named
      cases named
    · intro line member _
      rw [lines,List.mem_singleton] at member
      rw [member]
      exact List.mem_cons_self
  · have each {line : Line} (member : line ∈ reply.lines) : ∃ unit ∈ plan.units, ∃ text, fallbackText w bundles unit = some text ∧
        line = ⟨some unit.id,text⟩ := by
      rw [lines] at member
      obtain ⟨unit,listed,made⟩ := List.mem_filterMap.mp member
      obtain ⟨text,gives,rfl⟩ := Option.map_eq_some_iff.mp made
      exact ⟨unit,listed,text,gives,rfl⟩
    refine ⟨claims,lines ▸ filterMap_units plan.units,?_,?_⟩
    · intro line member id named
      obtain ⟨unit,listed,text,gives,rfl⟩ := each member
      cases named
      exact (fallbackText_supported gives).imp_right (fun fixed => ⟨unit,listed,rfl,fixed⟩)
    · intro line member unnamed
      obtain ⟨_,_,_,_,rfl⟩ := each member
      cases unnamed

theorem failureAnswer_fallsBack {reply : Reply} (lines : reply.lines = answerContractFailureAnswer plan bundles) (claims : reply.claims = []) :
    FallsBack plan bundles reply := by
  unfold answerContractFailureAnswer at lines
  dsimp only at lines
  split at lines
  · refine ⟨claims,by simp [lines],?_,?_⟩
    · intro line member id named
      rw [lines,List.mem_singleton] at member
      rw [member] at named
      cases named
    · intro line member _
      rw [lines,List.mem_singleton] at member
      rw [member]
      exact List.mem_cons_of_mem _ List.mem_cons_self
  · refine ⟨claims,?_,?_,?_⟩
    · rw [lines,List.filterMap_map]
      have named : ((fun line : Line => line.unitId) ∘ fun unit : QueryUnit => (⟨some unit.id,unverifiedText unit⟩ : Line)) =
          some ∘ (·.id) := rfl
      rw [named,List.filterMap_eq_map]
      exact List.filter_sublist.map _
    · intro line member id named
      rw [lines] at member
      obtain ⟨unit,kept,rfl⟩ := List.mem_map.mp member
      cases named
      exact .inr ⟨unit,List.mem_of_mem_filter kept,rfl,by simp⟩
    · intro line member unnamed
      rw [lines] at member
      obtain ⟨_,_,rfl⟩ := List.mem_map.mp member
      cases unnamed

end Fallbacks

/-! ### The claims -/

section Claims

variable {w : Writing} {bundles : List UnitEvidenceBundle} {P : EvidenceItem → Prop} {claim : Claim} {item : EvidenceItem}

theorem stripped_stripped (text : String) : stripped (stripped text) = stripped text := by
  unfold stripped
  rw [String.toList_ofList,Text.strip_strip]

theorem mem_added {ids : List String} {id other : String} (member : other ∈ if id ∈ ids then ids else ids ++ [id]) :
    other ∈ ids ∨ other = id := by
  split at member
  · exact .inl member
  · simpa using member

theorem mem_added_option {ids : List String} {id : Option String} {other : String}
    (member : other ∈ (id.filter (· ≠ "")).elim ids (fun id => if id ∈ ids then ids else ids ++ [id])) : other ∈ ids ∨ id = some other := by
  cases kept : id.filter (· ≠ "") with
  | none =>
    rw [kept] at member
    exact .inl member
  | some chosen =>
    rw [kept] at member
    have named : id = some chosen := (Option.filter_eq_some_iff.mp kept).1
    exact (mem_added member).imp_right (fun same => by rw [same,named])

theorem mem_added_all {more ids : List String} {other : String}
    (member : other ∈ more.foldl (fun ids id => if id ∈ ids then ids else ids ++ [id]) ids) : other ∈ ids ∨ other ∈ more := by
  induction more generalizing ids with
  | nil => exact .inl member
  | cons id more ih =>
    rcases ih member with added | later
    · exact (mem_added added).imp_right (fun same => by rw [same]; exact List.mem_cons_self)
    · exact .inr (List.mem_cons_of_mem _ later)

theorem attach_from (from_ : claim.From P) (of : P item) : (attach claim item).From P where
  memories id member := (mem_added_option member).elim (from_.memories id) (fun named => ⟨item,of,named⟩)
  versions id member := (mem_added_option member).elim (from_.versions id) (fun named => ⟨item,of,named⟩)
  sources id member := (mem_added_all member).elim (from_.sources id) (fun listed => ⟨item,of,listed⟩)

@[simp] theorem foldl_attach_unitId (items : List EvidenceItem) (claim : Claim) : (items.foldl attach claim).unitId = claim.unitId := by
  induction items generalizing claim with
  | nil => rfl
  | cons item rest ih => exact ih (attach claim item)

@[simp] theorem foldl_attach_text (items : List EvidenceItem) (claim : Claim) : (items.foldl attach claim).text = claim.text := by
  induction items generalizing claim with
  | nil => rfl
  | cons item rest ih => exact ih (attach claim item)

theorem foldl_attach_from {items : List EvidenceItem} (of : ∀ item ∈ items, P item) (from_ : claim.From P) :
    (items.foldl attach claim).From P := by
  induction items generalizing claim with
  | nil => exact from_
  | cons item rest ih =>
    exact ih (fun item member => of item (List.mem_cons_of_mem _ member)) (attach_from from_ (of item List.mem_cons_self))

structure Backed (w : Writing) (bundles : List UnitEvidenceBundle) (answers : List Fields) (claim : Claim) : Prop where
  contained : ∃ item ∈ answers, w.unitId item = claim.unitId ∧
    (w.claimIdentity claim.text).toList <:+: (w.claimIdentity (w.answer item)).toList
  backed : ∀ bundle, bundleFor bundles claim.unitId = some bundle → claim.From (· ∈ bundle.evidence)

theorem itemOf_mem {unitId evidenceId : String} {bundle : UnitEvidenceBundle} (found : bundleFor bundles unitId = some bundle)
    (cited : itemOf bundles unitId evidenceId = some item) : item ∈ bundle.evidence := by
  rw [itemOf,found] at cited
  exact List.mem_reverse.mp (List.mem_of_find?_eq_some cited)

theorem mergeClaim_backed {answers : List Fields} {answer : Fields} (there : answer ∈ answers) {text : String} {ids : List String}
    (plain : stripped text = text) (part : (w.claimIdentity text).toList <:+: (w.claimIdentity (w.answer answer)).toList)
    {merged : List Claim} (before : ∀ c ∈ merged, Backed w bundles answers c) :
    ∀ c ∈ w.mergeClaim bundles (w.unitId answer) merged (text,ids), Backed w bundles answers c := by
  have cited {bundle : UnitEvidenceBundle} (found : bundleFor bundles (w.unitId answer) = some bundle) :
      ∀ item ∈ ids.filterMap (itemOf bundles (w.unitId answer)), item ∈ bundle.evidence := by
    intro item member
    obtain ⟨_,_,named⟩ := List.mem_filterMap.mp member
    exact itemOf_mem found named
  unfold Writing.mergeClaim
  dsimp only
  split
  · exact before
  · split
    · intro c member
      obtain ⟨old,inside,rfl⟩ := List.mem_map.mp member
      have known := before old inside
      split
      · rename_i same
        simp only [Bool.and_eq_true,decide_eq_true_eq] at same
        obtain ⟨item,listed,named,part⟩ := known.contained
        refine ⟨⟨item,listed,by rw [foldl_attach_unitId,named],by rw [foldl_attach_text]; exact part⟩,?_⟩
        intro bundle found
        rw [foldl_attach_unitId] at found
        exact foldl_attach_from (cited (same.1 ▸ found)) (known.backed bundle found)
      · exact known
    · intro c member
      rcases List.mem_append.mp member with old | new
      · exact before c old
      · rw [List.mem_singleton.mp new]
        refine ⟨⟨answer,there,by rw [foldl_attach_unitId],by rw [foldl_attach_text,plain]; exact part⟩,?_⟩
        intro bundle found
        rw [foldl_attach_unitId] at found
        exact foldl_attach_from (cited found) ⟨nofun,nofun,nofun⟩

theorem unitClaims_part {answer : Fields} {ids : List String} {raw : List Data} {claims : List (String × List String)}
    (made : w.unitClaims bundles answer ids raw = some claims) :
    ∀ c ∈ claims, stripped c.1 = c.1 ∧ (w.claimIdentity c.1).toList <:+: (w.claimIdentity (w.answer answer)).toList := by
  induction raw generalizing claims with
  | nil =>
    cases made
    exact fun c none => absurd none List.not_mem_nil
  | cons data rest ih =>
    cases data with
    | object claim =>
      unfold Writing.unitClaims at made
      obtain ⟨cited,_,made⟩ := Option.bind_eq_some_iff.mp made
      obtain ⟨others,later,made⟩ := Option.bind_eq_some_iff.mp made
      obtain rfl := Option.some.inj made
      intro c member
      split at member
      · rename_i supported
        rcases List.mem_cons.mp member with rfl | other
        · exact ⟨stripped_stripped _,supported.2.2.1⟩
        · exact ih later c other
      · exact ih later c member
    | null | bool | number | text | list =>
      unfold Writing.unitClaims at made
      exact ih made

theorem renderedClaims_part {answer : Fields} {claims : List (String × List String)} (made : w.renderedClaims bundles answer = some claims) :
    ∀ c ∈ claims, stripped c.1 = c.1 ∧ (w.claimIdentity c.1).toList <:+: (w.claimIdentity (w.answer answer)).toList := by
  obtain ⟨ids,_,made⟩ := Option.bind_eq_some_iff.mp made
  obtain ⟨own,listed,made⟩ := Option.bind_eq_some_iff.mp made
  cases made
  intro c member
  split at member
  · rw [List.mem_singleton.mp member]
    exact ⟨stripped_stripped _,List.infix_rfl⟩
  · unfold Writing.ownClaims at listed
    split at listed
    · exact unitClaims_part listed c member
    · cases listed
      cases member

theorem claims_backed {answers : List Fields} {pairs : List (String × List (String × List String))}
    (made : ∀ pair ∈ pairs, ∃ answer ∈ answers, w.unitId answer = pair.1 ∧ w.renderedClaims bundles answer = some pair.2) :
    ∀ c ∈ w.claimsFromAnswerUnits bundles pairs, Backed w bundles answers c := by
  have one (pair : String × List (String × List String)) (merged : List Claim)
      (of : ∃ answer ∈ answers, w.unitId answer = pair.1 ∧ w.renderedClaims bundles answer = some pair.2)
      (before : ∀ c ∈ merged, Backed w bundles answers c) :
      ∀ c ∈ pair.2.foldl (w.mergeClaim bundles pair.1) merged, Backed w bundles answers c := by
    obtain ⟨answer,there,named,rendered⟩ := of
    have parts := renderedClaims_part rendered
    rw [← named]
    generalize pair.2 = claims at parts
    induction claims generalizing merged with
    | nil => exact before
    | cons claim rest ih =>
      obtain ⟨plain,part⟩ := parts claim List.mem_cons_self
      exact ih _ (mergeClaim_backed there plain part before) (fun c later => parts c (List.mem_cons_of_mem _ later))
  unfold Writing.claimsFromAnswerUnits
  have start : ∀ c ∈ ([] : List Claim), Backed w bundles answers c := fun c none => absurd none List.not_mem_nil
  generalize ([] : List Claim) = merged at start
  induction pairs generalizing merged with
  | nil => exact start
  | cons pair rest ih =>
    exact ih (fun other later => made other (List.mem_cons_of_mem _ later)) _ (one pair merged (made pair List.mem_cons_self) start)

end Claims

/-! ### The contract -/

section Contract

variable {w : Writing} {bundles : List UnitEvidenceBundle}

theorem acceptAnswers_once {answers : List Data} {seen : List String} {accepted : List Fields} {rejected : List String}
    (ran : w.acceptAnswers bundles answers seen = some (accepted,rejected)) :
    (∀ item ∈ accepted, (bundleFor bundles (w.unitId item)).isSome ∧ w.unitId item ∉ seen) ∧ (accepted.map w.unitId).Nodup := by
  induction answers generalizing seen accepted rejected with
  | nil =>
    cases ran
    exact ⟨fun _ none => absurd none List.not_mem_nil,List.nodup_nil⟩
  | cons data rest ih =>
    cases data with
    | object item =>
      unfold Writing.acceptAnswers at ran
      obtain ⟨ids,_,ran⟩ := Option.bind_eq_some_iff.mp ran
      cases reason : w.rejection bundles seen item ids with
      | some reason =>
        rw [reason] at ran
        obtain ⟨⟨_,_⟩,later,ran⟩ := Option.bind_eq_some_iff.mp ran
        cases ran
        exact ih later
      | none =>
        rw [reason] at ran
        obtain ⟨⟨_,_⟩,later,ran⟩ := Option.bind_eq_some_iff.mp ran
        cases ran
        obtain ⟨allowed,once⟩ := ih later
        unfold Writing.rejection at reason
        split at reason
        · cases reason
        rename_i known
        split at reason
        · cases reason
        rename_i new
        rw [not_or] at known
        have found : (bundleFor bundles (w.unitId item)).isSome := by simpa [Option.isSome_iff_ne_none] using known.2
        refine ⟨fun other member => ?_,List.nodup_cons.mpr ⟨fun again => ?_,once⟩⟩
        · rcases List.mem_cons.mp member with rfl | later
          · exact ⟨found,new⟩
          · exact ⟨(allowed other later).1,fun old => (allowed other later).2 (List.mem_cons_of_mem _ old)⟩
        · obtain ⟨other,member,same⟩ := List.mem_map.mp again
          exact (allowed other member).2 (same ▸ List.mem_cons_self)
    | null | bool | number | text | list =>
      unfold Writing.acceptAnswers at ran
      obtain ⟨⟨_,_⟩,later,ran⟩ := Option.bind_eq_some_iff.mp ran
      cases ran
      exact ih later

theorem attempt_once {response : Response} {accepted : List Fields} {rejected : List String}
    (ran : w.attempt bundles response = some (accepted,rejected)) :
    (∀ item ∈ accepted, (bundleFor bundles (w.unitId item)).isSome) ∧ (accepted.map w.unitId).Nodup := by
  cases response with
  | error kind =>
    cases ran
    exact ⟨fun _ none => absurd none List.not_mem_nil,List.nodup_nil⟩
  | ok data =>
    unfold Writing.attempt Writing.validatedAnswerContractItems at ran
    dsimp only at ran
    split at ran
    · obtain ⟨⟨_,_⟩,later,ran⟩ := Option.bind_eq_some_iff.mp ran
      cases ran
      obtain ⟨allowed,once⟩ := acceptAnswers_once later
      exact ⟨fun item member => (allowed item member).1,once⟩
    · cases ran
      exact ⟨fun _ none => absurd none List.not_mem_nil,List.nodup_nil⟩

theorem render_rests {plan : AskPlan} {reply : Reply} {accepted : List Fields}
    (allowed : ∀ item ∈ accepted, (bundleFor (bundles.filter (·.answerable)) (w.unitId item)).isSome) (once : (accepted.map w.unitId).Nodup)
    (rendered : w.renderValidatedAnswerContract (bundles.filter (·.answerable)) accepted = some (reply.lines,reply.claims)) :
    w.Rests plan bundles reply := by
  obtain ⟨pairs,mapped,rendered⟩ := Option.bind_eq_some_iff.mp rendered
  obtain ⟨lines,claims⟩ := Prod.mk.inj (Option.some.inj rendered)
  have answered {item : Fields} (member : item ∈ accepted) : ∃ bundle, bundleFor (bundles.filter (·.answerable)) (w.unitId item) = some bundle ∧
      bundle ∈ bundles ∧ bundle.unitId = w.unitId item ∧ bundle.answerable := by
    obtain ⟨bundle,found⟩ := Option.isSome_iff_exists.mp (allowed item member)
    obtain ⟨kept,same⟩ := bundleFor_some found
    exact ⟨bundle,found,List.mem_of_mem_filter kept,same,(List.mem_filter.mp kept).2⟩
  have each : ∀ line ∈ reply.lines, ∃ bundle ∈ bundles, line.unitId = some bundle.unitId ∧ bundle.answerable := by
    intro line member
    rw [← lines] at member
    obtain ⟨item,kept,rfl⟩ := List.mem_map.mp member
    obtain ⟨bundle,_,inside,same,answerable⟩ := answered (List.mem_of_mem_filter kept)
    exact ⟨bundle,inside,congrArg some same.symm,answerable⟩
  refine ⟨each,?_,?_,?_⟩
  · intro planned line member
    obtain ⟨bundle,inside,named,_⟩ := each line member
    obtain ⟨unit,listed,same⟩ := planned bundle inside
    exact ⟨unit,listed,by rw [named,same]⟩
  · rw [← lines,List.map_map]
    have named : ((fun line : Line => line.unitId) ∘ fun item => (⟨some (w.unitId item),w.answer item⟩ : Line)) = some ∘ w.unitId := rfl
    rw [named,← List.map_map]
    exact (List.Nodup.sublist (List.filter_sublist.map w.unitId) once).map (Option.some_injective _)
  · intro claim member
    rw [← claims] at member
    have backed := claims_backed (fun pair inside => by
      obtain ⟨item,listed,made⟩ := mapM_some mapped pair inside
      obtain ⟨own,rendered,rfl⟩ := Option.map_eq_some_iff.mp made
      exact ⟨item,listed,rfl,rendered⟩) claim member
    obtain ⟨item,kept,named,part⟩ := backed.contained
    obtain ⟨bundle,found,inside,same,answerable⟩ := answered (List.mem_of_mem_filter kept)
    refine ⟨⟨⟨some (w.unitId item),w.answer item⟩,?_,congrArg some named,part⟩,bundle,inside,same.trans named,answerable,
      backed.backed bundle (named ▸ found)⟩
    rw [← lines]
    exact List.mem_map_of_mem kept

end Contract

/-- Whatever the model responds to either request, an answer falls back on the plan's
bundles without a claim, or its lines and claims rest on the evidence of their units. -/
theorem answer_grounded {w : Writing} {plan : AskPlan} {bundles : List UnitEvidenceBundle} {first second : Response} {reply : Reply}
    (answered : w.answerWithClaimsFromBundlesDetailed plan bundles first second = some reply) :
    FallsBack plan bundles reply ∨ w.Rests plan bundles reply := by
  unfold Writing.answerWithClaimsFromBundlesDetailed at answered
  split at answered
  · cases answered
    exact .inl (fallbackAnswer_fallsBack (w := w) rfl rfl)
  dsimp only at answered
  split at answered
  · cases answered
    exact .inl (fallbackAnswer_fallsBack (w := w) rfl rfl)
  obtain ⟨⟨accepted,rejected⟩,tried,answered⟩ := Option.bind_eq_some_iff.mp answered
  dsimp only at answered
  split at answered
  · obtain ⟨⟨lines,claims⟩,rendered,answered⟩ := Option.bind_eq_some_iff.mp answered
    cases answered
    obtain ⟨allowed,once⟩ := attempt_once tried
    exact .inr (render_rests allowed once rendered)
  obtain ⟨⟨accepted,more⟩,tried,answered⟩ := Option.bind_eq_some_iff.mp answered
  dsimp only at answered
  split at answered
  · obtain ⟨⟨lines,claims⟩,rendered,answered⟩ := Option.bind_eq_some_iff.mp answered
    cases answered
    obtain ⟨allowed,once⟩ := attempt_once tried
    exact .inr (render_rests allowed once rendered)
  · cases answered
    exact .inl (failureAnswer_fallsBack rfl rfl)

/-! ### Two records of a drink -/

def plainWriting : Writing := ⟨id,Char.isAlphanum,fun _ => ""⟩

def drinkUnit : QueryUnit where
  id := "u1"
  question := "which drink"
  sourceSpans := []
  intent := .semanticCurrent
  memoryType := some .semantic
  facet := none
  topic := none
  timeMode := .current
  evidenceMode := .currentState
  needSourceEvidence := false
  dependsOn := []
  priority := 1

def drinkPlan : AskPlan where
  originalQuery := "which drink"
  context := []
  units := [drinkUnit]
  answerMode := .direct
  query_fits := by decide
  context_fits := no_context_fits
  units_fit := by decide

def drinkEvidence (memory : Identifier) (drink : String) (role : EvidenceRole) : EvidenceItem :=
  evidenceOf { id := some memory, content := drink } (some .semantic) .resolveSemanticFacts role

def drinkEvidences : List EvidenceItem :=
  [drinkEvidence ⟨"m1",by decide⟩ "tea" .currentCandidate,drinkEvidence ⟨"m2",by decide⟩ "coffee" .conflicting]

/-- Resolved by the first of them, as `_resolve` does. -/
def drinkBundle : UnitEvidenceBundle := ⟨"u1",drinkEvidences,resolutionOf drinkEvidences false⟩

/-- An answer that cites both. -/
def drinkResponse : Response :=
  .ok (.object [("unit_answers",.list [.object [("unit_id",.text "u1"),("answer",.text "coffee"),
    ("evidence_ids",.list [.text "m1",.text "m2"])]])])

def drinkReply : Reply where
  lines := [⟨some "u1","coffee"⟩]
  claims := [{ unitId := "u1", identity := "coffee", text := "coffee", memoryIds := ["m1","m2"] }]
  status := .valid
  attempts := 1
  answeredUnits := ["u1"]

theorem drink_answered : plainWriting.answerWithClaimsFromBundlesDetailed drinkPlan [drinkBundle] drinkResponse (.error "") = some drinkReply := by
  decide +kernel

theorem answer_grounded_drink : FallsBack drinkPlan [drinkBundle] drinkReply ∨ plainWriting.Rests drinkPlan [drinkBundle] drinkReply :=
  answer_grounded drink_answered

/-- The claim carries the id of the memory that the resolver marked as conflicting; and
without a bundle the answer has a line for a unit that was not resolved. -/
theorem conflicting_id_attached :
    (∃ reply, plainWriting.answerWithClaimsFromBundlesDetailed drinkPlan [drinkBundle] drinkResponse (.error "") = some reply ∧
      ¬plainWriting.RestsOnSelected drinkPlan [drinkBundle] reply) ∧
    ∃ reply, plainWriting.answerWithClaimsFromBundlesDetailed drinkPlan [] drinkResponse (.error "") = some reply ∧
      ¬plainWriting.RestsOnSelected drinkPlan [] reply := by
  refine ⟨⟨drinkReply,drink_answered,fun rests => ?_⟩,⟨_,rfl,fun rests => ?_⟩⟩
  · obtain ⟨_,_,_,bundle,inside,_,from_⟩ := rests.claims _ List.mem_cons_self
    obtain ⟨item,⟨listed,chosen,_⟩,named⟩ := from_.memories "m2" (by decide)
    rw [List.mem_singleton.mp inside] at listed
    rcases List.mem_cons.mp listed with rfl | listed
    · revert named
      decide +kernel
    · rw [List.mem_singleton.mp listed] at chosen
      exact chosen rfl
  · obtain ⟨_,_,_,bundle,none,_⟩ := rests.lines ⟨some "u1",notFoundText drinkUnit⟩ List.mem_cons_self
    exact absurd none List.not_mem_nil

end Suixinji.Ask
