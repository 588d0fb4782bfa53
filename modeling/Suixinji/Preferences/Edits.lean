import Suixinji.Relational.Checked
import Suixinji.Preferences.Card

/-! What a message, a request to forget and the rules make of a card
(memory/preference_cards.py), on the card as it was read. -/
namespace Suixinji.Preferences
open Relational Checked Memories
open TaskCards (orElse)
open Text (mentionsAny)

/-- The settings: whether the extractor works by rules, and `PREFERENCE_CARD_HARD_LIMIT`. -/
structure Settings where
  rules : Bool
  limit : Nat

variable (t : Texts) (settings : Settings)

def Detail.closed (d : Detail) (status : DetailStatus) : Detail := { d with status }

inductive PlanAction where
  | append
  | update
  | addSource
  | pending
  deriving DecidableEq

def PlanAction.text : PlanAction → String
  | .append => "append"
  | .update => "update"
  | .addSource => "add_source"
  | .pending => "pending"

/-- `CardPlan`. -/
structure CardPlan where
  action : PlanAction := .append
  detailId : Option DetailId := none
  reason : String := ""
  deriving DecidableEq

/-- A message whose preference has been prepared, and the plan that was given with it. -/
structure Message where
  note : Note
  detail : DetailInput
  overridePlan : Option CardPlan := none
  deriving DecidableEq

def Message.source (m : Message) : Source := Preferences.source m.note m.detail

/-- `decide`, with the answer of the model. -/
def Texts.decide (detail : DetailInput) (card : Option Card) (answer : CardPlan) : CardPlan :=
  match card with
  | none => {}
  | some card =>
    if !settings.rules then answer
    else match card.activeDetails.filter (fun d =>
        t.sameDetailText d.description = t.sameDetailText detail.description && d.condition = detail.condition) with
      | [old] =>
        if old.attitude = detail.attitude then { action := .addSource,detailId := some old.id }
        else if mentionsAny detail.description ["现在","不再","改为","说错","其实"] then { action := .update,detailId := some old.id }
        else {}
      | _ => {}

/-- Whether a message is older than the last of some times. -/
def Texts.older (said : Option String) (times : List String) : Except Error Bool :=
  match said.filter (· ≠ ""),times with
  | none,_ | some _,[] => .ok false
  | some said,times => do
    let stamp ← demand (t.fromisoformat said) (.valueError "Invalid isoformat string")
    let stamps ← times.mapM (fun time => demand (t.fromisoformat time) (.valueError "Invalid isoformat string"))
    require (∀ other ∈ stamps, other.zoned = stamp.zoned) (.valueError "can't compare offset-naive and offset-aware datetimes")
    return stamps.any (fun other => stamp.moment < other.moment)

def Texts.settle (m : Message) (old : Option Detail) (plan : CardPlan) : Except Error CardPlan :=
  match old with
  | none => .ok (if plan.action = .update || plan.action = .addSource
      then { action := .pending,reason := "无法在对应卡片中找到要修改的具体偏好" } else plan)
  | some old =>
    if plan.action = .update then do
      let older ← t.older m.source.messageTime (old.sources.filterMap (fun s => s.messageTime.filter (· ≠ "")))
      return if older then { action := .append,reason := "historical_source" }
        else if m.detail.attitude = .unknown then { action := .append,reason := "uncertain_attitude" }
        else plan
    else .ok plan

/-- The card that a message is applied to: of a memory that is forgotten or deleted no detail counts. -/
def Message.opening (m : Message) (current : Option Row) : Card :=
  match current with
  | none => { subject := m.detail.subject,preferenceObject := m.detail.preferenceObject,ownerId := m.note.owner }
  | some row =>
    let card := row.scope.card
    if row.status = .forgotten || row.status = .deleted then
      { card with details := card.details.map (·.closed .forgotten) } else card

def Message.entry (m : Message) (historical : Bool) : Detail where
  id := .entry m.source.id m.detail
  attitude := m.detail.attitude
  condition := m.detail.condition
  description := m.detail.description
  sources := [m.source]
  status := if historical then .history else .active
  isGeneral := m.detail.isGeneral
  cited := List.cons_ne_nil _ _

def Detail.supported (d : Detail) (s : Source) : Detail :=
  { d with sources := d.sources ++ [s],cited := List.append_ne_nil_of_right_ne_nil _ (List.cons_ne_nil _ _) }

/-- What a round of `apply_preference` comes to. -/
inductive Round where
  | discarded
  | unclear (reason : String)
  | full
  | present
  | writes (card : Card) (action : PlanAction)

def Card.added (card : Card) (entry : Detail) : Card :=
  if card.details.any (·.id = entry.id) then card
  else { card with details := card.details ++ [entry],changes := card.changes + 1 }

def Card.related (card : Card) (relations : List CardRelation) : Card :=
  { card with
    relations
    relatedIds := (relations.filter (fun r => r.relation = .equivalent || r.relation = .related)).map CardRelation.cardId }

def CardPlan.named (plan : CardPlan) (d : Detail) : Bool := d.status = .active && plan.detailId = some d.id

def Message.carry (m : Message) (card : Card) (named : Detail → Bool) (plan : CardPlan) (relations : List CardRelation) :
    Except Error Round :=
  let historical := plan.reason = "historical_source"
  match plan.action with
  | .pending => .ok (.unclear (orElse (some plan.reason) "无法确定更新范围"))
  | .addSource => do
    let old ← demand (card.details.find? named) (.valueError "detail")
    require (old.attitude = m.detail.attitude ∧ old.condition = m.detail.condition)
      (.valueError "补充来源不能忽略不同条件或相反态度")
    return if old.sources.any (·.id = m.source.id) then .present
      else .writes ({ card with details := amendFirst named (·.supported m.source) card.details }.related relations) plan.action
  | .update =>
    let outdated := { card with details := amendFirst named (·.closed .history) card.details }
    .ok (.writes ((outdated.added (m.entry historical)).related relations) plan.action)
  | .append =>
    .ok (if ¬historical ∧ settings.limit ≤ card.activeDetails.length then .full
      else .writes ((card.added (m.entry historical)).related relations) plan.action)

/-- A round of `apply_preference`: on what `find_card` found, the answer of the model and the
relations that `classify_relations` gave. -/
def integrate (m : Message) (current : Option Row) (answer : CardPlan) (relations : List CardRelation) :
    Except Error Round :=
  let card := m.opening current
  let plan := m.overridePlan.getD (t.decide settings m.detail (current.map (fun _ => card)) answer)
  if card.details.any (fun d => d.status = .forgotten && d.sources.any (·.id = m.source.id)) then .ok .discarded
  else do
    let settled ← t.settle m (card.details.find? plan.named) plan
    m.carry settings card plan.named settled relations

/-- A request to forget, as it was prepared: whether it is about all, and the details that were chosen. -/
structure Forgetting where
  note : Note
  detail : DetailInput
  allScope : Bool
  selectedIds : Option (List DetailId) := none
  deriving DecidableEq

/-- The active details that the words of the request are about. -/
def Forgetting.choices (f : Forgetting) (card : Card) : List Detail :=
  let choices := card.activeDetails.filter (fun d => f.allScope ||
    (d.attitude = f.detail.attitude && (f.detail.condition = "" || d.condition = f.detail.condition)))
  let general := t.isGeneral f.detail.isGeneral f.detail.condition f.detail.description f.detail.preferenceObject f.detail.subject
  let specific := choices.filter (fun d => t.sameDetailText d.description = t.sameDetailText f.detail.description)
  if f.allScope || general || specific.isEmpty then choices else specific

def Forgetting.chosen (f : Forgetting) (card : Card) : Except Error (List Detail) := do
  let choices := f.choices t card
  let chosen ← (match f.selectedIds with
    | none => .ok choices
    | some ids => do
      require (∀ id ∈ ids, id ∈ choices.map Detail.id) (.valueError "忘记目标不属于本次请求范围")
      return choices.filter (·.id ∈ ids))
  return if 1 < chosen.length && !f.allScope && f.selectedIds.isNone then [] else chosen

def Texts.goesWith (chosen : List Detail) (d : Detail) : Bool :=
  chosen.any (fun c => c.id = d.id || (t.sameDetailText c.description = t.sameDetailText d.description && c.condition = d.condition))

def Card.forget (card : Card) (chosen : List Detail) : Card × List Source :=
  let gone := t.goesWith chosen
  ({ card with
      details := card.details.map (fun d => if gone d then d.closed .forgotten else d)
      changes := card.changes + 1 },
    (card.details.filter gone).flatMap Detail.sources)

def Detail.without (ids : List SourceId) (d : Detail) : Detail :=
  if remains : d.sources.filter (·.id ∉ ids) ≠ [] then { d with sources := d.sources.filter (·.id ∉ ids),cited := remains }
  else d.closed .forgotten

/-- What is left to do of a request when its own card has been written. -/
structure Spreading where
  note : Note
  root : MemoryId
  emptied : Bool
  ids : List SourceId
  deriving DecidableEq

/-- Another card, when it cites a forgotten source or names a card that has nothing left. -/
def Spreading.spread (f : Spreading) (card : Card) : Option Card :=
  let unlinks := f.emptied && f.root ∈ card.relatedIds
  let cites := fun d : Detail => d.sources.any (·.id ∈ f.ids)
  if unlinks || card.details.any cites then
    some { card with
      relatedIds := if unlinks then card.relatedIds.filter (· ≠ f.root) else card.relatedIds
      relations := if unlinks then card.relations.filter (·.cardId ≠ f.root) else card.relations
      details := card.details.map (fun d => if cites d then d.without f.ids else d) }
  else none

def Detail.citing (d : Detail) (sources : List Source) : Detail :=
  if cited : sources ≠ [] then { d with sources := gathered sources,cited := gathered_cited cited } else d

/-- The first of some details takes the sources of all, and the others are merged into it. -/
def Card.deduplicated (p : Detail → Bool) (ids : List DetailId) (card : Card) : Card :=
  match ids with
  | [] => card
  | keep::others =>
    let sources := (ids.filterMap (card.lookup p)).flatMap Detail.sources
    let kept := card.amend p (·.citing sources) [keep]
    kept.amend p (fun d => { d with status := .merged,mergedInto := some (.detail keep) }) others

/-- The details that say the same, by rules. -/
def Card.groups (card : Card) : List (List DetailId) :=
  let identity := fun d : Detail => (t.sameDetailText d.description,d.condition,d.attitude)
  ((card.activeDetails.map identity).eraseDups.map (fun same =>
    (card.activeDetails.filter (fun d => identity d = same)).map Detail.id)).filter (fun group => 1 < group.length)

def mergeGroup (before : Card) (state : Card × List DetailId) (group : List DetailId) : Except Error (Card × List DetailId) := do
  let active := fun d : Detail => (d.status = .active : Bool)
  require (∀ id ∈ group, (before.lookup active id).isSome ∧ id ∉ state.2) (.valueError "整理返回了未知或重复的细节ID")
  let members := group.filterMap (before.lookup active)
  require (∀ d ∈ members, ∀ e ∈ members, d.attitude = e.attitude ∧ d.condition = e.condition)
    (.valueError "整理试图合并不同条件或态度")
  return (state.1.deduplicated active group,state.2 ++ group)

/-- The rules of `run_consolidation` on a card, with the relations when they are due. -/
def tidied (card : Card) (relations : Option (List CardRelation)) (now : Time) : Except Error Card := do
  let (merged,_) ← (card.groups t).foldlM (mergeGroup card) (card,[])
  let related := relations.elim merged merged.related
  return { related with lastConsolidatedChanges := related.changes,lastConsolidatedAt := some now }

/-- The card is about the same, of the same owner and merged into the same card as before. -/
structure Card.Follows (c c' : Card) : Prop where
  subject : c'.subject = c.subject
  preferenceObject : c'.preferenceObject = c.preferenceObject
  ownerId : c'.ownerId = c.ownerId
  mergedInto : c'.mergedInto = c.mergedInto
  changes : c.changes ≤ c'.changes

variable {t settings} {c c' c'' card : Card}

namespace Card.Follows

theorem refl (c : Card) : c.Follows c := ⟨rfl,rfl,rfl,rfl,le_rfl⟩

theorem trans (first : c.Follows c') (second : c'.Follows c'') : c.Follows c'' where
  subject := second.subject.trans first.subject
  preferenceObject := second.preferenceObject.trans first.preferenceObject
  ownerId := second.ownerId.trans first.ownerId
  mergedInto := second.mergedInto.trans first.mergedInto
  changes := first.changes.trans second.changes

theorem related (relations : List CardRelation) : c.Follows (c.related relations) := ⟨rfl,rfl,rfl,rfl,le_rfl⟩

theorem details (ds : List Detail) : c.Follows { c with details := ds } := ⟨rfl,rfl,rfl,rfl,le_rfl⟩

theorem added (entry : Detail) : c.Follows (c.added entry) := by
  unfold Card.added
  split
  · exact .refl c
  · exact ⟨rfl,rfl,rfl,rfl,Nat.le_succ _⟩

theorem forget (chosen : List Detail) : c.Follows (c.forget t chosen).1 := ⟨rfl,rfl,rfl,rfl,Nat.le_succ _⟩

theorem spread {f : Spreading} (spreads : f.spread c = some c') : c.Follows c' := by
  simp only [Spreading.spread] at spreads
  split at spreads
  · cases spreads
    exact ⟨rfl,rfl,rfl,rfl,le_rfl⟩
  · cases spreads

theorem deduplicated (p : Detail → Bool) (ids : List DetailId) : c.Follows (c.deduplicated p ids) := by
  cases ids with
  | nil => exact .refl c
  | cons _ _ => exact ⟨rfl,rfl,rfl,rfl,le_rfl⟩

theorem tidied {relations : Option (List CardRelation)} {now : Time} (ok : tidied t c relations now = .ok c') : c.Follows c' := by
  obtain ⟨⟨merged,claimed⟩,folded,last⟩ := bind_ok.mp ok
  cases last
  have follows : c.Follows merged := by
    refine foldlM_invariant (fun state => c.Follows state.1) (fun group _ state next before step => ?_) folded (.refl c)
    obtain ⟨_,_,step⟩ := bind_ok.mp step
    obtain ⟨_,_,step⟩ := bind_ok.mp step
    cases step
    exact before.trans (.deduplicated _ _)
  refine follows.trans ?_
  cases relations with
  | none => exact ⟨rfl,rfl,rfl,rfl,le_rfl⟩
  | some relations => exact ⟨rfl,rfl,rfl,rfl,le_rfl⟩

end Card.Follows

inductive Message.Writes (m : Message) (settings : Settings) (card : Card) : Card → Prop
  | supported {named : Detail → Bool} {old : Detail} (relations : List CardRelation) (active : ∀ d, named d → d.status = .active)
      (single : ∀ d e, named d → named e → d.id = e.id)
      (found : card.details.find? named = some old) (same : old.attitude = m.detail.attitude ∧ old.condition = m.detail.condition) :
      Writes m settings card ({ card with details := amendFirst named (·.supported m.source) card.details }.related relations)
  | updated (historical : Bool) {named : Detail → Bool} {old : Detail} (relations : List CardRelation) (active : ∀ d, named d → d.status = .active)
      (single : ∀ d e, named d → named e → d.id = e.id)
      (found : card.details.find? named = some old) :
      Writes m settings card (({ card with details := amendFirst named (·.closed .history) card.details }.added (m.entry historical)).related
        relations)
  | appended (historical : Bool) (relations : List CardRelation)
      (room : historical = false → card.activeDetails.length < settings.limit) :
      Writes m settings card ((card.added (m.entry historical)).related relations)

variable {m : Message} {current : Option Row} {answer : CardPlan} {relations : List CardRelation} {action : PlanAction}

theorem settle_update {old : Option Detail} {plan plan' : CardPlan} (ok : t.settle m old plan = .ok plan')
    (updates : plan'.action = .update) : old.isSome := by
  cases old with
  | some old => rfl
  | none =>
    simp only [Texts.settle,Except.ok.injEq] at ok
    rw [← ok] at updates
    split at updates <;> simp_all

theorem integrate_writes (ok : integrate t settings m current answer relations = .ok (.writes card action)) :
    m.Writes settings (m.opening current) card ∧
      ∀ d ∈ (m.opening current).details, d.status = .forgotten → ∀ s ∈ d.sources, s.id ≠ m.source.id := by
  simp only [integrate] at ok
  split at ok
  · cases ok
  · rename_i kept
    obtain ⟨plan,settled,ok⟩ := bind_ok.mp ok
    refine ⟨?_,fun d member forgotten s cited same => kept ?_⟩
    · generalize m.overridePlan.getD _ = first at settled ok
      have active : ∀ d, first.named d → d.status = .active := fun d named => by
        simpa using (Bool.and_eq_true_iff.mp named).1
      have single : ∀ d e, first.named d → first.named e → d.id = e.id := fun d e named named' => by
        have one : first.detailId = some d.id := by simpa using (Bool.and_eq_true_iff.mp named).2
        have other : first.detailId = some e.id := by simpa using (Bool.and_eq_true_iff.mp named').2
        exact Option.some.inj (one.symm.trans other)
      unfold Message.carry at ok
      split at ok
      · cases ok
      · obtain ⟨old,found,ok⟩ := bind_ok.mp ok
        obtain ⟨_,same,ok⟩ := bind_ok.mp ok
        simp only [pure,Except.pure,Except.ok.injEq] at ok
        split at ok <;> cases ok
        exact .supported relations active single (demand_ok.mp found) (require_ok.mp same)
      · rename_i updates
        cases ok
        obtain ⟨old,found⟩ := Option.isSome_iff_exists.mp (settle_update settled updates)
        exact .updated _ relations active single found
      · simp only [Except.ok.injEq] at ok
        split at ok <;> cases ok
        rename_i room
        refine .appended _ relations (fun latest => ?_)
        have other := of_decide_eq_false latest
        simpa [other] using room
    · simp only [List.any_eq_true,Bool.and_eq_true,decide_eq_true_eq]
      exact ⟨d,member,forgotten,s,cited,same⟩

theorem Message.Writes.follows (writes : m.Writes settings card c') : card.Follows c' := by
  cases writes with
  | supported relations _ _ _ _ => exact (Card.Follows.details _).trans (.related _)
  | updated historical relations _ _ _ => exact ((Card.Follows.details _).trans (.added _)).trans (.related _)
  | appended historical relations _ => exact (Card.Follows.added _).trans (.related _)

end Suixinji.Preferences
