import Suixinji.Preferences.Edits
import Mathlib.Data.List.Sort
import Mathlib.Data.String.Basic

/-! The review of a card against its evidence (memory/preference_consolidation.py): the plan
of the model, what it makes of the card under review and of the card that it is merged
into, and the links of other cards that follow it. -/
namespace Suixinji.Preferences
open Relational Checked Memories
open Text (contains)

/-! ### Plans -/

inductive ActionKind where
  | deduplicate
  | correct
  | change
  | unsupported
  | pending
  | mergeCards
  deriving DecidableEq

structure Replacement where
  attitude : Attitude
  condition : String
  description : String
  isGeneral : Bool := false
  deriving DecidableEq

structure Action where
  action : ActionKind
  cardId : MemoryId
  detailIds : List DetailId := []
  targetCardId : Option MemoryId := none
  sourceIds : List SourceId
  reason : String
  replacement : Option Replacement := none
  cited : sourceIds ≠ []
  deriving DecidableEq

inductive Verdict where
  | supported
  | unsupported
  | uncertain
  deriving DecidableEq

structure Assessment where
  detailId : DetailId
  verdict : Verdict
  sourceIds : List SourceId
  quote : String := ""
  reason : String
  cited : sourceIds ≠ []
  deriving DecidableEq

/-- `Review`. -/
structure Review where
  relations : List CardRelation := []
  assessments : List Assessment := []
  actions : List Action := []

def Review.merges (review : Review) : Bool := review.actions.any (·.action = .mergeCards)

/-- A source as it was read, with the text of its note. -/
structure Evidence where
  source : Source
  noteText : String
  readRevision : String
  contextOnly : Bool := false
  deriving DecidableEq

def Evidence.id (e : Evidence) : SourceId := e.source.id

/-- What could be read of the evidence. -/
abbrev Available := Table Evidence.id

/-- A card as it was read, and what is to be written in its place. -/
structure Draft where
  row : Row
  card : Card

def Draft.id (d : Draft) : MemoryId := d.row.id

/-- A dict of drafts, by the ids of their cards. -/
abbrev Drafts := Table Draft.id

/-- What was read of the cards, by id. -/
abbrev Records := Table (Memory.id (σ := Scope))

/-! ### Checks -/

/-- `reviewable_details`. -/
def Detail.reviewable (d : Detail) : Bool := (d.status = .active || d.status = .pendingReview) && !d.evidenceUnavailable

def Available.covers (available : Available) (ids : List SourceId) : Prop := ∀ id ∈ ids, (available.find? id).isSome

instance (available : Available) (ids : List SourceId) : Decidable (available.covers ids) :=
  inferInstanceAs (Decidable (∀ id ∈ ids, (available.find? id).isSome))

/-- `checked_relations`. -/
def checkedRelations (relations : List CardRelation) (ids : List MemoryId) : Except Error Unit :=
  let named := relations.map CardRelation.cardId
  require (named.Nodup ∧ (∀ id ∈ ids, id ∈ named) ∧ ∀ id ∈ named, id ∈ ids)
    (.valueError "关联判断必须完整覆盖候选且不能引用未知卡片")

def checkAssessment (card : Card) (available : Available) (a : Assessment) : Except Error Unit := do
  require (available.covers a.sourceIds) (.valueError "态度审核引用了失效来源")
  let d ← demand (card.lookup Detail.reviewable a.detailId) (.valueError "detail")
  require (∃ s ∈ d.sources, s.id ∈ a.sourceIds) (.valueError "态度审核缺少该细节自身来源")
  whenever (a.verdict = .supported) (require (a.quote ≠ "" ∧
      ∃ id ∈ a.sourceIds, (available.find? id).any (fun e => contains e.source.originalText a.quote))
    (.valueError "已确认态度缺少可核验的原文摘录"))

def Assessment.action (a : Assessment) (root : MemoryId) : Option Action :=
  if a.verdict = .supported then none
  else some {
    action := if a.verdict = .unsupported then .unsupported else .pending
    cardId := root,detailIds := [a.detailId],sourceIds := a.sourceIds,reason := a.reason,cited := a.cited }

def Review.carried (review : Review) (root : MemoryId) : List Action :=
  let doubted := (review.assessments.filter (·.verdict ≠ .supported)).map Assessment.detailId
  review.actions.filter (fun a => !(!doubted.isEmpty && a.action = .mergeCards) && !a.detailIds.any (· ∈ doubted)) ++
    review.assessments.filterMap (·.action root)

/-! ### Actions -/

/-- What has become of the card under review, and of the one it is merged into. -/
structure Progress where
  root : Card
  target : Option Draft := none
  claimed : List DetailId := []
  pending : List Action := []

variable (t : Texts) (dump : Action → String)

def Texts.time (s : Source) : Except Error (Option Time) :=
  match s.messageTime.filter (· ≠ "") with
  | none => .ok none
  | some said => do return some (← demand (t.timestamp said) (.valueError "Invalid isoformat string"))

/-- The new evidence is not older than the evidence of the detail. -/
def Texts.checkTimes (old : Detail) (sources : List Source) : Except Error Unit := do
  let oldTimes ← old.sources.mapM t.time
  let newTimes ← (sources.filter (fun s => !old.sources.any (·.id = s.id))).mapM t.time
  require ((∀ time ∈ oldTimes ++ newTimes, time.isSome) ∧
      ∃ new ∈ newTimes.filterMap id, ∀ old ∈ oldTimes.filterMap id, old ≤ new)
    (.valueError "时间缺失或新证据更早，不能覆盖当前状态")

def Action.corrected (a : Action) (value : Replacement) (old : Detail) (last : Option Detail) (sources : List Source)
    (cited : sources ≠ []) : Detail where
  id := last.elim (.review old.id (dump a)) Detail.id
  attitude := value.attitude
  condition := value.condition
  description := value.description
  sources := last.elim sources (fun d => gathered (d.sources ++ sources))
  status := .active
  isGeneral := some value.isGeneral
  cited := by
    cases last with
    | none => exact cited
    | some d => exact gathered_cited (List.append_ne_nil_of_right_ne_nil _ cited)

def Card.replaced (card : Card) (ids : List DetailId) (last : Option Detail) (new : Detail) : Card :=
  let outdated := card.amend Detail.reviewable (·.closed .history) ids
  { outdated with details :=
      (if last.isSome then outdated.details.filter (·.id ≠ new.id) else outdated.details) ++ [new] }

/-- `correct` and `change`. -/
def Action.correct (a : Action) (available : Available) (card : Card) (members : List Detail) : Except Error Card := do
  let value ← demand a.replacement (.valueError "更正或变化必须给出新内容")
  require (a.action = .change → ∀ d ∈ members, d.condition = value.condition) (.valueError "状态变化不能跨条件覆盖")
  let old ← demand members.head? (.valueError "detail")
  let sources := a.sourceIds.filterMap (fun id => (available.find? id).map Evidence.source)
  t.checkTimes old sources
  require (members.length ≤ 2) (.valueError "更正目标不唯一")
  let last := if members.length = 2 then members.getLast? else none
  require (∀ d ∈ last, d.attitude = value.attitude ∧ d.condition = value.condition)
    (.valueError "保留的新状态必须与已存新项一致")
  if cited : sources ≠ [] then return card.replaced a.detailIds last (a.corrected dump value old last sources cited)
  else throw (.valueError "整理引用了不存在或已失效的来源")

/-- `unsupported` and `pending`. -/
def Action.doubt (a : Action) (review : Review) (card : Card) : Except Error Card := do
  require (a.action = .unsupported → ∀ x ∈ review.assessments, x.detailId ∈ a.detailIds → x.verdict = .unsupported)
    (.valueError "撤销错误偏好需要不支持态度的审核结论")
  let status := if a.action = .unsupported then DetailStatus.retracted else .pendingReview
  return card.amend Detail.reviewable (fun d => { d with status,reviewReason := some a.reason }) a.detailIds

def Card.activeSources (card : Card) : List SourceId := (card.activeDetails.flatMap Detail.sources).map Source.id

def Card.taking (card root : Card) : Card :=
  let moved := root.details.filter (fun d => !card.details.any (·.id = d.id))
  { card with
    details := card.details ++ moved
    aliases := ((card.aliases ++ root.aliases ++ [root.preferenceObject]).dedup).insertionSort (· ≤ ·)
    changes := card.changes + 1 }

/-- The card whose details have gone into another. -/
def Card.mergedWith (card : Card) (target : MemoryId) : Card :=
  { card with
    mergedInto := some target
    relatedIds := []
    relations := []
    details := card.details.map (fun d =>
      if d.status = .active then { d with status := .merged,mergedInto := some (.card target) } else d) }

/-- `merge_cards`. -/
def Action.mergeCards (a : Action) (limit alone : Nat) (relations : List CardRelation) (available : Available)
    (records : List Row) (root : Card) : Except Error (Card × Draft) := do
  require (alone = 1) (.valueError "跨卡片归并必须独立执行，下一轮再审核细节")
  let verdict ← demand (relations.find? (fun r => some r.cardId = a.targetCardId)) (.valueError "只有已确认同义的对象才能归并")
  require (verdict.relation = .equivalent) (.valueError "只有已确认同义的对象才能归并")
  let row ← demand (records.find? (·.id = verdict.cardId)) (.valueError "card")
  let other := row.scope.card
  require (other.subject = root.subject ∧ other.ownerId = root.ownerId) (.valueError "禁止跨主体或账号归并")
  require (available.covers root.activeSources ∧ available.covers other.activeSources) (.valueError "归并前必须核验双方的有效来源")
  require ((∃ id ∈ a.sourceIds, id ∈ root.activeSources) ∧ ∃ id ∈ a.sourceIds, id ∈ other.activeSources)
    (.valueError "归并需要双方原文依据")
  require ((other.taking root).activeDetails.length ≤ limit) (.valueError "归并超过卡片容量，保留原卡片")
  return (root.mergedWith row.id,⟨row,other.taking root⟩)

def carryOut (limit : Nat) (root : Row) (records : List Row) (review : Review) (available : Available) (p : Progress)
    (a : Action) : Except Error Progress := do
  require (a.cardId = root.id) (.valueError "整理操作只能修改本次审核的根卡片")
  require (available.covers a.sourceIds) (.valueError "整理引用了不存在或已失效的来源")
  require (a.detailIds.Nodup ∧ ∀ id ∈ a.detailIds, (p.root.lookup Detail.reviewable id).isSome ∧ id ∉ p.claimed)
    (.valueError "整理细节ID不存在或被重复修改")
  if a.action = .mergeCards then do
    let (card,draft) ← a.mergeCards limit (review.carried root.id).length review.relations available records p.root
    return { p with root := card,target := some draft }
  else do
    require (a.detailIds ≠ []) (.valueError "细节操作必须指明目标")
    let members := a.detailIds.filterMap (p.root.lookup Detail.reviewable)
    require (∃ d ∈ members, ∃ s ∈ d.sources, s.id ∈ a.sourceIds) (.valueError "操作缺少目标细节自身的来源证据")
    let claimed := p.claimed ++ a.detailIds
    match a.action with
    | .deduplicate => do
      require (2 ≤ members.length ∧ ∀ d ∈ members, ∀ e ∈ members, d.attitude = e.attitude ∧ d.condition = e.condition)
        (.valueError "不能合并不同条件或态度的细节")
      return { p with root := p.root.deduplicated Detail.reviewable a.detailIds,claimed }
    | .correct | .change => do
      return { p with root := ← a.correct t dump available p.root members,claimed }
    | .unsupported | .pending | .mergeCards => do
      return { p with root := ← a.doubt review p.root,claimed,pending := p.pending ++ [a] }

/-- `apply_plan`, for the card under review as one of the records that were read. -/
def applyPlan (limit : Nat) (root : Row) (records : List Row) (review : Review) (available : Available) : Except Error Progress := do
  checkedRelations review.relations ((records.filter (·.id ≠ root.id)).map Memory.id)
  let card := root.scope.card.related review.relations
  let assessed := review.assessments.map Assessment.detailId
  let reviewable := (card.details.filter Detail.reviewable).map Detail.id
  require (assessed.Nodup ∧ (∀ id ∈ assessed, id ∈ reviewable) ∧ ∀ id ∈ reviewable, id ∈ assessed)
    (.valueError "态度审核必须完整覆盖根卡片的每条有效细节")
  require (∀ a ∈ review.actions, available.covers a.sourceIds) (.valueError "整理引用了不存在或已失效的来源")
  review.assessments.forM (checkAssessment card available)
  (review.carried root.id).foldlM (carryOut t dump limit root records review available) { root := card }

/-! ### The cards of a review -/

/-- The card when some of its evidence can no longer be read. -/
def Card.withdrawn (card : Card) (unreadable : List SourceId) : Card :=
  { card with details := card.details.map (fun d =>
      if d.reviewable && d.sources.any (·.id ∈ unreadable) then
        { d with
          status := .pendingReview
          evidenceUnavailable := true
          reviewReason := some "原文缺失、已修改或已遗忘，停止使用此偏好断言" }
      else d) }

def redirects (drafts : Drafts) : List (MemoryId × MemoryId) :=
  drafts.rows.filterMap (fun d => d.card.mergedInto.map (fun target => (d.id,target)))

def Card.redirected (card : Card) (merged : List (MemoryId × MemoryId)) (own : MemoryId) : Card :=
  let follow := fun id => (merged.find? (·.1 = id)).elim id Prod.snd
  { card with
    relatedIds := ((card.relatedIds.map follow).dedup.filter (· ≠ own)).insertionSort (· ≤ ·)
    relations := (card.relations.map (fun r => { r with cardId := follow r.cardId })).filter (·.cardId ≠ own) }

/-- A card of the owner as it is read once more. If it names a merged card, then what was
read just now is written over, by what is made of the draft there is of it. -/
def redirect (ownerId : String) (merged : List (MemoryId × MemoryId)) (drafts : Drafts) (row : Row) : Drafts :=
  let card := ((drafts.find? row.id).map Draft.card).getD row.scope.card
  if row.scope.card.ownerId = ownerId ∧ ∃ id ∈ card.relatedIds, merged.any (·.1 = id) then
    drafts.upsert ⟨row,card.redirected merged row.id⟩ else drafts

theorem drafts_keyed (records : Records) : ((records.rows.map (fun row => Draft.mk row row.scope.card)).map Draft.id).Nodup := by
  rw [List.map_map]
  exact records.keyed

def Drafts.unchanged (records : Records) : Drafts := ⟨records.rows.map (fun row => ⟨row,row.scope.card⟩),drafts_keyed records⟩

/-- A review as `consolidate` holds it: the card and the cards it was read with, the evidence,
the plan, and the cards that were read again for their links. -/
structure Consolidation where
  root : Row
  records : Records := .empty
  available : Available := .empty
  unreadable : List SourceId := []
  review : Review := {}
  reread : Records := .empty

def Card.reviewed (card : Card) (now : Time) : Card :=
  { card with lastConsolidatedChanges := card.changes,lastConsolidatedAt := some now }

/-- What becomes of the card under review. -/
def Consolidation.progress (limit : Nat) (c : Consolidation) : Except Error Progress :=
  let card := c.root.scope.card
  if card.details.any (fun d => d.reviewable && d.sources.any (·.id ∈ c.unreadable)) then .ok { root := card.withdrawn c.unreadable }
  else applyPlan t dump limit c.root (c.records.upsert c.root).rows c.review c.available

/-- The drafts of a review before the links are looked at. -/
def Consolidation.outcome (c : Consolidation) (p : Progress) (now : Time) : Drafts :=
  let unchanged := Drafts.unchanged (c.records.upsert c.root)
  (p.target.elim unchanged unchanged.upsert).upsert ⟨c.root,p.root.reviewed now⟩

/-- What `consolidate` writes. -/
def Consolidation.drafts (limit : Nat) (c : Consolidation) (now : Time) : Except Error Drafts := do
  let p ← c.progress t dump limit
  let drafts := c.outcome p now
  return c.reread.rows.foldl (redirect c.root.scope.card.ownerId (redirects drafts)) drafts

/-! ### What an action does -/

section
variable {t dump} {limit : Nat} {root : Row} {records : List Row} {review : Review} {available : Available} {p p' : Progress}
  {a : Action} {card : Card} {q : Detail → Bool} {ids : List DetailId} {d : Detail}

theorem members_found (found : ∀ id ∈ ids, (card.lookup q id).isSome) :
    (ids.filterMap (card.lookup q)).map Detail.id = ids ∧ ∀ d ∈ ids.filterMap (card.lookup q), card.lookup q d.id = some d := by
  induction ids with
  | nil => simp
  | cons id ids ih =>
    obtain ⟨d,here⟩ := Option.isSome_iff_exists.mp (found id List.mem_cons_self)
    obtain ⟨named,rest⟩ := ih (fun id member => found id (List.mem_cons_of_mem _ member))
    have same := (lookup_some here).2.2
    rw [List.filterMap_cons_some here]
    refine ⟨by rw [List.map_cons,same,named],fun e member => ?_⟩
    rcases List.mem_cons.mp member with rfl | later
    · rwa [same]
    · exact rest e later

/-- The ids that an action names are of different details that can be reviewed, and no action
before it has named them. -/
structure Action.Names (a : Action) (p : Progress) : Prop where
  once : a.detailIds.Nodup
  something : a.detailIds ≠ []
  found : ∀ id ∈ a.detailIds, (p.root.lookup Detail.reviewable id).isSome
  unclaimed : ∀ id ∈ a.detailIds, id ∉ p.claimed

def Progress.members (p : Progress) (a : Action) : List Detail := a.detailIds.filterMap (p.root.lookup Detail.reviewable)

/-- What becomes of a detail that an assessment does not support. -/
def Action.doubted (a : Action) (d : Detail) : Detail :=
  { d with status := if a.action = .unsupported then .retracted else .pendingReview,reviewReason := some a.reason }

/-- What an action on details makes of the card under review. -/
inductive Carried (dump : Action → String) (available : Available) (p : Progress) (a : Action) : Progress → Prop
  | deduplicated (names : a.Names p) (kind : a.action = .deduplicate) (several : 2 ≤ (p.members a).length)
      (alike : ∀ d ∈ p.members a, ∀ e ∈ p.members a, d.attitude = e.attitude ∧ d.condition = e.condition) :
      Carried dump available p a
        { p with root := p.root.deduplicated Detail.reviewable a.detailIds,claimed := p.claimed ++ a.detailIds }
  | corrected (names : a.Names p) (corrects : a.action = .correct ∨ a.action = .change) (value : Replacement) (old : Detail)
      (last : Option Detail) (sources : List Source) (cited : sources ≠ []) (replaces : a.replacement = some value)
      (members : p.members a = old::last.toList)
      (agrees : ∀ d ∈ last, d.attitude = value.attitude ∧ d.condition = value.condition)
      (read : ∀ s ∈ sources, ∃ e ∈ available, e.source = s) :
      Carried dump available p a { p with
        root := p.root.replaced a.detailIds last (a.corrected dump value old last sources cited)
        claimed := p.claimed ++ a.detailIds }
  | doubted (names : a.Names p) :
      Carried dump available p a { p with
        root := p.root.amend Detail.reviewable a.doubted a.detailIds
        claimed := p.claimed ++ a.detailIds,pending := p.pending ++ [a] }

theorem correct_ok {members : List Detail} {after : Card} (ok : a.correct t dump available card members = .ok after) :
    ∃ value old last sources, ∃ cited : sources ≠ [], a.replacement = some value ∧ members = old::last.toList ∧
      (∀ d ∈ last, d.attitude = value.attitude ∧ d.condition = value.condition) ∧
      (∀ s ∈ sources, ∃ e ∈ available, e.source = s) ∧
      after = card.replaced a.detailIds last (a.corrected dump value old last sources cited) := by
  obtain ⟨value,replaces,ok⟩ := bind_ok.mp ok
  obtain ⟨_,_,ok⟩ := bind_ok.mp ok
  obtain ⟨old,head,ok⟩ := bind_ok.mp ok
  obtain ⟨_,_,ok⟩ := bind_ok.mp ok
  obtain ⟨_,short,ok⟩ := bind_ok.mp ok
  obtain ⟨_,agrees,ok⟩ := bind_ok.mp ok
  rw [require_ok] at short agrees
  rw [demand_ok] at head replaces
  split at ok
  · rename_i cited
    cases ok
    refine ⟨value,old,_,_,cited,replaces,?_,agrees,fun s member => ?_,rfl⟩
    · rcases members with _ | ⟨first,_ | ⟨second,_ | ⟨third,rest⟩⟩⟩
      · cases head
      · cases head
        rfl
      · cases head
        rfl
      · simp at short
    · obtain ⟨id,_,read⟩ := List.mem_filterMap.mp member
      obtain ⟨e,found,rfl⟩ := Option.map_eq_some_iff.mp read
      exact ⟨e,(Table.find?_eq_some.mp found).1,rfl⟩
  · cases ok

theorem doubt_ok {after : Card} (ok : a.doubt review card = .ok after) : after = card.amend Detail.reviewable a.doubted a.detailIds := by
  obtain ⟨_,_,ok⟩ := bind_ok.mp ok
  cases ok
  rfl

theorem carryOut_ok (ok : carryOut t dump limit root records review available p a = .ok p') (plain : a.action ≠ .mergeCards) :
    Carried dump available p a p' := by
  obtain ⟨_,_,ok⟩ := bind_ok.mp ok
  obtain ⟨_,_,ok⟩ := bind_ok.mp ok
  obtain ⟨_,named,ok⟩ := bind_ok.mp ok
  rw [if_neg plain] at ok
  obtain ⟨_,something,ok⟩ := bind_ok.mp ok
  obtain ⟨_,_,ok⟩ := bind_ok.mp ok
  rw [require_ok] at named something
  have names : a.Names p := ⟨named.1,something,fun id member => (named.2 id member).1,fun id member => (named.2 id member).2⟩
  split at ok
  · rename_i action
    obtain ⟨_,alike,ok⟩ := bind_ok.mp ok
    cases ok
    rw [require_ok] at alike
    exact .deduplicated names action alike.1 alike.2
  · rename_i action
    obtain ⟨after,corrected,ok⟩ := bind_ok.mp ok
    cases ok
    obtain ⟨value,old,last,sources,cited,replaces,members,agrees,read,rfl⟩ := correct_ok corrected
    exact .corrected names (.inl action) value old last sources cited replaces members agrees read
  · rename_i action
    obtain ⟨after,corrected,ok⟩ := bind_ok.mp ok
    cases ok
    obtain ⟨value,old,last,sources,cited,replaces,members,agrees,read,rfl⟩ := correct_ok corrected
    exact .corrected names (.inr action) value old last sources cited replaces members agrees read
  all_goals
    obtain ⟨after,doubted,ok⟩ := bind_ok.mp ok
    cases ok
    obtain rfl := doubt_ok doubted
    exact .doubted names

/-- The cards that a merge takes: both have active details whose evidence was read. -/
structure Mergeable (available : Available) (limit : Nat) (root other : Card) : Prop where
  subject : other.subject = root.subject
  ownerId : other.ownerId = root.ownerId
  active : root.activeSources ≠ [] ∧ other.activeSources ≠ []
  covered : available.covers root.activeSources ∧ available.covers other.activeSources
  room : (other.taking root).activeDetails.length ≤ limit

theorem mergeCards_ok {alone : Nat} {relations : List CardRelation} {card after : Card} {draft : Draft}
    (ok : a.mergeCards limit alone relations available records card = .ok (after,draft)) :
    alone = 1 ∧ ∃ row ∈ records, row.id ∈ relations.map CardRelation.cardId ∧ Mergeable available limit card row.scope.card ∧
      after = card.mergedWith row.id ∧ draft = ⟨row,row.scope.card.taking card⟩ := by
  obtain ⟨_,alone,ok⟩ := bind_ok.mp ok
  obtain ⟨verdict,listed,ok⟩ := bind_ok.mp ok
  obtain ⟨_,_,ok⟩ := bind_ok.mp ok
  obtain ⟨row,found,ok⟩ := bind_ok.mp ok
  obtain ⟨_,same,ok⟩ := bind_ok.mp ok
  obtain ⟨_,covered,ok⟩ := bind_ok.mp ok
  obtain ⟨_,cited,ok⟩ := bind_ok.mp ok
  obtain ⟨_,room,ok⟩ := bind_ok.mp ok
  cases ok
  simp only [require_ok,demand_ok] at alone listed found same covered cited room
  obtain ⟨⟨id,_,first⟩,⟨id',_,second⟩⟩ := cited
  have named : row.id = verdict.cardId := by simpa using List.find?_some found
  refine ⟨alone,row,List.mem_of_find?_eq_some found,?_,⟨same.1,same.2,⟨?_,?_⟩,covered,room⟩,rfl,rfl⟩
  · rw [named]
    exact List.mem_map_of_mem (List.mem_of_find?_eq_some listed)
  · exact List.ne_nil_of_mem first
  · exact List.ne_nil_of_mem second

/-- A plan that passes either merges the card into one of the others and does nothing else, or
carries out actions on the details of the card. -/
theorem applyPlan_ok (ok : applyPlan t dump limit root records review available = .ok p) :
    (∃ row ∈ records, row.id ≠ root.id ∧ Mergeable available limit (root.scope.card.related review.relations) row.scope.card ∧
      review.merges ∧ (∃ a, review.carried root.id = [a] ∧ a.action = .mergeCards) ∧
      p.root = (root.scope.card.related review.relations).mergedWith row.id ∧
      p.target = some ⟨row,row.scope.card.taking (root.scope.card.related review.relations)⟩) ∨
    ((∀ a ∈ review.carried root.id, a.action ≠ .mergeCards) ∧
      (review.carried root.id).foldlM (carryOut t dump limit root records review available)
        { root := root.scope.card.related review.relations } = .ok p) := by
  obtain ⟨_,checked,ok⟩ := bind_ok.mp ok
  obtain ⟨_,_,ok⟩ := bind_ok.mp ok
  obtain ⟨_,_,ok⟩ := bind_ok.mp ok
  obtain ⟨_,_,ok⟩ := bind_ok.mp ok
  by_cases plain : ∀ a ∈ review.carried root.id, a.action ≠ .mergeCards
  · exact .inr ⟨plain,ok⟩
  · refine .inl ?_
    simp only [not_forall,not_not] at plain
    obtain ⟨a,member,merges⟩ := plain
    have alone : (review.carried root.id).length = 1 := by
      obtain ⟨before,rest,split⟩ := List.append_of_mem member
      have parts := ok
      rw [split,List.foldlM_append] at parts
      obtain ⟨p,_,parts⟩ := bind_ok.mp parts
      rw [List.foldlM_cons] at parts
      obtain ⟨_,step,_⟩ := bind_ok.mp parts
      obtain ⟨_,_,step⟩ := bind_ok.mp step
      obtain ⟨_,_,step⟩ := bind_ok.mp step
      obtain ⟨_,_,step⟩ := bind_ok.mp step
      rw [if_pos merges] at step
      obtain ⟨⟨after,draft⟩,merged,_⟩ := bind_ok.mp step
      exact (mergeCards_ok merged).1
    obtain ⟨b,only⟩ := List.length_eq_one_iff.mp alone
    rw [only,List.mem_singleton] at member
    subst member
    rw [only,List.foldlM_cons] at ok
    obtain ⟨p',step,rest⟩ := bind_ok.mp ok
    cases rest
    obtain ⟨_,_,step⟩ := bind_ok.mp step
    obtain ⟨_,_,step⟩ := bind_ok.mp step
    obtain ⟨_,_,step⟩ := bind_ok.mp step
    rw [if_pos merges] at step
    obtain ⟨⟨after,draft⟩,merged,last⟩ := bind_ok.mp step
    cases last
    obtain ⟨_,row,listed,related,mergeable,rfl,rfl⟩ := mergeCards_ok merged
    refine ⟨row,listed,?_,mergeable,?_,⟨a,only,merges⟩,rfl,rfl⟩
    · have inside := (require_ok.mp checked).2.2 row.id related
      obtain ⟨row',among,same⟩ := List.mem_map.mp inside
      rw [← same]
      simpa using (List.mem_filter.mp among).2
    · have given : a ∈ review.carried root.id := by rw [only]; exact List.mem_singleton_self a
      rcases List.mem_append.mp given with planned | assessed
      · exact List.any_eq_true.mpr ⟨a,(List.mem_filter.mp planned).1,by simpa using merges⟩
      · obtain ⟨x,_,follows⟩ := List.mem_filterMap.mp assessed
        unfold Assessment.action at follows
        split at follows
        · cases follows
        · cases follows
          split at merges <;> cases merges

end

/-! ### The drafts of a review -/

def Card.Relinked (c c' : Card) : Prop := c' = { c with relatedIds := c'.relatedIds,relations := c'.relations }

theorem Card.Relinked.refl (c : Card) : c.Relinked c := rfl

theorem Card.Relinked.redirected (c : Card) (merged : List (MemoryId × MemoryId)) (own : MemoryId) :
    c.Relinked (c.redirected merged own) := rfl

theorem Card.Relinked.details {c c' : Card} (relinked : c.Relinked c') : c'.details = c.details := by
  rw [relinked]

theorem Card.Relinked.follows {c c' : Card} (relinked : c.Relinked c') : c.Follows c' := by
  rw [relinked]
  exact ⟨rfl,rfl,rfl,rfl,le_rfl⟩

section
variable {t dump} {limit : Nat} {owner : String} {merged : List (MemoryId × MemoryId)} {rows : List Row} {drafts : Drafts} {d : Draft}

/-- What a card read once more is redirected from. -/
def Drafts.base (drafts : Drafts) (row : Row) : Card := ((drafts.find? row.id).map Draft.card).getD row.scope.card

theorem mem_redirect {row : Row} (member : d ∈ redirect owner merged drafts row) :
    d ∈ drafts ∨ d.row = row ∧ (drafts.base row).Relinked d.card ∧ ∃ id ∈ (drafts.base row).relatedIds, merged.any (·.1 = id) := by
  simp only [redirect] at member
  split at member
  · rename_i names
    rcases Table.mem_upsert.mp member with rfl | ⟨before,_⟩
    · exact .inr ⟨rfl,.redirected _ _ _,names.2⟩
    · exact .inl before
  · exact .inl member

theorem find?_redirect {row : Row} {id : MemoryId} (other : id ≠ row.id) :
    (redirect owner merged drafts row).find? id = drafts.find? id := by
  simp only [redirect]
  split
  · rw [Table.find?_upsert]
    exact if_neg other
  · rfl

theorem find?_redirects {id : MemoryId} (other : ∀ row ∈ rows, row.id ≠ id) :
    (rows.foldl (redirect owner merged) drafts).find? id = drafts.find? id := by
  induction rows generalizing drafts with
  | nil => rfl
  | cons row rows ih =>
    rw [List.foldl_cons,ih (fun row member => other row (List.mem_cons_of_mem _ member)),
      find?_redirect (other row List.mem_cons_self).symm]

theorem mem_redirects (once : (rows.map Memory.id).Nodup) (member : d ∈ rows.foldl (redirect owner merged) drafts) :
    d ∈ drafts ∨ d.row ∈ rows ∧ (drafts.base d.row).Relinked d.card ∧
      ∃ id ∈ (drafts.base d.row).relatedIds, merged.any (·.1 = id) := by
  induction rows generalizing drafts with
  | nil => exact .inl member
  | cons row rows ih =>
    obtain ⟨absent,once⟩ := List.nodup_cons.mp once
    rcases ih once member with before | ⟨later,relinked,names⟩
    · rcases mem_redirect before with before | ⟨rfl,relinked,names⟩
      · exact .inl before
      · exact .inr ⟨List.mem_cons_self,relinked,names⟩
    · have other : d.row.id ≠ row.id := fun same => absent (List.mem_map.mpr ⟨d.row,later,same⟩)
      rw [Drafts.base,find?_redirect other] at relinked names
      exact .inr ⟨List.mem_cons_of_mem _ later,relinked,names⟩

theorem redirects_effective (once : (rows.map Memory.id).Nodup) (drafts : Drafts) : ∃ effective : List Row, effective.Sublist rows ∧
    effective.foldl (redirect owner merged) drafts = rows.foldl (redirect owner merged) drafts ∧
    ∀ row ∈ effective, ∃ d ∈ rows.foldl (redirect owner merged) drafts, d.row = row := by
  induction rows generalizing drafts with
  | nil => exact ⟨[],.slnil,rfl,by simp⟩
  | cons row rows ih =>
    obtain ⟨absent,once⟩ := List.nodup_cons.mp once
    obtain ⟨effective,sublist,same,present⟩ := ih once (redirect owner merged drafts row)
    by_cases idle : redirect owner merged drafts row = drafts
    · rw [idle] at same present
      exact ⟨effective,sublist.cons row,by rw [List.foldl_cons,idle]; exact same,by rw [List.foldl_cons,idle]; exact present⟩
    · refine ⟨row::effective,sublist.cons_cons row,same,fun r member => ?_⟩
      rcases List.mem_cons.mp member with rfl | later
      · have there : ∃ d, (redirect owner merged drafts r).find? r.id = some d ∧ d.row = r := by
          simp only [redirect] at idle ⊢
          split
          · exact ⟨_,by rw [Table.find?_upsert]; exact if_pos rfl,rfl⟩
          · rename_i names
            exact absurd (if_neg names) idle
        obtain ⟨d,found,rfl⟩ := there
        have kept : (rows.foldl (redirect owner merged) (redirect owner merged drafts d.row)).find? d.row.id =
            (redirect owner merged drafts d.row).find? d.row.id :=
          find?_redirects (fun row member same => absent (List.mem_map.mpr ⟨row,member,same⟩))
        rw [found] at kept
        exact ⟨d,(Table.find?_eq_some.mp kept).1,rfl⟩
      · exact present r later

variable {c : Consolidation} {p : Progress} {now : Time}

theorem drafts_ok (ok : c.drafts t dump limit now = .ok drafts) : ∃ p, c.progress t dump limit = .ok p ∧
    drafts = c.reread.rows.foldl (redirect c.root.scope.card.ownerId (redirects (c.outcome p now))) (c.outcome p now) := by
  obtain ⟨p,progress,last⟩ := bind_ok.mp ok
  cases last
  exact ⟨p,progress,rfl⟩

theorem find?_unchanged (records : Records) (id : MemoryId) :
    (Drafts.unchanged records).find? id = (records.find? id).map (fun row => ⟨row,row.scope.card⟩) := by
  simp only [Table.find?,Drafts.unchanged,List.find?_map]
  rfl

theorem find?_outcome (id : MemoryId) : (c.outcome p now).find? id =
    if id = c.root.id then some ⟨c.root,p.root.reviewed now⟩
    else if p.target.any (·.id = id) then p.target
    else (c.records.find? id).map (fun row => ⟨row,row.scope.card⟩) := by
  simp only [Consolidation.outcome]
  rw [Table.find?_upsert]
  by_cases root : id = c.root.id
  · exact (if_pos root).trans (if_pos root).symm
  · refine (if_neg root).trans (Eq.trans ?_ (if_neg root).symm)
    have unchanged : (Drafts.unchanged (c.records.upsert c.root)).find? id =
        (c.records.find? id).map (fun row => ⟨row,row.scope.card⟩) := by
      rw [find?_unchanged,Table.find?_upsert,if_neg root]
    cases target : p.target with
    | none => simpa using unchanged
    | some d =>
      simp only [Option.elim_some,Option.any_some,decide_eq_true_eq]
      rw [Table.find?_upsert,unchanged]
      by_cases here : id = d.id
      · rw [if_pos here,if_pos here.symm]
      · rw [if_neg here,if_neg (Ne.symm here)]

/-- The drafts of a review: the card under review, the one it goes into, and others with
other links, each of the row that was read. -/
structure Drafted (c : Consolidation) (p : Progress) (now : Time) (drafts : Drafts) : Prop where
  root : drafts.find? c.root.id = some ⟨c.root,p.root.reviewed now⟩
  target : ∀ d ∈ p.target, ∃ card, drafts.find? d.id = some ⟨d.row,card⟩ ∧ d.card.Relinked card
  others : ∀ d ∈ drafts, d.id = c.root.id ∨ (∃ e ∈ p.target, e.id = d.id) ∨ d.row.scope.card.Relinked d.card
  records : ∀ row ∈ c.records, row.id ≠ c.root.id → ∃ d ∈ drafts, d.row = row

/-- Where what is read twice is read the same, and the card under review is not redirected. -/
theorem drafted (ok : drafts = c.reread.rows.foldl (redirect owner (redirects (c.outcome p now))) (c.outcome p now))
    (agree : ∀ row ∈ c.reread, row.id ≠ c.root.id → ∀ other ∈ c.records, other.id = row.id → other = row)
    (unlinked : p.root.relatedIds = [] ∨ redirects (c.outcome p now) = [])
    (target : ∀ d ∈ p.target, d.row ∈ c.records ∧ d.id ≠ c.root.id) : Drafted c p now drafts := by
  have of_member : ∀ d ∈ drafts, d ∈ c.outcome p now ∨ d.row ∈ c.reread ∧ d.id ≠ c.root.id ∧
      ((c.outcome p now).base d.row).Relinked d.card := by
    intro d member
    rw [ok] at member
    refine (mem_redirects c.reread.keyed member).imp_right (fun ⟨read,relinked,id,linked,names⟩ => ⟨read,fun own => ?_,relinked⟩)
    rcases unlinked with empty | empty
    · have own : d.row.id = c.root.id := own
      rw [Drafts.base,own,find?_outcome,if_pos rfl] at linked
      change id ∈ p.root.relatedIds at linked
      rw [empty] at linked
      cases linked
    · rw [empty] at names
      cases names
  have still : ∀ d ∈ c.outcome p now, ∃ e ∈ drafts, e.id = d.id := by
    intro d member
    by_cases read : ∃ row ∈ c.reread, row.id = d.id
    · by_contra absent
      have found : drafts.find? d.id = none := Table.find?_eq_none.mpr (fun e inside same => absent ⟨e,inside,same⟩)
      rw [ok] at found
      have kept : ∀ (rows : List Row) (drafts : Drafts), (drafts.find? d.id).isSome →
          ((rows.foldl (redirect owner (redirects (c.outcome p now))) drafts).find? d.id).isSome := by
        intro rows
        induction rows with
        | nil => exact fun _ there => there
        | cons row rows ih =>
          intro drafts there
          refine ih _ ?_
          simp only [redirect]
          split
          · rw [Table.find?_upsert]
            split
            · rfl
            · exact there
          · exact there
      have there := kept c.reread.rows (c.outcome p now) (by rw [Table.find?_mem member]; rfl)
      rw [found] at there
      cases there
    · have kept : drafts.find? d.id = some d := by
        rw [ok,find?_redirects (fun row member same => read ⟨row,member,same⟩),Table.find?_mem member]
      exact ⟨d,(Table.find?_eq_some.mp kept).1,rfl⟩
  refine ⟨?_,fun d chosen => ?_,fun d member => ?_,fun row listed other => ?_⟩
  · obtain ⟨d,member,same⟩ := still _ (Table.find?_eq_some.mp ((find?_outcome c.root.id).trans (if_pos rfl))).1
    rcases of_member d member with before | ⟨_,apart,_⟩
    · have found := Table.find?_mem before
      rw [same,show Draft.id ⟨c.root,p.root.reviewed now⟩ = c.root.id from rfl,find?_outcome,if_pos rfl] at found
      obtain rfl := Option.some.inj found
      exact Table.find?_mem member
    · exact absurd same apart
  · obtain ⟨inside,apart⟩ := target d chosen
    have found : (c.outcome p now).find? d.id = some d := by
      have chosen : p.target = some d := chosen
      rw [find?_outcome,if_neg apart,if_pos (by simp [chosen]),chosen]
    obtain ⟨e,member,same⟩ := still d (Table.find?_eq_some.mp found).1
    rcases of_member e member with before | ⟨read,_,relinked⟩
    · have other := Table.find?_mem before
      rw [same,found] at other
      obtain rfl := Option.some.inj other
      exact ⟨_,Table.find?_mem member,.refl _⟩
    · have own : d.row = e.row := agree e.row read (by rw [show e.row.id = d.id from same]; exact apart) d.row inside same.symm
      refine ⟨e.card,?_,?_⟩
      · rw [own,← same]
        exact Table.find?_mem member
      · rw [Drafts.base,show e.row.id = d.id from same,found] at relinked
        exact relinked
  · by_cases root : d.id = c.root.id
    · exact .inl root
    · by_cases into : ∃ e ∈ p.target, e.id = d.id
      · exact .inr (.inl into)
      · have found : (c.outcome p now).find? d.id = (c.records.find? d.id).map (fun row => ⟨row,row.scope.card⟩) := by
          rw [find?_outcome,if_neg root]
          refine if_neg (fun hit => ?_)
          obtain ⟨e,chosen⟩ := Option.isSome_iff_exists.mp (Option.isSome_of_any hit)
          exact into ⟨e,chosen,by simpa [chosen] using hit⟩
        refine .inr (.inr ?_)
        rcases of_member d member with before | ⟨read,_,relinked⟩
        · rw [Table.find?_mem before] at found
          obtain ⟨row,_,rfl⟩ := Option.map_eq_some_iff.mp found.symm
          exact .refl _
        · rw [Drafts.base,show d.row.id = d.id from rfl,found] at relinked
          cases there : c.records.find? d.id with
          | none =>
            rw [there] at relinked
            exact relinked
          | some row =>
            obtain ⟨inside,same⟩ := Table.find?_eq_some.mp there
            rw [there] at relinked
            obtain rfl := agree d.row read root row inside same
            exact relinked
  · have found : ∃ d ∈ c.outcome p now, d.row = row := by
      have known : (c.outcome p now).find? row.id = if row.id = c.root.id then some ⟨c.root,p.root.reviewed now⟩
        else if p.target.any (·.id = row.id) then p.target
        else (c.records.find? row.id).map (fun row => ⟨row,row.scope.card⟩) := find?_outcome row.id
      rw [if_neg other] at known
      split at known
      · rename_i into
        obtain ⟨d,chosen⟩ := Option.isSome_iff_exists.mp (Option.isSome_of_any into)
        rw [chosen] at known into
        obtain ⟨inside,_⟩ := target d chosen
        have same : d.id = row.id := by simpa using into
        exact ⟨d,(Table.find?_eq_some.mp known).1,c.records.unique inside listed same⟩
      · rw [Table.find?_mem listed] at known
        exact ⟨_,(Table.find?_eq_some.mp known).1,rfl⟩
    obtain ⟨d,before,rfl⟩ := found
    obtain ⟨e,member,same⟩ := still d before
    rcases of_member e member with there | ⟨read,apart,_⟩
    · exact ⟨e,member,by rw [(c.outcome p now).unique there before same]⟩
    · exact ⟨e,member,(agree e.row read apart d.row listed same.symm).symm⟩

end

end Suixinji.Preferences
