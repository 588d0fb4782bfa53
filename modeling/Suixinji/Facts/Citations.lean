import Mathlib.Data.List.Dedup
import Suixinji.Facts.Decisions
import Suixinji.Facts.Played

/-! What an accepted plan leaves of the evidence: which facts it stops citing, and
which of its outputs it writes over one another. -/
namespace Suixinji.Facts
open Relational Relational.Table Checked Transition

/-! ### What must not be lost -/

def Relation.cites (r : Relation) (f : FactId) : Prop := f ∈ r.sourceFactIds ∨ EntityId.fact f ∈ r.endpointIds

def Store.citedByCard (s : Store) (f : FactId) : Prop := ∃ c ∈ s.cards, c.active ∧ f ∈ c.sourceFactIds

def Store.cited (s : Store) (f : FactId) : Prop :=
  s.citedByCard f ∨ (∃ q ∈ s.questions, q.isOpen ∧ f ∈ q.sourceFactIds) ∨ ∃ r ∈ s.relations, r.cites f

def Store.retracted (s : Store) (actions : List Action) (f : FactId) : Prop :=
  s.citedByCard f ∧ ∀ c ∈ s.cards, c.active → f ∈ c.sourceFactIds →
    ∃ a ∈ actions, a.action = some .retract ∧ EntityId.card c.id ∈ a.targetIds

/-- The outputs that become cards of their own. -/
def Action.created (a : Action) : List Output :=
  match a.action with
  | some .create => [a.asOutput]
  | some .split => a.outputs
  | _ => []

structure LosesNothing (lib : Library) (call : PlanCall) (actions : List Action) (s t : Store) : Prop where
  evidence : ∀ f ∈ s.facts, f.active → s.citedByCard f.id ∨ f.id ∈ call.batchIds →
    t.cited f.id ∨ s.retracted actions f.id
  contents : ∀ a ∈ actions, ∀ o ∈ a.created, ∃ c ∈ t.cards, c.active ∧ c.content = lib.strip o.content
  outputs : (t.cards.filter (fun c => c.id.runId = call.runId)).rows.length = (actions.flatMap Action.created).length

/-! ### What a plan must have for it -/

def Action.madeIds (lib : Library) (call : PlanCall) (a : Action) (touched : Nat) : List CardId :=
  a.created.zipIdx.map (fun o => ⟨call.runId,touched,o.2,lib.strip o.1.content⟩)

def planIds (lib : Library) (call : PlanCall) : List EntityId → List Action → List CardId
  | _,[] => []
  | touched,a::as => a.madeIds lib call touched.length ++ planIds lib call (a.occupied touched) as

def Action.writes (s : Store) (a : Action) : List Card :=
  match a.action with
  | some .retract | some .addEvidence | some .merge | some .split => s.targetCards a
  | some .revise => (s.targetCards a).head?.toList
  | _ => []

/-- The action puts the fact on a card, and does not supersede that card itself. -/
def Action.brings (s : Store) (a : Action) (f : FactId) : Prop :=
  (∃ ids ∈ a.groups s, f ∈ ids) ∧
    (a.action = some .merge → ∀ b ∈ (s.targetCards a).head?, b ∉ (s.targetCards a).tail)

def Action.resolves (a : Action) (id : QuestionId) : Prop := a.action = some .resolveReference ∧ id ∈ a.questionIds

def Action.defers (lib : Library) (a : Action) (id : QuestionId) : Prop :=
  a.action = some .defer ∧ id = ⟨a.sourceFactIds,lib.strip a.question⟩

/-- A question about the fact is asked, and no later action resolves it. -/
def leavesAsked (lib : Library) (f : FactId) : List Action → Prop
  | [] => False
  | a::as => (a.action = some .defer ∧ f ∈ a.sourceFactIds ∧ ∀ b ∈ as, ¬b.resolves ⟨a.sourceFactIds,lib.strip a.question⟩) ∨
      leavesAsked lib f as

/-- Nothing that the plan leaves alone, or writes to stay, cites the fact. -/
structure Loses (lib : Library) (s : Store) (actions : List Action) (f : FactId) : Prop where
  cards : ∀ c ∈ s.cards, c.active → f ∈ c.sourceFactIds → ∃ a ∈ actions, c ∈ a.writes s
  brought : ∀ a ∈ actions, ¬a.brings s f
  questions : ∀ q ∈ s.questions, q.isOpen → f ∈ q.sourceFactIds → ∃ a ∈ actions, a.defers lib q.id ∨ a.resolves q.id
  asked : ¬leavesAsked lib f actions
  relations : ∀ r ∈ s.relations, r.cites f → ∃ a ∈ actions, a.action = some .link ∧ a.endpoints = r.endpointIds
  linked : ∀ a ∈ actions, a.action = some .link → EntityId.fact f ∉ a.endpoints

/-- The cards that the plan creates have ids of their own, and every fact that is cited
or new stays cited, or is cited by retracted cards only. -/
structure Accounts (lib : Library) (call : PlanCall) (s : Store) (actions : List Action) : Prop where
  apart : (planIds lib call [] actions).Nodup
  kept : ∀ f ∈ s.facts, f.active → s.citedByCard f.id ∨ f.id ∈ call.batchIds →
    Loses lib s actions f.id → s.retracted actions f.id

section
variable {lib : Library} {call : PlanCall} {s t : Store} {a : Action} {touched : Nat} {busy : List EntityId} {cs : List Card}
  {f : FactId}

/-! ### One action -/

theorem map_of_forall₂ {α β γ : Type} {R : α → β → Prop} {g : β → γ} {h : α → γ} {as : List α} {bs : List β}
    (paired : List.Forall₂ R as bs) (same : ∀ a b, R a b → g b = h a) : bs.map g = as.map h := by
  induction paired with
  | nil => rfl
  | cons related _ ih => rw [List.map_cons,List.map_cons,same _ _ related,ih]

theorem madeIds_run {id : CardId} (made : id ∈ a.madeIds lib call touched) : id.runId = call.runId := by
  obtain ⟨_,_,rfl⟩ := List.mem_map.mp made
  rfl

theorem derived_ids {tool : Tool} {ws : List Card} (named : a.action = some tool) (derives : tool.derives)
    (other : tool ≠ .addEvidence)
    (some_ : a.action ∈ [Tool.create,.defer,.resolveReference,.link].map some ∨ s.targetCards a ≠ [])
    (written : List.Forall₂ (fun o c => Written lib call tool a (s.targetCards a) touched s o.1 o.2 c)
      (a.outputsOf tool).zipIdx ws) :
    ((tool = .create ∨ tool = .split) ∧ ws.map Card.id = a.madeIds lib call touched) ∨
      ((tool = .revise ∨ tool = .merge) ∧ a.madeIds lib call touched = [] ∧
        ∃ b rest w, s.targetCards a = b :: rest ∧ ws = [w] ∧ w.id = b.id) := by
  have made (base : baseOf tool (s.targetCards a) = none) (created : a.created = a.outputsOf tool) :
      ws.map Card.id = a.madeIds lib call touched := by
    rw [Action.madeIds,created]
    refine map_of_forall₂ written (fun o w written => ?_)
    rw [written.id,base,← written.content]
    rfl
  have based (aims : tool = .revise ∨ tool = .merge) (outputs : a.outputsOf tool = [a.asOutput]) :
      ∃ b rest w, s.targetCards a = b :: rest ∧ ws = [w] ∧ w.id = b.id := by
    have targets : s.targetCards a ≠ [] := by
      refine some_.resolve_left fun free => ?_
      rw [named] at free
      rcases aims with rfl | rfl <;> revert free <;> decide
    obtain ⟨b,rest,split⟩ := List.exists_cons_of_ne_nil targets
    rw [outputs] at written
    cases written with
    | cons head tail =>
      cases tail
      refine ⟨b,rest,_,split,rfl,?_⟩
      rw [head.id,baseOf,if_pos aims,split]
      rfl
  cases tool with
  | create => exact .inl ⟨.inl rfl,made rfl (by simp [Action.created,named,Action.outputsOf])⟩
  | split => exact .inl ⟨.inr rfl,made rfl (by simp [Action.created,named,Action.outputsOf])⟩
  | revise => exact .inr ⟨.inl rfl,by simp [Action.madeIds,Action.created,named],based (.inl rfl) rfl⟩
  | merge => exact .inr ⟨.inr rfl,by simp [Action.madeIds,Action.created,named],based (.inr rfl) rfl⟩
  | addEvidence => exact absurd rfl other
  | _ => cases derives

theorem Saves.ids (saves : Saves lib call s a touched cs) (aimed : Aimed s busy a) {c : Card} (member : c ∈ cs) :
    (∃ b ∈ s.targetCards a, b.id = c.id) ∨ c.id ∈ a.madeIds lib call touched := by
  cases saves with
  | nothing => cases member
  | retract =>
    obtain ⟨b,chosen,rfl⟩ := List.mem_map.mp member
    exact .inl ⟨b,chosen,rfl⟩
  | addEvidence _ extended =>
    obtain ⟨b,chosen,made⟩ := exists_left extended member
    exact .inl ⟨b,chosen,made.id.symm⟩
  | derive named derives other _ written =>
    rcases List.mem_append.mp member with new | ended
    · rcases derived_ids named derives other aimed.some_ written with ⟨_,made⟩ | ⟨_,_,b,rest,w,split,rfl,same⟩
      · exact .inr (made ▸ List.mem_map_of_mem new)
      · refine .inl ⟨b,by simp [split],?_⟩
        rw [List.mem_singleton.mp new,same]
    · obtain ⟨b,chosen,rfl⟩ := List.mem_map.mp ended
      exact .inl ⟨b,retiredBy_subset b chosen,rfl⟩

theorem Saves.made (unborn : Unborn call s) (saves : Saves lib call s a touched cs) (aimed : Aimed s busy a) :
    (∀ id ∈ a.madeIds lib call touched, ∃ c ∈ cs, c.id = id) ∧
      ∀ c ∈ cs, c.id.runId = call.runId → c.active ∧ c.content = c.id.content := by
  have old {b : Card} (target : b ∈ s.targetCards a) : b.id.runId ≠ call.runId :=
    unborn.cards b (mem_targetCards.mp target).1
  cases saves with
  | nothing named quiet =>
    refine ⟨?_,fun c member => absurd member List.not_mem_nil⟩
    rcases quiet with rfl | rfl | rfl <;> simp [Action.madeIds,Action.created,named]
  | retract named =>
    refine ⟨by simp [Action.madeIds,Action.created,named],?_⟩
    intro c member own
    obtain ⟨b,chosen,rfl⟩ := List.mem_map.mp member
    exact absurd (show b.id.runId = call.runId from own) (old chosen)
  | addEvidence named extended =>
    refine ⟨by simp [Action.madeIds,Action.created,named],?_⟩
    intro c member own
    obtain ⟨b,chosen,made⟩ := exists_left extended member
    exact absurd (made.id ▸ own) (old chosen)
  | derive named derives other _ written =>
    have cases_ := derived_ids named derives other aimed.some_ written
    constructor
    · intro id made
      rcases cases_ with ⟨_,ids⟩ | ⟨_,none,_⟩
      · obtain ⟨w,inside,same⟩ := List.mem_map.mp (ids ▸ made)
        exact ⟨w,List.mem_append_left _ inside,same⟩
      · rw [none] at made
        cases made
    · intro c member own
      rcases List.mem_append.mp member with new | ended
      · obtain ⟨_,_,w⟩ := exists_left written new
        refine ⟨w.active,?_⟩
        cases base : baseOf _ (s.targetCards a) with
        | none => rw [w.id,base]; rfl
        | some b => exact absurd (by rw [← own,w.id,base]; rfl) (old (baseOf_mem base))
      · obtain ⟨b,chosen,rfl⟩ := List.mem_map.mp ended
        exact absurd (show b.id.runId = call.runId from own) (old (retiredBy_subset b chosen))

theorem Saves.writes (unborn : Unborn call s) (saves : Saves lib call s a touched cs) (aimed : Aimed s busy a) {c : Card}
    (member : c ∈ s.cards) : (∃ c' ∈ cs, c'.id = c.id) ↔ c ∈ a.writes s := by
  have itself {b : Card} (target : b ∈ s.targetCards a) (same : b.id = c.id) : b = c :=
    s.cards.unique (mem_targetCards.mp target).1 member same
  cases saves with
  | nothing named quiet => rcases quiet with rfl | rfl | rfl <;> simp [Action.writes,named]
  | retract named =>
    simp only [Action.writes,named,List.mem_map,exists_exists_and_eq_and]
    constructor
    · rintro ⟨b,target,same⟩
      exact itself target same ▸ target
    · exact fun target => ⟨c,target,rfl⟩
  | addEvidence named extended =>
    simp only [Action.writes,named]
    constructor
    · rintro ⟨c',inside,same⟩
      obtain ⟨b,target,made⟩ := exists_left extended inside
      rw [← itself target (made.id.symm.trans same)]
      exact target
    · intro target
      obtain ⟨c',inside,made⟩ := exists_right extended target
      exact ⟨c',inside,made.id⟩
  | @derive tool ws named derives other _ written =>
    rcases derived_ids named derives other aimed.some_ written with ⟨tools,ids⟩ | ⟨tools,_,b,rest,w,split,rfl,same⟩
    · have foreign : ∀ w ∈ ws, w.id ≠ c.id := fun w inside same =>
        unborn.cards c member (same ▸ madeIds_run (ids ▸ List.mem_map_of_mem inside))
      rcases tools with rfl | rfl
      · simp only [Action.writes,named,retiredBy,List.map_nil,List.append_nil,List.not_mem_nil,iff_false]
        rintro ⟨w,inside,same⟩
        exact foreign w inside same
      · simp only [Action.writes,named,retiredBy]
        constructor
        · rintro ⟨c',inside,same⟩
          rcases List.mem_append.mp inside with new | ended
          · exact absurd same (foreign c' new)
          · obtain ⟨b,target,rfl⟩ := List.mem_map.mp ended
            exact itself target same ▸ target
        · exact fun target => ⟨_,List.mem_append_right _ (List.mem_map_of_mem target),rfl⟩
    · have head : w.id = c.id ↔ c = b :=
        ⟨fun hit => (itself (by simp [split]) (same.symm.trans hit)).symm,fun hit => hit ▸ same⟩
      rcases tools with rfl | rfl
      · simp only [Action.writes,named,retiredBy,split,List.map_nil,List.append_nil,List.mem_singleton,exists_eq_left,
          List.head?_cons,Option.toList_some,head]
      · simp only [Action.writes,named,retiredBy,split,List.tail_cons,List.mem_append,List.mem_cons,List.not_mem_nil,or_false]
        constructor
        · rintro ⟨c',rfl | ended,hit⟩
          · exact .inl (head.mp hit)
          · obtain ⟨b',target,rfl⟩ := List.mem_map.mp ended
            have same' : b'.id = c.id := hit
            exact .inr (itself (by simp [split,target]) same' ▸ target)
        · rintro (rfl | target)
          · exact ⟨w,.inl rfl,same⟩
          · exact ⟨_,.inr (List.mem_map_of_mem target),rfl⟩

theorem Saves.brings (unborn : Unborn call s) (saves : Saves lib call s a touched cs) (aimed : Aimed s busy a)
    (distinct : (a.madeIds lib call touched).Nodup) :
    (∃ c, Last Card.id cs c ∧ c.active ∧ f ∈ c.sourceFactIds) ↔ a.brings s f := by
  have past (status : CardStatus) (ends : status ≠ .active) {c : Card} {bs : List Card}
      (final : Last Card.id (bs.map (Card.ended status)) c) (active : c.active) : False := by
    obtain ⟨b,_,rfl⟩ := List.mem_map.mp final.mem
    exact ends (of_decide_eq_true active)
  cases saves with
  | nothing named quiet =>
    have none : ¬a.brings s f := by
      rintro ⟨⟨ids,group,_⟩,_⟩
      rcases quiet with rfl | rfl | rfl <;> simp [Action.groups,named,Tool.derives] at group
    simp only [none,iff_false,not_exists,not_and]
    exact fun c final => absurd final not_last_nil
  | retract named =>
    have none : ¬a.brings s f := by
      rintro ⟨⟨ids,group,_⟩,_⟩
      simp [Action.groups,named,Tool.derives] at group
    simp only [none,iff_false,not_exists,not_and]
    exact fun c final active => (past .retracted (by decide) final active).elim
  | addEvidence named extended =>
    have fresh := aimed.fresh (by simp [named])
    have merges : a.action ≠ some .merge := by simp [named]
    simp only [Action.brings,Action.groups,named,List.mem_map,exists_exists_and_eq_and,reduceCtorEq,false_implies,
      and_true,Option.some.injEq]
    constructor
    · rintro ⟨c,final,_,cited⟩
      obtain ⟨b,target,made⟩ := exists_left extended final.mem
      rw [made.sources] at cited
      exact ⟨b,target,cited⟩
    · rintro ⟨b,target,cited⟩
      obtain ⟨c,inside,made⟩ := exists_right extended target
      have named : ∃ c' ∈ cs, Card.id c' = c.id := ⟨c,inside,rfl⟩
      obtain ⟨c',final,same⟩ := exists_last named
      obtain ⟨b',target',made'⟩ := exists_left extended final.mem
      obtain rfl : b' = b := s.cards.unique (mem_targetCards.mp target').1 (mem_targetCards.mp target).1
        (made'.id.symm.trans (same.trans made.id))
      refine ⟨c',final,?_,made'.sources ▸ cited⟩
      simpa [Card.active,made'.status] using (fresh b' target').1
  | @derive tool ws named derives other _ written =>
    have groups : a.groups s =
        (a.outputsOf tool).map (fun o => evidenceIds tool (s.targetCards a) (o.sourceFactIds.getD a.sourceFactIds)) := by
      unfold Action.groups
      rw [named]
      split
      · rename_i none
        cases none
      · rename_i adds
        exact absurd (Option.some.inj adds) other
      · rename_i same
        cases Option.some.inj same
        rw [if_pos derives]
    have ids := derived_ids named derives other aimed.some_ written
    constructor
    · rintro ⟨c,final,active,cited⟩
      rcases last_append.mp final with ended | ⟨new,last⟩
      · exact (past .superseded (by decide) ended active).elim
      obtain ⟨⟨o,i⟩,numbered,made⟩ := exists_left written new.mem
      refine ⟨⟨_,groups ▸ List.mem_map_of_mem (List.fst_mem_of_mem_zipIdx numbered),made.sources ▸ cited⟩,?_⟩
      intro merge b head repeated
      cases Option.some.inj (named.symm.trans merge)
      refine last (b.ended .superseded) (List.mem_map_of_mem repeated) ?_
      have base : baseOf .merge (s.targetCards a) = some b := head
      rw [made.id,base]
      rfl
    · rintro ⟨⟨group,given,cited⟩,merge⟩
      rw [groups] at given
      obtain ⟨o,output,rfl⟩ := List.mem_map.mp given
      obtain ⟨i,numbered⟩ : ∃ i, (o,i) ∈ (a.outputsOf tool).zipIdx := by
        obtain ⟨i,bound,same⟩ := List.mem_iff_getElem.mp output
        exact ⟨i,List.mem_zipIdx_iff_getElem?.mpr (List.getElem?_eq_some_iff.mpr ⟨bound,same⟩)⟩
      obtain ⟨w,inside,made⟩ := exists_right written numbered
      refine ⟨w,last_append.mpr (.inr ⟨?_,?_⟩),made.active,made.sources ▸ cited⟩
      · rcases ids with ⟨_,ids⟩ | ⟨_,_,b,rest,w',_,rfl,_⟩
        · exact last_of_nodup (ids ▸ distinct) inside
        · obtain rfl := List.mem_singleton.mp inside
          exact ⟨[],[],rfl,by simp⟩
      · intro e ended same
        obtain ⟨b',retired,rfl⟩ := List.mem_map.mp ended
        have target := retiredBy_subset b' retired
        rcases ids with ⟨_,ids⟩ | ⟨tools,_,b,rest,w',split,rfl,base⟩
        · exact unborn.cards b' (mem_targetCards.mp target).1
            (show b'.id.runId = _ from same ▸ madeIds_run (ids ▸ List.mem_map_of_mem inside))
        · rcases tools with rfl | rfl
          · cases retired
          · obtain rfl := List.mem_singleton.mp inside
            have again : b' = b := s.cards.unique (mem_targetCards.mp target).1
              (mem_targetCards.mp (by rw [split]; exact List.mem_cons_self)).1 (same.trans base)
            exact merge named b (by rw [split]; rfl) (again ▸ retired)

/-! ### A whole plan -/

variable {as : List Action} {qs : List Question}

theorem planIds_run {id : CardId} (made : id ∈ planIds lib call busy as) : id.runId = call.runId := by
  induction as generalizing busy with
  | nil => cases made
  | cons a as ih =>
    rcases List.mem_append.mp made with here | later
    · exact madeIds_run here
    · exact ih later

theorem Saves.notLink (saves : Saves lib call s a touched cs) {c : Card} (member : c ∈ cs) : a.action ≠ some .link := by
  intro link
  cases saves with
  | nothing => cases member
  | retract named => cases link.symm.trans named
  | addEvidence named => cases link.symm.trans named
  | derive named derives =>
    cases link.symm.trans named
    cases derives

theorem Played.ids (played : Played lib call s busy as cs qs) {c : Card} (member : c ∈ cs) :
    (∃ b ∈ s.cards, b.id = c.id ∧ .card b.id ∉ busy) ∨ c.id ∈ planIds lib call busy as := by
  induction played with
  | nil => cases member
  | @cons busy a as cs cs' qs qs' saves asks aimed rest ih =>
    rcases List.mem_append.mp member with here | later
    · rcases saves.ids aimed here with ⟨b,target,same⟩ | made
      · exact .inl ⟨b,(mem_targetCards.mp target).1,same,(aimed.fresh (saves.notLink here) b target).2⟩
      · exact .inr (List.mem_append_left _ made)
    · rcases ih later with ⟨b,member,same,apart⟩ | made
      · refine .inl ⟨b,member,same,fun had => apart ?_⟩
        unfold Action.occupied
        split
        · exact had
        · exact List.mem_union_iff.mpr (.inr had)
      · exact .inr (List.mem_append_right _ made)

theorem Played.apart {cs' : List Card} (unborn : Unborn call s) (saves : Saves lib call s a busy.length cs)
    (aimed : Aimed s busy a) (rest : Played lib call s (a.occupied busy) as cs' qs)
    (distinct : (planIds lib call busy (a::as)).Nodup) {c c' : Card} (member : c ∈ cs) (later : c' ∈ cs') :
    c'.id ≠ c.id := by
  intro same
  have notLink := saves.notLink member
  rcases saves.ids aimed member with ⟨b,target,here⟩ | made <;> rcases rest.ids later with ⟨b',old,there,apart⟩ | made'
  · refine apart ?_
    rw [Action.occupied,if_neg notLink,List.mem_union_iff,there.trans (same.trans here.symm)]
    exact .inl (mem_targetCards.mp target).2
  · exact unborn.cards b (mem_targetCards.mp target).1 ((here.trans same.symm) ▸ planIds_run made')
  · exact unborn.cards b' old ((there.trans same) ▸ madeIds_run made)
  · exact (List.nodup_append.mp distinct).2.2 c.id made c'.id made' same.symm

/-- The plan leaves the fact on an active card that it writes just when an action of it
brings it there. -/
theorem Played.brings (unborn : Unborn call s) (played : Played lib call s busy as cs qs)
    (distinct : (planIds lib call busy as).Nodup) :
    (∃ c, Last Card.id cs c ∧ c.active ∧ f ∈ c.sourceFactIds) ↔ ∃ a ∈ as, a.brings s f := by
  induction played with
  | nil => simp [not_last_nil]
  | @cons busy a as cs cs' qs qs' saves asks aimed rest ih =>
    have here := saves.brings (f := f) unborn aimed (List.nodup_append.mp distinct).1
    have later := ih (List.nodup_append.mp distinct).2.1
    rw [List.exists_mem_cons_iff,← here,← later]
    constructor
    · rintro ⟨c,last,held⟩
      rcases last_append.mp last with last | ⟨last,_⟩
      · exact .inr ⟨c,last,held⟩
      · exact .inl ⟨c,last,held⟩
    · rintro (⟨c,last,held⟩ | ⟨c,last,held⟩)
      · exact ⟨c,last_append.mpr (.inr ⟨last,fun c' inside => Played.apart unborn saves aimed rest distinct last.mem inside⟩),
          held⟩
      · exact ⟨c,last_append.mpr (.inl last),held⟩

theorem Played.writes (unborn : Unborn call s) (played : Played lib call s busy as cs qs) {c : Card} (member : c ∈ s.cards) :
    (∃ c' ∈ cs, c'.id = c.id) ↔ ∃ a ∈ as, c ∈ a.writes s := by
  induction played with
  | nil => simp
  | cons saves asks aimed rest ih =>
    rw [List.exists_mem_cons_iff,← saves.writes unborn aimed member,← ih]
    simp only [List.mem_append,or_and_right,exists_or]

theorem Played.made (unborn : Unborn call s) (played : Played lib call s busy as cs qs) :
    (∀ id ∈ planIds lib call busy as, ∃ c ∈ cs, c.id = id) ∧
      ∀ c ∈ cs, c.id.runId = call.runId → c.active ∧ c.content = c.id.content := by
  induction played with
  | nil => exact ⟨fun id made => absurd made List.not_mem_nil,fun c member => absurd member List.not_mem_nil⟩
  | cons saves asks aimed rest ih =>
    have here := saves.made unborn aimed
    constructor
    · intro id made
      rcases List.mem_append.mp made with first | later
      · obtain ⟨c,inside,same⟩ := here.1 id first
        exact ⟨c,List.mem_append_left _ inside,same⟩
      · obtain ⟨c,inside,same⟩ := ih.1 id later
        exact ⟨c,List.mem_append_right _ inside,same⟩
    · intro c inside
      exact (List.mem_append.mp inside).elim (here.2 c) (ih.2 c)

theorem cards_cite (unborn : Unborn call s) (played : Played lib call s [] as cs qs) (cards : t.cards = saveCards s.cards cs)
    (distinct : (planIds lib call [] as).Nodup) : t.citedByCard f ↔
      (∃ c ∈ s.cards, c.active ∧ f ∈ c.sourceFactIds ∧ ∀ a ∈ as, c ∉ a.writes s) ∨ ∃ a ∈ as, a.brings s f := by
  rw [← played.brings unborn distinct,Store.citedByCard,cards,saveCards_eq]
  have untouched {c : Card} (member : c ∈ s.cards) :
      (∀ c' ∈ cs.map Card.saved, c'.id ≠ c.id) ↔ ∀ a ∈ as, c ∉ a.writes s := by
    have written := not_congr (played.writes unborn member)
    simp only [not_exists,not_and] at written
    rw [← written]
    exact List.forall_mem_map
  have saved {c : Card} : Last Card.id (cs.map Card.saved) c ↔ ∃ c₀, Last Card.id cs c₀ ∧ c₀.saved = c :=
    last_map (by exact fun _ => rfl)
  constructor
  · rintro ⟨c,inside,active,cited⟩
    rcases mem_upsertAll.mp inside with last | ⟨member,others⟩
    · obtain ⟨c₀,written,rfl⟩ := saved.mp last
      exact .inr ⟨c₀,written,active,cited⟩
    · exact .inl ⟨c,member,active,cited,(untouched member).mp others⟩
  · rintro (⟨c,member,active,cited,others⟩ | ⟨c,last,active,cited⟩)
    · exact ⟨c,mem_upsertAll.mpr (.inr ⟨member,(untouched member).mpr others⟩),active,cited⟩
    · exact ⟨c.saved,mem_upsertAll.mpr (.inl (saved.mpr ⟨c,last,rfl⟩)),active,cited⟩

/-! ### Questions and relations -/

theorem Asks.ids (asks : Asks lib call a qs) {id : QuestionId} :
    (∃ q ∈ qs, q.id = id) ↔ a.defers lib id ∨ a.resolves id := by
  cases asks with
  | nothing other => simp [Action.defers,Action.resolves,other.1,other.2]
  | defer named =>
    simp only [List.mem_singleton,exists_eq_left,Action.defers,Action.resolves,named,true_and,Option.some.injEq,
      reduceCtorEq,false_and,or_false]
    exact eq_comm
  | resolve named resolved =>
    simp only [Action.defers,Action.resolves,named,Option.some.injEq,reduceCtorEq,false_and,true_and,false_or]
    constructor
    · rintro ⟨q,inside,rfl⟩
      obtain ⟨id,member,same,_⟩ := exists_left resolved inside
      exact same ▸ member
    · intro member
      obtain ⟨q,inside,same,_⟩ := exists_right resolved member
      exact ⟨q,inside,same⟩

theorem Asks.mem (asks : Asks lib call a qs) {q : Question} (inside : q ∈ qs) :
    (a.action = some .defer ∧ q = a.asked lib call) ∨ (q.isOpen = false ∧ a.resolves q.id) := by
  cases asks with
  | nothing => cases inside
  | defer named => exact .inl ⟨named,List.mem_singleton.mp inside⟩
  | resolve named resolved =>
    obtain ⟨id,member,same,status⟩ := exists_left resolved inside
    exact .inr ⟨by simp [Question.isOpen,status],named,same ▸ member⟩

theorem Played.asks_ids (played : Played lib call s busy as cs qs) {id : QuestionId} :
    (∃ q ∈ qs, q.id = id) ↔ ∃ a ∈ as, a.defers lib id ∨ a.resolves id := by
  induction played with
  | nil => simp
  | cons saves asks aimed rest ih =>
    rw [List.exists_mem_cons_iff,← asks.ids,← ih]
    simp only [List.mem_append,or_and_right,exists_or]

theorem Played.asks_mem (played : Played lib call s busy as cs qs) {q : Question} (inside : q ∈ qs) :
    (∃ a ∈ as, q = a.asked lib call) ∨ ∃ a ∈ as, a.resolves q.id := by
  induction played with
  | nil => cases inside
  | cons saves asks aimed rest ih =>
    rcases List.mem_append.mp inside with here | later
    · rcases asks.mem here with ⟨_,same⟩ | ⟨_,resolves⟩
      · exact .inl ⟨_,List.mem_cons_self,same⟩
      · exact .inr ⟨_,List.mem_cons_self,resolves⟩
    · exact (ih later).imp (fun ⟨a,given,same⟩ => ⟨a,List.mem_cons_of_mem _ given,same⟩)
        (fun ⟨a,given,resolves⟩ => ⟨a,List.mem_cons_of_mem _ given,resolves⟩)

theorem Played.asked (played : Played lib call s busy as cs qs) :
    (∃ q, Last Question.id qs q ∧ q.isOpen ∧ f ∈ q.sourceFactIds) ↔ leavesAsked lib f as := by
  induction played with
  | nil => simp [not_last_nil,leavesAsked]
  | @cons busy a as cs cs' qs qs' saves asks aimed rest ih =>
    rw [leavesAsked,← ih]
    constructor
    · rintro ⟨q,last,asked,cited⟩
      rcases last_append.mp last with last | ⟨last,apart⟩
      · exact .inr ⟨q,last,asked,cited⟩
      rcases asks.mem last.mem with ⟨named,rfl⟩ | ⟨closed,_⟩
      · refine .inl ⟨named,cited,fun b later resolves => ?_⟩
        obtain ⟨q',inside,same⟩ := rest.asks_ids.mpr ⟨b,later,.inr resolves⟩
        exact apart q' inside same
      · rw [closed] at asked
        cases asked
    · rintro (⟨named,cited,unresolved⟩ | ⟨q,last,held⟩)
      · by_cases again : ∃ q ∈ qs', q.id = (a.asked lib call).id
        · -- a later action asks the same question
          obtain ⟨q,last,same⟩ := exists_last again
          rcases rest.asks_mem last.mem with ⟨b,_,rfl⟩ | ⟨b,later,resolves⟩
          · have sources : b.sourceFactIds = a.sourceFactIds := congrArg QuestionId.sources same
            exact ⟨_,last_append.mpr (.inl last),rfl,show f ∈ b.sourceFactIds from sources ▸ cited⟩
          · rw [same] at resolves
            exact absurd resolves (unresolved b later)
        · have asked : qs = [a.asked lib call] := by
            cases asks with
            | nothing other => exact absurd named other.1
            | defer => rfl
            | resolve named' => cases named.symm.trans named'
          have last : Last Question.id qs (a.asked lib call) := asked ▸ ⟨[],[],rfl,by simp⟩
          refine ⟨a.asked lib call,last_append.mpr (.inr ⟨last,?_⟩),rfl,cited⟩
          exact fun q' inside same => again ⟨q',inside,same⟩
      · exact ⟨q,last_append.mpr (.inl last),held⟩

theorem questions_cite (played : Played lib call s [] as cs qs) (questions : t.questions = s.questions.upsertAll qs) :
    (∃ q ∈ t.questions, q.isOpen ∧ f ∈ q.sourceFactIds) ↔
      (∃ q ∈ s.questions, q.isOpen ∧ f ∈ q.sourceFactIds ∧ ∀ a ∈ as, ¬(a.defers lib q.id ∨ a.resolves q.id)) ∨
        leavesAsked lib f as := by
  rw [← played.asked,questions]
  have untouched (q : Question) :
      (∀ q' ∈ qs, q'.id ≠ q.id) ↔ ∀ a ∈ as, ¬(a.defers lib q.id ∨ a.resolves q.id) := by
    rw [← not_iff_not]
    push Not
    exact played.asks_ids
  constructor
  · rintro ⟨q,inside,asked,cited⟩
    rcases mem_upsertAll.mp inside with last | ⟨member,others⟩
    · exact .inr ⟨q,last,asked,cited⟩
    · exact .inl ⟨q,member,asked,cited,(untouched q).mp others⟩
  · rintro (⟨q,member,asked,cited,others⟩ | ⟨q,last,asked,cited⟩)
    · exact ⟨q,mem_upsertAll.mpr (.inr ⟨member,(untouched q).mpr others⟩),asked,cited⟩
    · exact ⟨q,mem_upsertAll.mpr (.inl last),asked,cited⟩

theorem mem_links {r : Relation} : r ∈ a.links ↔
    a.action = some .link ∧ r = ⟨a.endpoints,a.targetIds,a.sourceFactIds,a.relation,a.reason⟩ := by
  unfold Action.links
  split <;> simp_all

theorem relations_cite (relations : t.relations = s.relations.upsertAll (as.flatMap Action.links)) :
    (∃ r ∈ t.relations, r.cites f) ↔
      (∃ r ∈ s.relations, r.cites f ∧ ∀ a ∈ as, ¬(a.action = some .link ∧ a.endpoints = r.endpointIds)) ∨
        ∃ a ∈ as, a.action = some .link ∧ EntityId.fact f ∈ a.endpoints := by
  rw [relations]
  constructor
  · rintro ⟨r,inside,cites⟩
    rcases mem_upsertAll.mp inside with last | ⟨member,others⟩
    · obtain ⟨a,given,written⟩ := List.mem_flatMap.mp last.mem
      obtain ⟨named,rfl⟩ := mem_links.mp written
      refine .inr ⟨a,given,named,?_⟩
      rcases cites with source | endpoint
      · simp only [Action.endpoints,List.mem_eraseDups,List.mem_append]
        exact .inl (List.mem_map_of_mem source)
      · exact endpoint
    · refine .inl ⟨r,member,cites,fun a given ⟨named,same⟩ => ?_⟩
      exact others _ (List.mem_flatMap.mpr ⟨a,given,mem_links.mpr ⟨named,rfl⟩⟩) same
  · rintro (⟨r,member,cites,others⟩ | ⟨a,given,named,endpoint⟩)
    · refine ⟨r,mem_upsertAll.mpr (.inr ⟨member,fun r' inside same => ?_⟩),cites⟩
      obtain ⟨a,given,written⟩ := List.mem_flatMap.mp inside
      obtain ⟨named,rfl⟩ := mem_links.mp written
      exact others a given ⟨named,same⟩
    · have written : ∃ r ∈ as.flatMap Action.links, r.endpointIds = a.endpoints :=
        ⟨_,List.mem_flatMap.mpr ⟨a,given,mem_links.mpr ⟨named,rfl⟩⟩,rfl⟩
      obtain ⟨r,last,same⟩ := exists_last written
      exact ⟨r,mem_upsertAll.mpr (.inl last),.inr (same ▸ endpoint)⟩

theorem uncited_iff (unborn : Unborn call s) (ok : applyPlan lib call as s = .ok t)
    (distinct : (planIds lib call [] as).Nodup) : ¬t.cited f ↔ Loses lib s as f := by
  obtain ⟨cs,qs,played,cards,questions,relations⟩ := applyPlan_played unborn ok
  rw [Store.cited,cards_cite unborn played cards distinct,questions_cite played questions,relations_cite relations]
  constructor
  · intro none
    simp only [not_or,not_exists,not_and] at none
    obtain ⟨⟨cards,brought⟩,⟨questions,asked⟩,relations,linked⟩ := none
    refine ⟨?_,brought,?_,asked,?_,linked⟩
    · intro c member active cited
      by_contra untouched
      exact cards c member active cited (fun a given written => untouched ⟨a,given,written⟩)
    · intro q member asked' cited
      by_contra untouched
      exact questions q member asked' cited (fun a given => not_or.mp fun had => untouched ⟨a,given,had⟩)
    · intro r member cites
      by_contra untouched
      exact relations r member cites (fun a given named same => untouched ⟨a,given,named,same⟩)
  · rintro loses ((⟨c,member,active,cited,others⟩ | ⟨a,given,brings⟩) | (⟨q,member,asked,cited,others⟩ | asked) |
      (⟨r,member,cites,others⟩ | ⟨a,given,named,endpoint⟩))
    · obtain ⟨a,given,written⟩ := loses.cards c member active cited
      exact others a given written
    · exact loses.brought a given brings
    · obtain ⟨a,given,had⟩ := loses.questions q member asked cited
      exact others a given had
    · exact loses.asked asked
    · obtain ⟨a,given,had⟩ := loses.relations r member cites
      exact others a given had
    · exact loses.linked a given named endpoint

/-! ### The outputs of a plan -/

variable (lib call busy) in
theorem mem_planIds {o : Output} (given : a ∈ as) (output : o ∈ a.created) :
    ∃ id ∈ planIds lib call busy as, id.runId = call.runId ∧ id.content = lib.strip o.content := by
  induction as generalizing busy with
  | nil => cases given
  | cons b as ih =>
    rcases List.mem_cons.mp given with rfl | later
    · obtain ⟨i,bound,same⟩ := List.mem_iff_getElem.mp output
      have numbered : (o,i) ∈ a.created.zipIdx :=
        List.mem_zipIdx_iff_getElem?.mpr (List.getElem?_eq_some_iff.mpr ⟨bound,same⟩)
      exact ⟨_,List.mem_append_left _ (List.mem_map_of_mem numbered),rfl,rfl⟩
    · obtain ⟨id,made,rest⟩ := ih (b.occupied busy) later
      exact ⟨id,List.mem_append_right _ made,rest⟩

variable (lib call busy as) in
theorem length_planIds : (planIds lib call busy as).length = (as.flatMap Action.created).length := by
  induction as generalizing busy with
  | nil => rfl
  | cons a as ih => simp only [planIds,Action.madeIds,List.length_append,List.length_map,List.length_zipIdx,
      List.flatMap_cons,ih]

theorem own_cards (unborn : Unborn call s) (ok : applyPlan lib call as s = .ok t) :
    (∀ c ∈ t.cards, c.id.runId = call.runId → c.active ∧ c.content = c.id.content) ∧
      ∀ id, (∃ c ∈ t.cards, c.id = id ∧ id.runId = call.runId) ↔ id ∈ planIds lib call [] as := by
  obtain ⟨cs,qs,played,cards,_,_⟩ := applyPlan_played unborn ok
  have made := played.made unborn
  have saved {c : Card} (inside : c ∈ t.cards) (own : c.id.runId = call.runId) : ∃ c₀ ∈ cs, c = c₀.saved := by
    rw [cards] at inside
    rcases mem_saveCards inside with ⟨member,_⟩ | saved
    · exact absurd own (unborn.cards c member)
    · exact saved
  refine ⟨fun c inside own => ?_,fun id => ⟨?_,fun planned => ?_⟩⟩
  · obtain ⟨c₀,member,rfl⟩ := saved inside own
    exact made.2 c₀ member own
  · rintro ⟨c,inside,rfl,own⟩
    obtain ⟨c₀,member,rfl⟩ := saved inside own
    rcases played.ids member with ⟨b,old,same,_⟩ | planned
    · exact absurd own (same ▸ unborn.cards b old)
    · exact planned
  · obtain ⟨c,member,same,inside⟩ := saveCards_last s.cards (made.1 id planned)
    exact ⟨c.saved,cards ▸ inside,same,planIds_run planned⟩

theorem outputs_iff (unborn : Unborn call s) (ok : applyPlan lib call as s = .ok t) :
    (t.cards.filter (fun c => c.id.runId = call.runId)).rows.length = (as.flatMap Action.created).length ↔
      (planIds lib call [] as).Nodup := by
  have own := (own_cards unborn ok).2
  let ids := (t.cards.filter (fun c => c.id.runId = call.runId)).rows.map Card.id
  have same (id : CardId) : id ∈ ids ↔ id ∈ (planIds lib call [] as).dedup := by
    rw [List.mem_dedup,← own id]
    simp only [ids,List.mem_map]
    constructor
    · rintro ⟨c,inside,rfl⟩
      obtain ⟨member,own⟩ := Table.mem_filter.mp inside
      exact ⟨c,member,rfl,of_decide_eq_true own⟩
    · rintro ⟨c,member,rfl,own⟩
      exact ⟨c,Table.mem_filter.mpr ⟨member,decide_eq_true own⟩,rfl⟩
  have length : (t.cards.filter (fun c => c.id.runId = call.runId)).rows.length = (planIds lib call [] as).dedup.length := by
    have perm := (List.perm_ext_iff_of_nodup (Table.keyed _) (List.nodup_dedup _)).mpr same
    exact List.length_map Card.id ▸ perm.length_eq
  rw [length,← length_planIds lib call [] as]
  constructor
  · intro all
    rw [← (List.dedup_sublist _).eq_of_length all]
    exact List.nodup_dedup _
  · intro distinct
    rw [distinct.dedup]

/-- A plan loses no evidence and no output just when it accounts for all of them. -/
theorem plan_loses_nothing_iff (unborn : Unborn call s) (ok : applyPlan lib call as s = .ok t) :
    LosesNothing lib call as s t ↔ Accounts lib call s as := by
  constructor
  · intro nothing
    have distinct := (outputs_iff unborn ok).mp nothing.outputs
    refine ⟨distinct,fun f member active needed loses => ?_⟩
    rcases nothing.evidence f member active needed with cited | retracted
    · exact absurd cited ((uncited_iff unborn ok distinct).mpr loses)
    · exact retracted
  · intro accounts
    refine ⟨fun f member active needed => ?_,fun a given o output => ?_,(outputs_iff unborn ok).mpr accounts.apart⟩
    · by_cases cited : t.cited f.id
      · exact .inl cited
      · exact .inr (accounts.kept f member active needed ((uncited_iff unborn ok accounts.apart).mp cited))
    · have own := own_cards unborn ok
      obtain ⟨id,planned,run,content⟩ := mem_planIds lib call [] given output
      obtain ⟨c,inside,rfl,_⟩ := (own.2 id).mpr planned
      obtain ⟨active,same⟩ := own.1 c inside run
      exact ⟨c,inside,active,same.trans content⟩

end

/-! ### A plan that writes over its own output, and one that merges -/

instance (r : Relation) (f : FactId) : Decidable (r.cites f) := by unfold Relation.cites; infer_instance

instance (s : Store) (f : FactId) : Decidable (s.citedByCard f) := by unfold Store.citedByCard; infer_instance

instance (s : Store) (f : FactId) : Decidable (s.cited f) := by unfold Store.cited; infer_instance

instance (s : Store) (actions : List Action) (f : FactId) : Decidable (s.retracted actions f) := by
  unfold Store.retracted
  infer_instance

instance (lib : Library) (call : PlanCall) (actions : List Action) (s t : Store) :
    Decidable (LosesNothing lib call actions s t) :=
  decidable_of_iff (_ ∧ _ ∧ _) ⟨fun ⟨evidence,contents,outputs⟩ => ⟨evidence,contents,outputs⟩,
    fun nothing => ⟨nothing.evidence,nothing.contents,nothing.outputs⟩⟩

instance (s : Store) (a : Action) (f : FactId) : Decidable (a.brings s f) := by unfold Action.brings; infer_instance

instance (a : Action) (id : QuestionId) : Decidable (a.resolves id) := by unfold Action.resolves; infer_instance

instance (lib : Library) (a : Action) (id : QuestionId) : Decidable (a.defers lib id) := by
  unfold Action.defers
  infer_instance

instance decidableLeavesAsked (lib : Library) (f : FactId) : (as : List Action) → Decidable (leavesAsked lib f as)
  | [] => .isFalse id
  | _::as => have := decidableLeavesAsked lib f as; inferInstanceAs (Decidable (_ ∨ _))

instance (lib : Library) (s : Store) (actions : List Action) (f : FactId) : Decidable (Loses lib s actions f) :=
  have : Decidable (∀ a ∈ actions, ¬a.brings s f) := inferInstance
  have : Decidable (∀ r ∈ s.relations, r.cites f → ∃ a ∈ actions, a.action = some .link ∧ a.endpoints = r.endpointIds) :=
    inferInstance
  have : Decidable (∀ q ∈ s.questions, q.isOpen → f ∈ q.sourceFactIds →
    ∃ a ∈ actions, a.defers lib q.id ∨ a.resolves q.id) := inferInstance
  have : Decidable (∀ c ∈ s.cards, c.active → f ∈ c.sourceFactIds → ∃ a ∈ actions, c ∈ a.writes s) := inferInstance
  decidable_of_iff (_ ∧ _ ∧ _ ∧ _ ∧ _ ∧ _)
    ⟨fun ⟨cards,brought,questions,asked,relations,linked⟩ => ⟨cards,brought,questions,asked,relations,linked⟩,
      fun loses => ⟨loses.cards,loses.brought,loses.questions,loses.asked,loses.relations,loses.linked⟩⟩

instance (lib : Library) (call : PlanCall) (s : Store) (actions : List Action) : Decidable (Accounts lib call s actions) :=
  decidable_of_iff (_ ∧ _) ⟨fun ⟨apart,kept⟩ => ⟨apart,kept⟩,fun accounts => ⟨accounts.apart,accounts.kept⟩⟩

instance (call : PlanCall) (s : Store) : Decidable (Unborn call s) :=
  decidable_of_iff (_ ∧ _) ⟨fun ⟨cards,memories⟩ => ⟨cards,memories⟩,fun unborn => ⟨unborn.cards,unborn.memories⟩⟩

/-- Two new facts, and a run that has seen them. -/
def seenWords : World := start.after asciiLibrary
  [.command (.ingest (word "n1" "a")),.command (.ingest (word "n2" "b")),.begin "r1" 0 10,.snapshot "r1"]

def sameWords : List Action := [creates .stated [wordFact "n1" "a"] "c",creates .stated [wordFact "n2" "b"] "c"]

def wordsCall : PlanCall := ⟨takeSnapshot seenWords.store,"r1",[wordFact "n1" "a",wordFact "n2" "b"],1⟩

def wordsStore : Store := (applyPlan asciiLibrary wordsCall sameWords seenWords.store).toOption.getD seenWords.store

/-- The second card takes the place of the first, and the first fact is cited nowhere. -/
theorem plan_loses_evidence : ∃ es w t, Run (Step asciiLibrary) start es w ∧
    applyPlan asciiLibrary wordsCall sameWords w.store = .ok t ∧
    ¬LosesNothing asciiLibrary wordsCall sameWords w.store t := by
  have run : Run (Step asciiLibrary) start _ seenWords := run_after _ _ _ (by decide +kernel)
  exact ⟨_,_,wordsStore,run,ok_of_isSome _ (by decide +kernel),by decide +kernel⟩

def seenCards : World := start.after asciiLibrary (twoWords statedCards ++ [.begin "r2" 3 10,.snapshot "r2"])

def mergeCards : List Action :=
  [{ action := some .merge, sourceFactIds := [wordFact "n1" "a"], reason := "same", content := "c"
     targetIds := [.card aCard,.card bCard], memoryType := some .semantic }]

def mergeCall : PlanCall := ⟨takeSnapshot seenCards.store,"r2",[],4⟩

def mergedStore : Store := (applyPlan asciiLibrary mergeCall mergeCards seenCards.store).toOption.getD seenCards.store

theorem plan_loses_nothing_merge : LosesNothing asciiLibrary mergeCall mergeCards seenCards.store mergedStore := by
  have ok : applyPlan asciiLibrary mergeCall mergeCards seenCards.store = .ok mergedStore :=
    ok_of_isSome _ (by decide +kernel)
  exact (plan_loses_nothing_iff (by decide +kernel) ok).mpr (by decide +kernel)

end Suixinji.Facts
