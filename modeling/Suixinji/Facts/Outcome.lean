import Suixinji.Facts.Evidence

/-! What a plan makes of each card, read off the plan and the state before it. A
run's own cards are new, and no action targets a card another action did. -/
namespace Suixinji.Facts
open Relational Checked

structure Unborn (call : PlanCall) (s : Store) : Prop where
  cards : ∀ c ∈ s.cards, c.id.runId ≠ call.runId
  memories : ∀ c ∈ call.snapshot.memories, c.id.runId ≠ call.runId

def Store.targetCards (s : Store) (a : Action) : List Card :=
  a.targetIds.filterMap (fun ident => ident.card?.bind (s.cards.find? ·))

/-- The evidence of each card that an action writes. -/
def Action.groups (s : Store) (a : Action) : List (List FactId) :=
  match a.action with
  | none => []
  | some .addEvidence => (s.targetCards a).map (fun c => (c.sourceFactIds ++ a.sourceFactIds).eraseDups)
  | some tool =>
    if tool.derives then
      (a.outputsOf tool).map (fun o => evidenceIds tool (s.targetCards a) (o.sourceFactIds.getD a.sourceFactIds))
    else []

/-- A point of a plan on `s` at which the actions have had the targets `busy`. -/
structure Midway (call : PlanCall) (s : Store) (busy : List EntityId) (t : Store) : Prop where
  kept : Kept s t
  active : ∀ id, .card id ∈ busy → ∃ c ∈ s.cards, c.id = id ∧ c.active
  elsewhere : ∀ c : Card, .card c.id ∉ busy → c.id.runId ≠ call.runId → (c ∈ t.cards ↔ c ∈ s.cards)

/-- `_save_card` for each card in turn. -/
def saveCards (cards : Table Card.id) (cs : List Card) : Table Card.id := cs.foldl (fun t c => t.upsert c.saved) cards

def Card.ended (status : CardStatus) (c : Card) : Card := { c with status }

inductive Saves (lib : Library) (call : PlanCall) (s : Store) (a : Action) (touched : Nat) : List Card → Prop
  | nothing {tool : Tool} (named : a.action = some tool)
      (quiet : tool = .link ∨ tool = .defer ∨ tool = .resolveReference) : Saves lib call s a touched []
  | retract (named : a.action = some .retract) :
      Saves lib call s a touched ((s.targetCards a).map (Card.ended .retracted))
  | addEvidence {cs : List Card} (named : a.action = some .addEvidence)
      (extended : List.Forall₂ (Extended lib a s) (s.targetCards a) cs) : Saves lib call s a touched cs
  | derive {tool : Tool} {ws : List Card} (named : a.action = some tool) (derives : tool.derives)
      (other : tool ≠ .addEvidence) (enough : a.outputsOf tool ≠ [])
      (written : List.Forall₂ (fun o c => Written lib call tool a (s.targetCards a) touched s o.1 o.2 c)
        (a.outputsOf tool).zipIdx ws) :
      Saves lib call s a touched (ws ++ (retiredBy tool (s.targetCards a)).map (Card.ended .superseded))

section
variable {lib : Library} {call : PlanCall} {edited : List Card} {d d' : Draft} {a : Action} {tool : Tool}
  {selected : List Card} {s t u : Store} {busy : List EntityId}

theorem mem_targetCards {c : Card} : c ∈ s.targetCards a ↔ c ∈ s.cards ∧ .card c.id ∈ a.targetIds := by
  simp only [Store.targetCards,List.mem_filterMap]
  constructor
  · rintro ⟨ident,target,found⟩
    cases ident with
    | fact f => cases found
    | card id =>
      obtain ⟨member,rfl⟩ := Table.find?_eq_some.mp found
      exact ⟨member,target⟩
  · rintro ⟨member,target⟩
    exact ⟨.card c.id,target,Table.find?_mem member⟩

theorem targetCards_eq (targets : a.targetIds = selected.map (fun c => .card c.id)) (old : ∀ c ∈ selected, c ∈ s.cards) :
    s.targetCards a = selected := by
  rw [Store.targetCards,targets,List.filterMap_map]
  clear targets
  induction selected with
  | nil => rfl
  | cons c selected ih =>
    have found : (EntityId.card c.id).card?.bind (s.cards.find? ·) = some c := Table.find?_mem (old c (by simp))
    simp only [List.filterMap_cons,Function.comp_apply,found]
    exact congrArg (c :: ·) (ih (fun c' later => old c' (by simp [later])))

theorem Kept.scopeOf (kept : Kept s t) {ids : List FactId} {scope : Scope} (ok : t.scopeOf ids = .ok scope) :
    s.scopeOf ids = .ok scope := by
  rw [← ok]
  refine (scopeOf_carried ?_).symm
  simp only [Store.scopeOf,bind_ok] at ok
  obtain ⟨rows,found,_⟩ := ok
  intro f member
  obtain ⟨g,_,same⟩ := (mapM_ok found).1 f member
  obtain ⟨there,rfl⟩ := Table.find?_eq_some.mp (demand_ok.mp same)
  rcases kept.origin g there with ⟨fact,inside,id,_,scope⟩ | never
  · exact ⟨fact,inside,g,there,id.symm,rfl,scope⟩
  · exact never.elim

theorem mem_saveCards {cards : Table Card.id} {cs : List Card} {c : Card} (inside : c ∈ saveCards cards cs) :
    (c ∈ cards ∧ ∀ c' ∈ cs, c'.id ≠ c.id) ∨ ∃ c' ∈ cs, c = c'.saved := by
  induction cs generalizing cards with
  | nil => exact .inl ⟨inside,by simp⟩
  | cons c₁ cs ih =>
    rcases ih inside with ⟨member,apart⟩ | ⟨c',later,same⟩
    · rcases Table.mem_upsert.mp member with rfl | ⟨old,other⟩
      · exact .inr ⟨c₁,by simp,rfl⟩
      · refine .inl ⟨old,?_⟩
        intro c' inside'
        rcases List.mem_cons.mp inside' with rfl | later
        · exact fun same => other same.symm
        · exact apart c' later
    · exact .inr ⟨c',by simp [later],same⟩

theorem saveCards_other {cards : Table Card.id} {cs : List Card} {c : Card} (apart : ∀ c' ∈ cs, c'.id ≠ c.id) :
    c ∈ saveCards cards cs ↔ c ∈ cards := by
  induction cs generalizing cards with
  | nil => exact Iff.rfl
  | cons c₁ cs ih =>
    refine (ih (fun c' later => apart c' (by simp [later]))).trans ?_
    rw [Table.mem_upsert]
    constructor
    · rintro (rfl | ⟨member,_⟩)
      · exact absurd rfl (apart c₁ (by simp))
      · exact member
    · exact fun member => .inr ⟨member,fun same => apart c₁ (by simp) same.symm⟩

theorem saveCards_last (cards : Table Card.id) {cs : List Card} {id : CardId} (named : ∃ c ∈ cs, c.id = id) :
    ∃ c ∈ cs, c.id = id ∧ c.saved ∈ saveCards cards cs := by
  induction cs generalizing cards with
  | nil => obtain ⟨_,member,_⟩ := named; cases member
  | cons c₁ cs ih =>
    by_cases later : ∃ c ∈ cs, c.id = id
    · obtain ⟨c,inside,same,there⟩ := ih (cards.upsert c₁.saved) later
      exact ⟨c,by simp [inside],same,there⟩
    · obtain ⟨c,inside,same⟩ := named
      rcases List.mem_cons.mp inside with rfl | inside
      · refine ⟨c,by simp,same,?_⟩
        change c.saved ∈ saveCards (cards.upsert c.saved) cs
        refine (saveCards_other ?_).mpr (Table.mem_upsert.mpr (.inl rfl))
        exact fun c' inside' same' => later ⟨c',inside',same'.trans same⟩
      · exact absurd ⟨c,inside,same⟩ later

theorem saveCards_append (cards : Table Card.id) (cs cs' : List Card) :
    saveCards cards (cs ++ cs') = saveCards (saveCards cards cs) cs' := List.foldl_append

theorem cards_foldl_saveCard (cs : List Card) (s : Store) :
    (cs.foldl Store.saveCard s).cards = saveCards s.cards cs := by
  induction cs generalizing s with
  | nil => rfl
  | cons c cs ih => exact ih (s.saveCard c)

theorem endCards_eq (status : CardStatus) (s : Store) (cs : List Card) :
    endCards status s cs = (cs.map (Card.ended status)).foldl Store.saveCard s := by
  rw [endCards,List.foldl_map]
  rfl

theorem saves_of_foldlM {ι : Type} (P : Store → Prop) {R : ι → Card → Prop} {step : Store → ι → Except String Store}
    {items : List ι} (round : ∀ item ∈ items, ∀ s t, P s → step s item = .ok t → ∃ c, t = s.saveCard c ∧ R item c ∧ P t)
    (run : items.foldlM step s = .ok t) (initial : P s) :
    ∃ cs, List.Forall₂ R items cs ∧ t = cs.foldl Store.saveCard s ∧ P t := by
  induction items generalizing s with
  | nil =>
    cases run
    exact ⟨[],.nil,rfl,initial⟩
  | cons item items ih =>
    rw [List.foldlM_cons] at run
    obtain ⟨u,head,tail⟩ := bind_ok.mp run
    obtain ⟨c,rfl,made,so_far⟩ := round item (by simp) s u initial head
    obtain ⟨cs,rest,last,done⟩ := ih (fun item' later => round item' (by simp [later])) tail so_far
    exact ⟨c::cs,.cons made rest,last,done⟩

namespace Midway

theorem saveCard {c : Card} (midway : Midway call s busy t) (known : .card c.id ∈ busy ∨ c.id.runId = call.runId) :
    Midway call s busy (t.saveCard c) where
  kept := midway.kept.trans (saveCard_kept t c)
  active := midway.active
  elsewhere c' outside born := by
    have other : c'.id ≠ c.id := by
      rintro same
      rcases known with member | run
      · exact outside (same ▸ member)
      · exact born (same ▸ run)
    rw [mem_saveCard,← midway.elsewhere c' outside born]
    constructor
    · rintro (rfl | ⟨member,_⟩)
      · exact absurd rfl other
      · exact member
    · exact fun member => .inr ⟨member,other⟩

theorem saveCards {cs : List Card} (midway : Midway call s busy t)
    (known : ∀ c ∈ cs, .card c.id ∈ busy ∨ c.id.runId = call.runId) : Midway call s busy (cs.foldl Store.saveCard t) := by
  induction cs generalizing t with
  | nil => exact midway
  | cons c cs ih => exact ih (midway.saveCard (known c (by simp))) (fun c' later => known c' (by simp [later]))

theorem settled {c : Card} (midway : Midway call s busy t) (unborn : Unborn call s) (member : c ∈ s.cards)
    (past : c.active = false) : c ∈ t.cards := by
  refine (midway.elsewhere c ?_ (unborn.cards c member)).mpr member
  intro taken
  obtain ⟨c',member',same,active⟩ := midway.active c.id taken
  rw [s.cards.unique member' member same,past] at active
  cases active

theorem unrejected {ids : List FactId} (midway : Midway call s busy t) (unborn : Unborn call s)
    (clear : t.rejects ids = false) : s.rejects ids = false := by
  cases hit : s.rejects ids with
  | false => rfl
  | true =>
    simp only [Store.rejects,List.any_eq_true,Bool.and_eq_true,decide_eq_true_eq] at hit
    obtain ⟨c,member,rejected,covers⟩ := hit
    have there := midway.settled unborn member (by simp [Card.active,rejected])
    have also : t.rejects ids = true := by
      simp only [Store.rejects,List.any_eq_true,Bool.and_eq_true,decide_eq_true_eq]
      exact ⟨c,there,rejected,covers⟩
    rw [clear] at also
    cases also

theorem selected_old (midway : Midway call s d.touched d.store) (unborn : Unborn call s)
    (selects : Selects call d tool a selected) : ∀ c ∈ selected, c ∈ s.cards := by
  intro c chosen
  obtain ⟨old,known,same⟩ := selects.known c chosen
  exact (midway.elsewhere c (selects.untouched c chosen) (same ▸ unborn.memories old known)).mp
    (selects.stored c chosen).1

end Midway

theorem Midway.select (midway : Midway call s d.touched d.store) (unborn : Unborn call s)
    (selects : Selects call d tool a selected) : Midway call s (a.targetIds ∪ d.touched) d.store where
  kept := midway.kept
  active id taken := by
    rcases List.mem_union_iff.mp taken with target | before
    · rw [selects.targets] at target
      obtain ⟨c,chosen,same⟩ := List.mem_map.mp target
      exact ⟨c,midway.selected_old unborn selects c chosen,EntityId.card.inj same,(selects.stored c chosen).2⟩
    · exact midway.active id before
  elsewhere c outside born :=
    midway.elsewhere c (fun before => outside (List.mem_union_iff.mpr (.inr before))) born

theorem applyAction_saves (midway : Midway call s d.touched d.store) (unborn : Unborn call s)
    (ok : applyAction lib call edited d a = .ok d') :
    ∃ cs, Saves lib call s a d.touched.length cs ∧ d'.store.cards = saveCards d.store.cards cs ∧
      Midway call s d'.touched d'.store := by
  obtain ⟨tool,admitted,⟨rfl,linked⟩ | ⟨notLink,selected,selects,performed,touched⟩⟩ := applyAction_ok ok
  · rw [linkAction_ok linked]
    exact ⟨[],.nothing admitted.named (.inl rfl),rfl,midway.kept,midway.active,midway.elsewhere⟩
  have old := midway.selected_old unborn selects
  have ready := midway.select unborn selects
  have known (c : Card) (chosen : c ∈ selected) : EntityId.card c.id ∈ a.targetIds ∪ d.touched := by
    rw [List.mem_union_iff,selects.targets]
    exact .inl (List.mem_map.mpr ⟨c,chosen,rfl⟩)
  obtain rfl : s.targetCards a = selected := targetCards_eq selects.targets old
  rw [touched]
  have derived (derives : tool.derives) (other : tool ≠ .addEvidence)
      (run : deriveCards lib call tool a (s.targetCards a) d.touched.length d.store = .ok d'.store) :
      ∃ cs, Saves lib call s a d.touched.length cs ∧ d'.store.cards = saveCards d.store.cards cs ∧
        Midway call s (a.targetIds ∪ d.touched) d'.store := by
    obtain ⟨⟨enough,_⟩,u,outputs,last⟩ := deriveCards_ok run
    obtain ⟨ws,written,rfl,done⟩ := saves_of_foldlM (Midway call s (a.targetIds ∪ d.touched))
      (R := fun o c => Written lib call tool a (s.targetCards a) d.touched.length s o.1 o.2 c) (by
        rintro ⟨output,index⟩ _ s₁ s₂ before step
        obtain ⟨c,rfl,written⟩ := writeOutput_ok step
        have scope := before.kept.scopeOf written.scope
        have unrejected := fun inferred => before.unrejected unborn (written.unrejected inferred)
        refine ⟨c,rfl,{ written with scope, unrejected },before.saveCard ?_⟩
        have id := written.id
        cases base : baseOf tool (s.targetCards a) with
        | none => exact .inr (by rw [id,base]; rfl)
        | some b => exact .inl (by rw [id,base]; exact known b (baseOf_mem base)))
      outputs ready
    rw [last,endCards_eq]
    refine ⟨_,.derive admitted.named derives other enough written,?_,done.saveCards ?_⟩
    · rw [cards_foldl_saveCard,cards_foldl_saveCard,saveCards_append]
    · intro c inside
      obtain ⟨c₀,chosen,rfl⟩ := List.mem_map.mp inside
      exact .inl (known c₀ (retiredBy_subset c₀ chosen))
  cases tool with
  | link => exact absurd rfl notLink
  | defer =>
    simp only [perform,deferAction,bind_ok,require_ok,pure,Except.pure,Except.ok.injEq] at performed
    obtain ⟨_,_,stored⟩ := performed
    rw [← stored]
    exact ⟨[],.nothing admitted.named (.inr (.inl rfl)),rfl,ready.kept,ready.active,ready.elsewhere⟩
  | resolveReference =>
    have same : d'.store.cards = d.store.cards := by
      simp only [perform,resolveReference,bind_ok,require_ok] at performed
      obtain ⟨_,_,u,facts,questions⟩ := performed
      refine foldlM_invariant (fun t : Store => t.cards = d.store.cards) ?_ questions
        (foldlM_invariant (fun t : Store => t.cards = d.store.cards) ?_ facts rfl)
      · rintro ident _ s₁ s₂ before step
        simp only [resolveQuestion,bind_ok,demand_ok,require_ok,pure,Except.pure,Except.ok.injEq] at step
        obtain ⟨q,_,_,_,rfl⟩ := step
        exact before
      · rintro ident _ s₁ s₂ before step
        simp only [resolveFact,bind_ok,demand_ok,require_ok,pure,Except.pure,Except.ok.injEq] at step
        obtain ⟨_,_,f,_,rfl⟩ := step
        exact before
    have kept := (Onward.resolveReference (.refl d.store) performed).kept
    refine ⟨[],.nothing admitted.named (.inr (.inr rfl)),same,ready.kept.trans kept,ready.active,?_⟩
    rw [same]
    exact ready.elsewhere
  | retract =>
    rw [← Except.ok.inj performed,endCards_eq]
    refine ⟨_,.retract admitted.named,cards_foldl_saveCard _ _,ready.saveCards ?_⟩
    intro c inside
    obtain ⟨c₀,chosen,rfl⟩ := List.mem_map.mp inside
    exact .inl (known c₀ chosen)
  | addEvidence =>
    obtain ⟨cs,made,last,done⟩ := saves_of_foldlM (Midway call s (a.targetIds ∪ d.touched))
      (R := fun old c => old ∈ s.targetCards a ∧ Extended lib a s old c) (by
        intro old chosen s₁ s₂ before step
        obtain ⟨c,rfl,extended⟩ := addEvidence_ok step
        have scope := before.kept.scopeOf extended.scope
        exact ⟨c,rfl,⟨chosen,{ extended with scope }⟩,before.saveCard (.inl (extended.id ▸ known old chosen))⟩)
      performed ready
    refine ⟨cs,.addEvidence admitted.named (made.imp fun _ _ => And.right),?_,done⟩
    rw [last,cards_foldl_saveCard]
  | create => exact derived rfl (by simp) performed
  | revise => exact derived rfl (by simp) performed
  | merge => exact derived rfl (by simp) performed
  | split => exact derived rfl (by simp) performed

/-- The targets of an action that is no link: active, not had before, and locked
only where evidence is added. -/
theorem applyAction_targets (midway : Midway call s d.touched d.store) (unborn : Unborn call s)
    (ok : applyAction lib call edited d a = .ok d') (other : a.action ≠ some .link) :
    d'.touched = a.targetIds ∪ d.touched ∧ ∀ b ∈ s.targetCards a, b.active ∧ EntityId.card b.id ∉ d.touched ∧
      (b.userLocked → a.action = some .addEvidence) := by
  obtain ⟨tool,admitted,⟨rfl,_⟩ | ⟨_,selected,selects,_,touched⟩⟩ := applyAction_ok ok
  · exact absurd admitted.named other
  obtain rfl : s.targetCards a = selected := targetCards_eq selects.targets (midway.selected_old unborn selects)
  refine ⟨touched,fun b chosen => ⟨(selects.stored b chosen).2,selects.untouched b chosen,fun locked => ?_⟩⟩
  rw [admitted.named,selects.unlocked b chosen locked]

theorem Saves.known {touched : Nat} {cs : List Card} (saves : Saves lib call s a touched cs) {c : Card} (member : c ∈ cs) :
    (∃ b ∈ s.targetCards a, b.id = c.id) ∨ c.id.runId = call.runId := by
  cases saves with
  | nothing => cases member
  | retract =>
    obtain ⟨b,chosen,rfl⟩ := List.mem_map.mp member
    exact .inl ⟨b,chosen,rfl⟩
  | addEvidence _ extended =>
    obtain ⟨b,chosen,made⟩ := exists_left extended member
    exact .inl ⟨b,chosen,made.id.symm⟩
  | derive _ _ _ _ written =>
    rcases List.mem_append.mp member with inside | inside
    · obtain ⟨_,_,made⟩ := exists_left written inside
      have id := made.id
      cases base : baseOf _ (s.targetCards a) with
      | none => exact .inr (by rw [id,base]; rfl)
      | some b => exact .inl ⟨b,baseOf_mem base,by rw [id,base]; rfl⟩
    · obtain ⟨b,chosen,rfl⟩ := List.mem_map.mp inside
      exact .inl ⟨b,retiredBy_subset b chosen,rfl⟩

/-- What every action of an accepted plan has passed, against the state before the plan. -/
structure Passed (s : Store) (a : Action) (tool : Tool) : Prop where
  named : a.action = some tool
  shielded : tool.derives → a.protectedBy s.edited = [] ∨
    (tool = .addEvidence ∧ a.targetIds ≠ [] ∧ ∀ t ∈ a.targetIds, t ∈ (a.protectedBy s.edited).map (fun c => .card c.id))
  targets : tool ≠ .link → ∀ b ∈ s.targetCards a, b.active ∧ (b.userLocked → tool = .addEvidence)

def SavedBy (lib : Library) (call : PlanCall) (s : Store) (actions : List Action) (c : Card) : Prop :=
  ∃ a ∈ actions, ∃ tool touched cs, Passed s a tool ∧ Saves lib call s a touched cs ∧ c ∈ cs

theorem midway_start (call : PlanCall) (s : Store) : Midway call s [] s :=
  ⟨.of_eq rfl,fun _ never => absurd never List.not_mem_nil,fun _ _ _ => Iff.rfl⟩

theorem applyPlan_midway {actions : List Action} (unborn : Unborn call s) (ok : applyPlan lib call actions s = .ok t) :
    ∃ busy, Midway call s busy t := by
  obtain ⟨_,d,run,rfl⟩ := applyPlan_ok ok
  have reached := foldlM_invariant (fun d : Draft => Midway call s d.touched d.store)
    (fun _ _ _ _ midway step => (applyAction_saves midway unborn step).choose_spec.2.2) run (midway_start call s)
  exact ⟨d.touched,reached.kept.trans (markProcessed_kept _ _ _),reached.active,reached.elsewhere⟩

theorem applyPlan_cards {actions : List Action} (unborn : Unborn call s) (ok : applyPlan lib call actions s = .ok t) :
    ∀ c ∈ t.cards, c ∈ s.cards ∨ ∃ c₀, SavedBy lib call s actions c₀ ∧ c = c₀.saved := by
  obtain ⟨_,d,run,rfl⟩ := applyPlan_ok ok
  have reached := foldlM_invariant
    (fun d : Draft => Midway call s d.touched d.store ∧
      ∀ c ∈ d.store.cards, c ∈ s.cards ∨ ∃ c₀, SavedBy lib call s actions c₀ ∧ c = c₀.saved)
    (by
      rintro a given d₁ d₂ ⟨midway,so_far⟩ step
      obtain ⟨cs,saves,cards,after⟩ := applyAction_saves midway unborn step
      refine ⟨after,?_⟩
      intro c inside
      rw [cards] at inside
      rcases mem_saveCards inside with ⟨member,_⟩ | ⟨c₀,member,rfl⟩
      · exact so_far c member
      · obtain ⟨tool,admitted,_⟩ := applyAction_ok step
        refine .inr ⟨c₀,⟨a,given,tool,_,cs,⟨admitted.named,admitted.shielded,fun other => ?_⟩,saves,member⟩,rfl⟩
        intro b chosen
        have notLink : a.action ≠ some .link := fun link => other (Option.some.inj (admitted.named.symm.trans link))
        obtain ⟨active,_,locked⟩ := (applyAction_targets midway unborn step notLink).2 b chosen
        exact ⟨active,fun yes => Option.some.inj (admitted.named.symm.trans (locked yes))⟩)
    run ⟨midway_start call s,fun c member => .inl member⟩
  exact reached.2

end

end Suixinji.Facts
