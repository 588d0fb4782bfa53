import Suixinji.Relational.Evolution
import Suixinji.Facts.System

/-! What each transaction of fact memory does, once for each function: the facts
it keeps, the cards it ends, and what an accepted plan has passed. -/
namespace Suixinji.Facts
open Relational Checked

/-- No fact is new, ends, comes back or changes its scope. -/
def Kept (s t : Store) : Prop :=
  Table.Evolves (fun f g => g.status = f.status ∧ g.scope = f.scope) (fun _ => False) s.facts t.facts

namespace Kept
variable {s t u : Store}

theorem of_eq (same : t.facts = s.facts) : Kept s t := by
  rw [Kept,same]
  exact .refl (fun _ _ => ⟨rfl,rfl⟩)

theorem trans (first : Kept s t) (second : Kept t u) : Kept s u :=
  Table.Evolves.trans first second (fun a b => ⟨b.1.trans a.1,b.2.trans a.2⟩) (fun _ never _ => never)

theorem of_updateWhere {p : Fact → Bool} {change : Fact → Fact} (ids : ∀ f, (change f).id = f.id)
    (facts : t.facts = s.facts.updateWhere p change ids)
    (same : ∀ f, (change f).status = f.status ∧ (change f).scope = f.scope) : Kept s t := by
  rw [Kept,facts]
  exact .of_updateWhere rfl (fun f _ _ => ⟨ids f,same f⟩) (fun _ _ _ => ⟨rfl,rfl⟩)

theorem of_putFact {f g : Fact} (there : f ∈ s.facts) (id : g.id = f.id) (status : g.status = f.status)
    (scope : g.scope = f.scope) : Kept s (s.putFact g) := by
  constructor
  · intro r member
    by_cases same : r.id = g.id
    · cases s.facts.unique member there (same.trans id)
      exact ⟨g,Table.mem_upsert.mpr (.inl rfl),id,status,scope⟩
    · exact ⟨r,Table.mem_upsert.mpr (.inr ⟨member,same⟩),rfl,rfl,rfl⟩
  · intro r inside
    rcases Table.mem_upsert.mp inside with rfl | ⟨member,_⟩
    · exact .inl ⟨f,there,id,status,scope⟩
    · exact .inl ⟨r,member,rfl,rfl,rfl⟩

end Kept

theorem saveCard_kept (s : Store) (c : Card) : Kept s (s.saveCard c) := .of_eq rfl

theorem mem_saveCard {s : Store} {c c' : Card} :
    c' ∈ (s.saveCard c).cards ↔ c' = c.saved ∨ (c' ∈ s.cards ∧ c'.id ≠ c.id) := Table.mem_upsert

section
variable {s : Store} {hit : Card → Bool} {gone : List FactId} {how : Card → CardStatus}

theorem retire_kept : Kept s (s.retire hit gone how) :=
  .of_updateWhere (by exact fun _ => rfl) rfl (fun _ => ⟨rfl,rfl⟩)

theorem mem_retire {c : Card} : c ∈ (s.retire hit gone how).cards ↔
    ∃ old ∈ s.cards, (if old.active && hit old then { old with status := how old }.saved else old) = c :=
  List.mem_map

theorem retire_active (ends : ∀ c, how c ≠ .active) {c : Card} (member : c ∈ (s.retire hit gone how).cards)
    (active : c.active) : c ∈ s.cards ∧ hit c = false := by
  obtain ⟨old,inside,same⟩ := mem_retire.mp member
  split at same
  · cases same
    exact absurd (of_decide_eq_true active) (ends old)
  · rename_i spared
    cases same
    exact ⟨inside,by simpa [active] using spared⟩

end

/-- What an action has passed before it does anything. -/
structure Admitted (call : PlanCall) (edited : List Card) (s : Store) (tool : Tool) (a : Action) : Prop where
  named : a.action = some tool
  sources : a.sourceFactIds ≠ []
  intact : ∀ f ∈ a.sourceFactIds, call.intact s f
  shielded : tool.derives → a.protectedBy edited = [] ∨
    (tool = .addEvidence ∧ a.targetIds ≠ [] ∧ ∀ t ∈ a.targetIds, t ∈ (a.protectedBy edited).map (fun c => .card c.id))

structure Selects (call : PlanCall) (d : Draft) (tool : Tool) (a : Action) (selected : List Card) : Prop where
  targets : a.targetIds = selected.map (fun c => .card c.id)
  untouched : ∀ c ∈ selected, .card c.id ∉ d.touched
  stored : ∀ c ∈ selected, c ∈ d.store.cards ∧ c.active
  known : ∀ c ∈ selected, ∃ old ∈ call.snapshot.memories, old.id = c.id
  unlocked : ∀ c ∈ selected, c.userLocked → tool = .addEvidence
  some_ : tool ∈ [Tool.create,.defer,.resolveReference] ∨ selected ≠ []
  two : tool = .merge → 2 ≤ selected.length

variable {lib : Library} {call : PlanCall} {edited : List Card} {d d' : Draft} {a : Action} {tool : Tool}

theorem selectTarget_ok {ident : EntityId} {c : Card} (ok : selectTarget call d tool ident = .ok c) :
    ident ∉ d.touched ∧ ident = .card c.id ∧ (∃ old ∈ call.snapshot.memories, old.id = c.id) ∧
      c ∈ d.store.cards ∧ c.active ∧ (c.userLocked → tool = .addEvidence) := by
  simp only [selectTarget,bind_ok,require_ok,demand_ok,pure,Except.pure,Except.ok.injEq] at ok
  obtain ⟨_,untouched,id,named,old,seen,current,found,_,⟨active,_⟩,_,unlocked,rfl⟩ := ok
  obtain ⟨member,same⟩ := Table.find?_eq_some.mp found
  obtain ⟨known,same'⟩ := Table.find?_eq_some.mp seen
  have card : ident = .card id := by
    cases ident with
    | fact f => cases named
    | card id' => exact congrArg EntityId.card (Option.some.inj named)
  exact ⟨untouched,same ▸ card,⟨old,known,same'.trans same.symm⟩,member,active,unlocked⟩

theorem selects {selected : List Card} (ok : a.targetIds.mapM (selectTarget call d tool) = .ok selected)
    (checked : checkSelected tool selected = .ok ()) : Selects call d tool a selected := by
  have each : ∀ c ∈ selected, ∃ ident, selectTarget call d tool ident = .ok c := fun c member =>
    have ⟨ident,_,same⟩ := (mapM_ok ok).2 c member
    ⟨ident,same⟩
  simp only [checkSelected,bind_ok,require_ok] at checked
  obtain ⟨_,some_,_,two,_⟩ := checked
  constructor
  · exact (map_of_mapM (fun ident c same => (selectTarget_ok same).2.1.symm) ok).symm
  · intro c member
    obtain ⟨ident,same⟩ := each c member
    exact (selectTarget_ok same).2.1 ▸ (selectTarget_ok same).1
  · intro c member
    obtain ⟨ident,same⟩ := each c member
    exact ⟨(selectTarget_ok same).2.2.2.1,(selectTarget_ok same).2.2.2.2.1⟩
  · intro c member
    obtain ⟨ident,same⟩ := each c member
    exact (selectTarget_ok same).2.2.1
  · intro c member
    obtain ⟨ident,same⟩ := each c member
    exact (selectTarget_ok same).2.2.2.2.2
  · exact some_
  · exact two

theorem applyAction_ok (ok : applyAction lib call edited d a = .ok d') :
    ∃ tool, Admitted call edited d.store tool a ∧
      ((tool = .link ∧ linkAction call d a = .ok d') ∨
        (tool ≠ .link ∧ ∃ selected, Selects call d tool a selected ∧
          perform lib call tool a selected d = .ok d'.store ∧ d'.touched = a.targetIds ∪ d.touched)) := by
  simp only [applyAction,bind_ok,demand_ok] at ok
  obtain ⟨tool,named,_,evidence,_,shielded,rest⟩ := ok
  simp only [checkEvidence,bind_ok,require_ok] at evidence
  simp only [checkProtected,require_ok] at shielded
  obtain ⟨_,⟨sources,_,_⟩,intact⟩ := evidence
  refine ⟨tool,⟨named,sources,intact,shielded⟩,?_⟩
  split at rest
  · rename_i link
    exact .inl ⟨link,rest⟩
  · rename_i other
    simp only [bind_ok,pure,Except.pure,Except.ok.injEq] at rest
    obtain ⟨selected,chosen,_,checked,store,performed,rfl⟩ := rest
    exact .inr ⟨other,selected,selects chosen checked,performed,rfl⟩

theorem linkAction_ok (ok : linkAction call d a = .ok d') :
    d' = { d with store := { d.store with
      relations := d.store.relations.upsert ⟨a.endpoints,a.targetIds,a.sourceFactIds,a.relation,a.reason⟩ } } := by
  simp only [linkAction,bind_ok,pure,Except.pure,Except.ok.injEq] at ok
  obtain ⟨_,_,_,_,rfl⟩ := ok
  rfl

theorem mem_evidenceIds {selected : List Card} {outputSources : List FactId} {f : FactId} :
    f ∈ evidenceIds tool selected outputSources ↔ f ∈ outputSources ∨
      (∃ b, baseOf tool selected = some b ∧ f ∈ b.sourceFactIds) ∨
      (tool = .merge ∧ ∃ c ∈ selected, f ∈ c.sourceFactIds) := by
  have base : f ∈ (baseOf tool selected).elim [] Card.sourceFactIds ↔
      ∃ b, baseOf tool selected = some b ∧ f ∈ b.sourceFactIds := by
    cases baseOf tool selected <;> simp
  unfold evidenceIds
  split
  · rename_i merge
    simp only [List.mem_eraseDups,List.mem_append,List.mem_flatMap,base,and_iff_right merge]
    rw [or_comm (b := f ∈ outputSources),or_assoc]
  · rename_i other
    simp only [List.mem_eraseDups,List.mem_append,base,other,false_and,or_false]
    exact or_comm

structure Written (lib : Library) (call : PlanCall) (tool : Tool) (a : Action) (selected : List Card) (touched : Nat)
    (s : Store) (output : Output) (index : Nat) (c : Card) : Prop where
  content : c.content = lib.strip output.content
  id : c.id = (baseOf tool selected).elim ⟨call.runId,touched,index,c.content⟩ Card.id
  active : c.active
  sources : c.sourceFactIds = evidenceIds tool selected (output.sourceFactIds.getD a.sourceFactIds)
  within : output.sourceFactIds.getD a.sourceFactIds ≠ [] ∧
    ∀ f ∈ output.sourceFactIds.getD a.sourceFactIds, f ∈ a.sourceFactIds
  scope : s.scopeOf c.sourceFactIds = .ok c.scope
  unrejected : c.assertionKind = .inferred → s.rejects c.sourceFactIds = false
  unedited : c.reviewStatus ≠ .edited
  locked : c.userLocked = (baseOf tool selected).elim false Card.userLocked

theorem writeOutput_ok {selected : List Card} {touched index : Nat} {s t : Store} {output : Output}
    (ok : writeOutput lib call tool a selected touched s (output,index) = .ok t) :
    ∃ c, t = s.saveCard c ∧ Written lib call tool a selected touched s output index c := by
  simp only [writeOutput,bind_ok,require_ok,demand_ok,pure,Except.pure,Except.ok.injEq] at ok
  obtain ⟨_,_,memoryType,_,kind,_,_,within,_,_,_,_,_,unrejected,scope,made,rfl⟩ := ok
  refine ⟨_,rfl,⟨rfl,rfl,rfl,rfl,within,made,unrejected,?_,rfl⟩⟩
  dsimp only
  split <;> simp

/-- The card that more evidence leaves. -/
structure Extended (lib : Library) (a : Action) (s : Store) (card c : Card) : Prop where
  id : c.id = card.id
  status : c.status = card.status
  kind : c.assertionKind = card.assertionKind
  sources : c.sourceFactIds = (card.sourceFactIds ++ a.sourceFactIds).eraseDups
  scope : s.scopeOf c.sourceFactIds = .ok c.scope
  review : c.reviewStatus = card.reviewStatus
  locked : c.userLocked = card.userLocked
  content : card.userLocked → c.content = card.content

theorem addEvidence_ok {s t : Store} {card : Card} (ok : addEvidence lib a s card = .ok t) :
    ∃ c, t = s.saveCard c ∧ Extended lib a s card c := by
  simp only [addEvidence,bind_ok,require_ok,pure,Except.pure,Except.ok.injEq] at ok
  obtain ⟨scope,made,_,free,rfl⟩ := ok
  refine ⟨_,rfl,⟨rfl,rfl,rfl,rfl,made,rfl,rfl,?_⟩⟩
  intro locked
  dsimp only
  split
  · rename_i rewrites
    rw [free rewrites] at locked
    cases locked
  · rfl

theorem deriveCards_ok {selected : List Card} {touched : Nat} {s t : Store}
    (ok : deriveCards lib call tool a selected touched s = .ok t) :
    (a.outputsOf tool ≠ [] ∧ (tool = .split → 2 ≤ (a.outputsOf tool).length)) ∧
      ∃ u, (a.outputsOf tool).zipIdx.foldlM (writeOutput lib call tool a selected touched) s = .ok u ∧
        t = endCards .superseded u (retiredBy tool selected) := by
  simp only [deriveCards,bind_ok,require_ok,pure,Except.pure,Except.ok.injEq] at ok
  obtain ⟨_,enough,_,_,u,written,rfl⟩ := ok
  exact ⟨enough,u,written,rfl⟩

theorem retiredBy_subset {selected : List Card} : ∀ c ∈ retiredBy tool selected, c ∈ selected := by
  intro c member
  cases tool with
  | merge => exact List.mem_of_mem_tail member
  | split => exact member
  | _ => cases member

theorem baseOf_mem {selected : List Card} {b : Card} (base : baseOf tool selected = some b) : b ∈ selected := by
  unfold baseOf at base
  split at base
  · exact List.mem_of_head? base
  · cases base

theorem applyPlan_ok {actions : List Action} {s t : Store} (ok : applyPlan lib call actions s = .ok t) :
    (∀ f ∈ call.batchIds, f ∈ actions.flatMap Action.sourceFactIds) ∧
      ∃ d, actions.foldlM (applyAction lib call s.edited) ⟨s,[]⟩ = .ok d ∧
        t = d.store.markProcessed call.batchIds call.now := by
  simp only [applyPlan,bind_ok,require_ok,demand_ok,pure,Except.pure,Except.ok.injEq] at ok
  obtain ⟨_,covered,_,_,_,_,d,run,rfl⟩ := ok
  exact ⟨covered,d,run,rfl⟩

theorem markProcessed_kept (s : Store) (ids : List FactId) (now : Time) : Kept s (s.markProcessed ids now) :=
  .of_updateWhere (by exact fun _ => rfl) rfl (fun _ => ⟨rfl,rfl⟩)

theorem ingestFact_ok {new : NewFact} {s t : Store} {fact : Fact} (ok : ingestFact lib new s = .ok (t,fact)) :
    ∃ id, (t = s ∧ fact ∈ s.facts ∧ fact.status ≠ .sourceChanged) ∨
      ((∀ f ∈ s.facts, f.id = id → f.status = .sourceChanged) ∧
        fact = new.row (invalidateSources s id.noteId id.sourceRevision) id ∧
        t = { invalidateSources s id.noteId id.sourceRevision with
          facts := (invalidateSources s id.noteId id.sourceRevision).facts.upsert fact
          cards := (invalidateSources s id.noteId id.sourceRevision).cards.updateWhere
            (fun c => c.active && lib.similar new.content c.content) (fun c => { c with freshness := .stale }) }) := by
  simp only [ingestFact,bind_ok] at ok
  obtain ⟨id,_,rest⟩ := ok
  refine ⟨id,?_⟩
  split at rest
  · rename_i existing found
    cases rest
    obtain ⟨found,status⟩ := Option.filter_eq_some_iff.mp found
    exact .inl ⟨rfl,(Table.find?_eq_some.mp found).1,of_decide_eq_true status⟩
  · rename_i none
    cases rest
    refine .inr ⟨?_,rfl,rfl⟩
    intro f member same
    have found := same ▸ Table.find?_mem member
    have gone := Option.filter_eq_none_iff.mp none f found
    simpa using gone

end Suixinji.Facts
