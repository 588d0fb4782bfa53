import Suixinji.Relational.Writes
import Suixinji.Facts.Outcome

/-! An accepted plan played through: the cards, the questions and the relations that
its actions write, in their order. -/
namespace Suixinji.Facts
open Relational Relational.Table Checked

def Action.occupied (a : Action) (touched : List EntityId) : List EntityId :=
  if a.action = some .link then touched else a.targetIds ∪ touched

/-- The question that a `defer` asks. -/
def Action.asked (lib : Library) (call : PlanCall) (a : Action) : Question :=
  ⟨⟨a.sourceFactIds,lib.strip a.question⟩,lib.strip a.question,a.sourceFactIds,a.targetIds,.open,call.runId⟩

def Action.links (a : Action) : List Relation :=
  if a.action = some .link then [⟨a.endpoints,a.targetIds,a.sourceFactIds,a.relation,a.reason⟩] else []

inductive Asks (lib : Library) (call : PlanCall) (a : Action) : List Question → Prop
  | nothing (other : a.action ≠ some .defer ∧ a.action ≠ some .resolveReference) : Asks lib call a []
  | defer (named : a.action = some .defer) : Asks lib call a [a.asked lib call]
  | resolve {qs : List Question} (named : a.action = some .resolveReference)
      (resolved : List.Forall₂ (fun id q => q.id = id ∧ q.status = .resolved) a.questionIds qs) : Asks lib call a qs

/-- The action has its targets to itself, and has one where its tool needs one. -/
structure Aimed (s : Store) (touched : List EntityId) (a : Action) : Prop where
  fresh : a.action ≠ some .link → ∀ b ∈ s.targetCards a, b.active ∧ .card b.id ∉ touched
  some_ : a.action ∈ [Tool.create,.defer,.resolveReference,.link].map some ∨ s.targetCards a ≠ []

/-- What a plan writes from the point where `touched` are the targets so far. -/
inductive Played (lib : Library) (call : PlanCall) (s : Store) :
    List EntityId → List Action → List Card → List Question → Prop
  | nil (touched) : Played lib call s touched [] [] []
  | cons {touched a as cs cs' qs qs'} (saves : Saves lib call s a touched.length cs) (asks : Asks lib call a qs)
      (aimed : Aimed s touched a)
      (rest : Played lib call s (a.occupied touched) as cs' qs') :
      Played lib call s touched (a::as) (cs ++ cs') (qs ++ qs')

section
variable {lib : Library} {call : PlanCall} {edited : List Card} {d d' : Draft} {a : Action} {s t : Store}

theorem saveCards_eq (cards : Table Card.id) (cs : List Card) : saveCards cards cs = cards.upsertAll (cs.map Card.saved) := by
  rw [upsertAll,List.foldl_map]
  rfl

def Quiet (s t : Store) : Prop := t.questions = s.questions ∧ t.relations = s.relations

theorem quiet_foldl_saveCard (cs : List Card) (s : Store) : Quiet s (cs.foldl Store.saveCard s) := by
  induction cs generalizing s with
  | nil => exact ⟨rfl,rfl⟩
  | cons c cs ih => exact ih (s.saveCard c)

theorem quiet_endCards (status : CardStatus) (s : Store) (cs : List Card) : Quiet s (endCards status s cs) := by
  rw [endCards_eq]
  exact quiet_foldl_saveCard _ _

theorem quiet_deriveCards {tool : Tool} {selected : List Card} {touched : Nat}
    (ok : deriveCards lib call tool a selected touched s = .ok t) : Quiet s t := by
  obtain ⟨_,u,outputs,rfl⟩ := deriveCards_ok ok
  have written : Quiet s u := foldlM_invariant (Quiet s)
    (fun _ _ _ _ before step => by
      obtain ⟨c,rfl,_⟩ := writeOutput_ok step
      exact before) outputs ⟨rfl,rfl⟩
  have ended := quiet_endCards .superseded u (retiredBy tool selected)
  exact ⟨ended.1.trans written.1,ended.2.trans written.2⟩

theorem resolveQuestions_writes {ids : List QuestionId} (run : ids.foldlM (resolveQuestion a) s = .ok t) :
    ∃ qs, List.Forall₂ (fun id q => q.id = id ∧ q.status = .resolved) ids qs ∧
      t.questions = s.questions.upsertAll qs ∧ t.relations = s.relations := by
  induction ids generalizing s with
  | nil =>
    cases run
    exact ⟨[],.nil,rfl,rfl⟩
  | cons id ids ih =>
    rw [List.foldlM_cons] at run
    obtain ⟨u,head,tail⟩ := bind_ok.mp run
    obtain ⟨qs,resolved,questions,relations⟩ := ih tail
    simp only [resolveQuestion,bind_ok,demand_ok,require_ok,pure,Except.pure,Except.ok.injEq] at head
    obtain ⟨q,found,_,_,rfl⟩ := head
    refine ⟨{ q with status := .resolved } :: qs,.cons ⟨(find?_eq_some.mp found).2,rfl⟩ resolved,?_,relations⟩
    rw [questions]
    rfl

theorem applyAction_asks (ok : applyAction lib call edited d a = .ok d') :
    ∃ qs, Asks lib call a qs ∧ d'.store.questions = d.store.questions.upsertAll qs ∧
      d'.store.relations = d.store.relations.upsertAll a.links ∧ d'.touched = a.occupied d.touched := by
  obtain ⟨tool,admitted,⟨rfl,linked⟩ | ⟨notLink,selected,_,performed,touched⟩⟩ := applyAction_ok ok
  · have named := admitted.named
    rw [linkAction_ok linked,Action.links,Action.occupied,if_pos named,if_pos named]
    exact ⟨[],.nothing (by simp [named]),rfl,rfl,rfl⟩
  have other : a.action ≠ some .link := fun link => notLink (Option.some.inj (admitted.named.symm.trans link))
  rw [Action.links,Action.occupied,if_neg other,if_neg other]
  have quiet (unasked : tool ≠ .defer ∧ tool ≠ .resolveReference) (same : Quiet d.store d'.store) :
      ∃ qs, Asks lib call a qs ∧ d'.store.questions = d.store.questions.upsertAll qs ∧
        d'.store.relations = d.store.relations.upsertAll [] ∧ d'.touched = a.targetIds ∪ d.touched := by
    refine ⟨[],.nothing ?_,same.1,same.2,touched⟩
    rw [admitted.named]
    exact ⟨fun hit => unasked.1 (Option.some.inj hit),fun hit => unasked.2 (Option.some.inj hit)⟩
  cases tool with
  | link => exact absurd rfl notLink
  | defer =>
    simp only [perform,deferAction,bind_ok,require_ok,pure,Except.pure,Except.ok.injEq] at performed
    obtain ⟨_,_,stored⟩ := performed
    rw [← stored]
    exact ⟨_,.defer admitted.named,rfl,rfl,touched⟩
  | resolveReference =>
    simp only [perform,Facts.resolveReference,bind_ok,require_ok] at performed
    obtain ⟨_,_,u,facts,questions⟩ := performed
    have before : Quiet d.store u := foldlM_invariant (Quiet d.store)
      (fun _ _ _ _ so_far step => by
        simp only [resolveFact,bind_ok,demand_ok,require_ok,pure,Except.pure,Except.ok.injEq] at step
        obtain ⟨_,_,f,_,rfl⟩ := step
        exact so_far) facts ⟨rfl,rfl⟩
    obtain ⟨qs,resolved,questions,relations⟩ := resolveQuestions_writes questions
    exact ⟨qs,.resolve admitted.named resolved,before.1 ▸ questions,relations.trans before.2,touched⟩
  | retract =>
    rw [← Except.ok.inj performed] at quiet ⊢
    exact quiet (by decide) (quiet_endCards _ _ _)
  | addEvidence =>
    refine quiet (by decide) (foldlM_invariant (Quiet d.store) ?_ performed ⟨rfl,rfl⟩)
    intro _ _ _ _ so_far step
    obtain ⟨c,rfl,_⟩ := addEvidence_ok step
    exact so_far
  | create => exact quiet (by decide) (quiet_deriveCards performed)
  | revise => exact quiet (by decide) (quiet_deriveCards performed)
  | merge => exact quiet (by decide) (quiet_deriveCards performed)
  | split => exact quiet (by decide) (quiet_deriveCards performed)

theorem applyAction_aimed (midway : Midway call s d.touched d.store) (unborn : Unborn call s)
    (ok : applyAction lib call edited d a = .ok d') : Aimed s d.touched a := by
  refine ⟨fun other b target => ((applyAction_targets midway unborn ok other).2 b target).imp id And.left,?_⟩
  obtain ⟨tool,admitted,⟨rfl,_⟩ | ⟨_,selected,selects,_⟩⟩ := applyAction_ok ok
  · simp [admitted.named]
  obtain rfl : s.targetCards a = selected := targetCards_eq selects.targets (midway.selected_old unborn selects)
  refine selects.some_.imp_left fun free => ?_
  rw [admitted.named]
  exact List.mem_map_of_mem (List.mem_append_left [Tool.link] free)

theorem applyActions_played {actions : List Action} (unborn : Unborn call s) (midway : Midway call s d.touched d.store)
    (run : actions.foldlM (applyAction lib call edited) d = .ok d') :
    ∃ cs qs, Played lib call s d.touched actions cs qs ∧ d'.store.cards = saveCards d.store.cards cs ∧
      d'.store.questions = d.store.questions.upsertAll qs ∧
      d'.store.relations = d.store.relations.upsertAll (actions.flatMap Action.links) := by
  induction actions generalizing d with
  | nil =>
    cases run
    exact ⟨[],[],.nil _,rfl,rfl,rfl⟩
  | cons a actions ih =>
    rw [List.foldlM_cons] at run
    obtain ⟨e,head,tail⟩ := bind_ok.mp run
    obtain ⟨cs,saves,cards,after⟩ := applyAction_saves midway unborn head
    obtain ⟨qs,asks,questions,relations,touched⟩ := applyAction_asks head
    obtain ⟨cs',qs',rest,cards',questions',relations'⟩ := ih after tail
    refine ⟨cs ++ cs',qs ++ qs',.cons saves asks (applyAction_aimed midway unborn head) (touched ▸ rest),?_,?_,?_⟩
    · rw [cards',cards,saveCards_append]
    · rw [questions',questions,upsertAll_append]
    · rw [relations',relations,List.flatMap_cons,upsertAll_append]

theorem applyPlan_played {actions : List Action} (unborn : Unborn call s) (ok : applyPlan lib call actions s = .ok t) :
    ∃ cs qs, Played lib call s [] actions cs qs ∧ t.cards = saveCards s.cards cs ∧
      t.questions = s.questions.upsertAll qs ∧ t.relations = s.relations.upsertAll (actions.flatMap Action.links) := by
  obtain ⟨_,d,run,rfl⟩ := applyPlan_ok ok
  exact applyActions_played unborn (midway_start call s) run

end

end Suixinji.Facts
