import Suixinji.Facts.Decisions
import Suixinji.Facts.Visibility

/-! The readers of derived cards over whole runs: a card that a plan writes lets in
whoever may read all of its evidence, as long as the scopes of that evidence show what
the access check reads of each. -/
namespace Suixinji.Facts
open Relational Checked Transition

/-- The scopes of the group show what the check reads of each of them. -/
def AllCovered (lib : Library) (group : List Scope) : Prop := ∀ scope ∈ group, scope = [] ∨ Covered lib group scope

/-- A group of scopes that merge shows them all just when nobody reads more of the
merged scope than of each. -/
theorem allCovered_iff {lib : Library} {group : List Scope} {merged : Scope} (folds : lib.folds)
    (fields : Merged group merged) : AllCovered lib group ↔ ∀ scope ∈ group, ∀ context,
      memoryAccessAllowed lib merged context → memoryAccessAllowed lib scope context := by
  constructor
  · intro all scope member context allowed
    rcases all scope member with rfl | covered
    · exact allowed_nil
    · exact covered.allowed folds fields member context allowed
  · intro all scope member
    by_cases empty : scope = []
    · exact .inl empty
    · exact .inr (covered_of_allowed folds fields member empty (all scope member))

def Store.scopesOf (s : Store) (ids : List FactId) : List Scope := ids.filterMap (fun f => (s.facts.find? f).map Fact.scope)

/-- A plan brings together only evidence whose scopes show each other, and a fact that
is written back has the status and the scope it was read with. -/
def Discreet (lib : Library) (w : World) : Event → Prop
  | .apply _ _ actions _ => ∀ a ∈ actions, ∀ ids ∈ a.groups w.store, AllCovered lib (w.store.scopesOf ids)
  | .writeBack copy => ∃ f ∈ w.store.facts, f.id = copy.id ∧ copy.status = f.status ∧ copy.scope = f.scope
  | _ => True

def Veiled (lib : Library) (s : Store) : Prop := ∀ c ∈ s.cards, c.active → AllCovered lib (s.scopesOf c.sourceFactIds)

section
variable {lib : Library} {s t : Store}

def ScopesKept (s t : Store) : Prop := ∀ f ∈ s.facts, ∀ g ∈ t.facts, g.id = f.id → f.active → g.active → g.scope = f.scope

theorem ScopesKept.of_kept (kept : Kept s t) : ScopesKept s t :=
  fun _ member _ inside same _ _ => (kept.successor member inside same).2

theorem ScopesKept.of_withdraws {gone : List FactId} (withdraws : Withdraws gone s t) : ScopesKept s t := by
  intro f member g inside same was active
  obtain ⟨outside,_⟩ := withdraws.back g inside active
  obtain ⟨g',there,same',_,scope⟩ := withdraws.carries f member was (same ▸ outside)
  rw [t.facts.unique inside there (same.trans same'.symm)]
  exact scope

theorem ingestFact_scopes {new : NewFact} {fact : Fact} (ok : ingestFact lib new s = .ok (t,fact)) : ScopesKept s t := by
  obtain ⟨id,⟨rfl,_⟩ | ⟨ended,made,stored⟩⟩ := ingestFact_ok ok
  · exact .of_kept (.of_eq rfl)
  intro f member g inside same was active
  rw [stored] at inside
  rcases Table.mem_upsert.mp inside with rfl | ⟨there,_⟩
  · have past := ended f member (same.symm.trans (by rw [made]; rfl))
    rw [Fact.active,past] at was
    cases was
  · exact ScopesKept.of_withdraws (invalidateSources_withdraws s id.noteId id.sourceRevision) f member g there same was active

theorem execute_scopes {c : Command} (ok : execute lib s c = .ok t) : ScopesKept s t := by
  cases c with
  | ingest new =>
    obtain ⟨fact,ingested⟩ := execute_ingest ok
    exact ingestFact_scopes ingested
  | sync noteId text =>
    have withdrawn := ScopesKept.of_withdraws (invalidateSources_withdraws s noteId ⟨text⟩)
    have same : t.facts = (invalidateSources s noteId ⟨text⟩).facts := by
      cases ok
      unfold syncSource
      dsimp only
      split <;> rfl
    intro f member g inside
    exact withdrawn f member g (same ▸ inside)
  | review ident decision content expected => exact .of_kept (reviewMemory_onward ok).kept
  | answer ident text =>
    obtain ⟨new,answered⟩ := execute_answer ok
    exact .of_kept (answerQuestion_onward answered).kept
  | attach ident sources stored => exact .of_kept (attachAnswer_onward ok).kept
  | request id query candidates => exact .of_kept (requestForget_onward ok).kept
  | approve requestId selected =>
    obtain ⟨deletes,rfl⟩ := approveForget_ok ok
    have withdrawn := ScopesKept.of_withdraws (forget_withdraws s (s.selectedFacts requestId selected) selected)
    exact fun f member g inside => withdrawn f member g inside

theorem scopesOf_kept {ids : List FactId} (kept : ScopesKept s t) (before : ∀ f ∈ ids, s.live f)
    (after : ∀ f ∈ ids, t.live f) : t.scopesOf ids = s.scopesOf ids := by
  apply List.filterMap_congr
  intro f member
  obtain ⟨fact,inside,rfl,was⟩ := before f member
  obtain ⟨g,there,same,active⟩ := after _ member
  rw [Table.find?_mem inside,← same,Table.find?_mem there]
  exact congrArg some (kept fact inside g there same was active)

theorem Veiled.carried (veiled : Veiled lib s) (before : Grounded s) (after : Grounded t) (kept : ScopesKept s t)
    (cards : ∀ c ∈ t.cards, c.active → ∃ c₀ ∈ s.cards, c₀.active ∧ c.sourceFactIds = c₀.sourceFactIds) :
    Veiled lib t := by
  intro c inside active
  obtain ⟨c₀,member,was,sources⟩ := cards c inside active
  have same := scopesOf_kept kept (before.cards c₀ member was).live (fun f cited =>
    (after.cards c inside active).live f (sources ▸ cited))
  rw [sources,same]
  exact veiled c₀ member was

theorem Ages.sources (ages : Ages s t) : ∀ c ∈ t.cards, c.active →
    ∃ c₀ ∈ s.cards, c₀.active ∧ c.sourceFactIds = c₀.sourceFactIds := by
  intro c inside active
  rcases ages.origin c inside with ⟨c₀,member,_,aged⟩ | never
  · exact ⟨c₀,member,aged.active active,aged.sources⟩
  · exact never.elim

theorem execute_sources {c : Command} (ok : execute lib s c = .ok t) : ∀ card ∈ t.cards, card.active →
    ∃ c₀ ∈ s.cards, c₀.active ∧ card.sourceFactIds = c₀.sourceFactIds := by
  by_cases review : ∃ ident decision content expected, c = .review ident decision content expected
  · obtain ⟨ident,decision,content,expected,rfl⟩ := review
    obtain ⟨_,old,u,_,member,_,was,ages,_,rfl⟩ := reviewMemory_cards ok
    intro card inside active
    rcases mem_saveCard.mp inside with rfl | ⟨there,_⟩
    · exact ⟨old,member,was,rfl⟩
    · exact ages.sources card there active
  · exact (execute_ages ok (fun ident decision content expected same =>
      review ⟨ident,decision,content,expected,same⟩)).sources

theorem applyPlan_groups {call : PlanCall} {actions : List Action} (unborn : Unborn call s)
    (ok : applyPlan lib call actions s = .ok t) {c : Card} (inside : c ∈ t.cards) (active : c.active) :
    c ∈ s.cards ∨ ∃ a ∈ actions, c.sourceFactIds ∈ a.groups s := by
  rcases applyPlan_cards unborn ok c inside with old | ⟨c,⟨a,given,tool,touched,cs,passed,saves,member⟩,rfl⟩
  · exact .inl old
  refine .inr ⟨a,given,?_⟩
  change c.sourceFactIds ∈ _
  cases saves with
  | nothing => cases member
  | retract =>
    obtain ⟨b,_,rfl⟩ := List.mem_map.mp member
    cases active
  | addEvidence named extended =>
    obtain ⟨old,target,made⟩ := exists_left extended member
    simp only [Action.groups,named,made.sources]
    exact List.mem_map.mpr ⟨old,target,rfl⟩
  | derive named derives other _ written =>
    rcases List.mem_append.mp member with new | ended
    · obtain ⟨o,numbered,made⟩ := exists_left written new
      have output := List.fst_mem_of_mem_zipIdx numbered
      rw [made.sources]
      unfold Action.groups
      rw [named]
      split
      · rename_i none
        cases none
      · rename_i adds
        exact absurd (Option.some.inj adds) other
      · rename_i same
        cases Option.some.inj same
        rw [if_pos derives]
        exact List.mem_map.mpr ⟨o.1,output,rfl⟩
    · obtain ⟨b,_,rfl⟩ := List.mem_map.mp ended
      cases active

end

section
variable {lib : Library} {w w' : World} {e : Event}

theorem step_veiled (step : Guarded (Discreet lib) (Step lib) w e w') (born : Born w) (grounded : Grounded w.store)
    (veiled : Veiled lib w.store) : Grounded w'.store ∧ Veiled lib w'.store := by
  obtain ⟨discreet,step⟩ := step
  have quiet (kept : Onward w.store w'.store) (cards : w'.store.cards = w.store.cards) :
      Grounded w'.store ∧ Veiled lib w'.store := by
    refine ⟨kept.grounded grounded,veiled.carried grounded (kept.grounded grounded) (.of_kept kept.kept) ?_⟩
    exact fun c inside active => ⟨c,cards ▸ inside,active,rfl⟩
  cases e with
  | command c =>
    obtain ⟨t,ok,rfl⟩ := step_command step
    have after := grounded.execute ok
    exact ⟨after,veiled.carried grounded after (execute_scopes ok) (execute_sources ok)⟩
  | apply runId batchIds actions now =>
    obtain ⟨run,snapshot,t,member,rfl,pending,seen,ok,rfl⟩ := step_apply step
    have onward := applyPlan_onward ok
    have after := onward.grounded grounded
    refine ⟨after,fun c inside active => ?_⟩
    have same (lent : ∀ f ∈ c.sourceFactIds, w.store.live f) :=
      scopesOf_kept (.of_kept onward.kept) lent (after.cards c inside active).live
    have lent : ∀ f ∈ c.sourceFactIds, w.store.live f := by
      intro f cited
      obtain ⟨g,there,rfl,now_⟩ := (after.cards c inside active).live f cited
      rcases onward.kept.origin g there with ⟨f,before,id,status,_⟩ | never
      · exact ⟨f,before,id.symm,(Kept.active status).symm.trans now_⟩
      · exact never.elim
    change AllCovered lib (t.scopesOf c.sourceFactIds)
    rw [same lent]
    rcases applyPlan_groups (born.unborn member pending seen batchIds now) ok inside active with old | ⟨a,given,group⟩
    · exact veiled c old active
    · exact discreet a given _ group
  | candidate new reference =>
    simp only [Step,next,bind_ok,pure,Except.pure,Except.ok.injEq] at step
    obtain ⟨⟨t,fact⟩,ok,rfl⟩ := step
    have after := grounded.ingest ok
    exact ⟨after,veiled.carried grounded after (ingestFact_scopes ok) (ingestFact_ages ok).sources⟩
  | begin runId now untilTime =>
    simp only [Step,next,claimLease,bind_ok,require_ok,pure,Except.pure,Except.ok.injEq] at step
    obtain ⟨_,_,_,⟨_,_,rfl⟩,rfl⟩ := step
    exact quiet (.of_kept (.of_eq rfl) rfl rfl rfl) rfl
  | snapshot runId =>
    simp only [Step,next,bind_ok,pure,Except.pure,Except.ok.injEq] at step
    obtain ⟨_,_,_,_,rfl⟩ := step
    exact quiet (.refl _) rfl
  | finish runId now =>
    cases step
    have same : (releaseLease runId now w.store).facts = w.store.facts ∧
        (releaseLease runId now w.store).cards = w.store.cards ∧
        (releaseLease runId now w.store).questions = w.store.questions ∧
        (releaseLease runId now w.store).tombstones = w.store.tombstones := by
      unfold releaseLease
      split <;> exact ⟨rfl,rfl,rfl,rfl⟩
    exact quiet (.of_kept (.of_eq same.1) same.2.2.2 same.2.1 same.2.2.1) same.2.1
  | writeBack copy =>
    simp only [Step,next,bind_ok,pure,Except.pure,Except.ok.injEq] at step
    obtain ⟨_,_,rfl⟩ := step
    obtain ⟨f,there,id,status,scope⟩ := discreet
    exact quiet (.of_kept (.of_putFact there id.symm status scope) rfl rfl rfl) rfl

/-- In a run whose plans are discreet, whoever may read an active card may read every
fact it rests on. -/
theorem cards_no_more_visible {es : List Event} (folds : lib.folds)
    (run : Run (Guarded (Discreet lib) (Step lib)) start es w) :
    ∀ c ∈ w.store.cards, c.active → ∀ context, memoryAccessAllowed lib c.scope context →
      ∀ f ∈ c.sourceFactIds, ∀ fact ∈ w.store.facts, fact.id = f → memoryAccessAllowed lib fact.scope context := by
  have reached : Born w ∧ Grounded w.store ∧ Veiled lib w.store := by
    refine run.invariant (fun w => Born w ∧ Grounded w.store ∧ Veiled lib w.store) ?_
      ⟨born_start,grounded_empty,fun c member => absurd member (Table.not_mem_empty c)⟩
    exact fun _ _ _ before step => ⟨born_step step.2 before.1,step_veiled step before.1 before.2.1 before.2.2⟩
  obtain ⟨_,grounded,veiled⟩ := reached
  rintro c member active context allowed f cited fact inside rfl
  have rests := grounded.cards c member active
  have merged := rests.scope
  rw [scopeOf_eq (fun f cited => (rests.live f cited).imp fun _ live => ⟨live.1,live.2.1⟩)] at merged
  have among : fact.scope ∈ w.store.scopesOf c.sourceFactIds :=
    List.mem_filterMap.mpr ⟨_,cited,by rw [Table.find?_mem inside]; rfl⟩
  exact (allCovered_iff folds (merged_of_ok merged)).mp (veiled c member active) _ among context allowed

end

instance (lib : Library) (ordered high values : List String) : Decidable (Shows lib ordered high values) := by
  unfold Shows
  infer_instance

instance (lib : Library) (group : List Scope) : Decidable (ShowsOwned lib group) := by
  unfold ShowsOwned
  infer_instance

instance (lib : Library) (group : List Scope) (scope : Scope) : Decidable (Covered lib group scope) :=
  have : Decidable (scope.guarded lib) := by unfold Scope.guarded; infer_instance
  have : Decidable (scope.restricted lib) := by unfold Scope.restricted; infer_instance
  have : Decidable (scope.ownersOnly lib) := by unfold Scope.ownersOnly; infer_instance
  decidable_of_iff (_ ∧ _ ∧ _) ⟨fun ⟨guarded,restricted,ownersOnly⟩ => ⟨guarded,restricted,ownersOnly⟩,
    fun covered => ⟨covered.guarded,covered.restricted,covered.ownersOnly⟩⟩

instance (lib : Library) (group : List Scope) : Decidable (AllCovered lib group) := by
  unfold AllCovered
  infer_instance

instance (lib : Library) (w : World) : (e : Event) → Decidable (Discreet lib w e)
  | .apply _ _ actions _ =>
    inferInstanceAs (Decidable (∀ a ∈ actions, ∀ ids ∈ a.groups w.store, AllCovered lib (w.store.scopesOf ids)))
  | .writeBack copy =>
    inferInstanceAs (Decidable (∃ f ∈ w.store.facts, f.id = copy.id ∧ copy.status = f.status ∧ copy.scope = f.scope))
  | .command _ | .begin .. | .snapshot _ | .finish .. | .candidate .. => .isTrue trivial

def twoNotes (scope scope' : Scope) : List Event :=
  [.command (.ingest { word "n1" "a" with scope }),.command (.ingest { word "n2" "b" with scope := scope' }),
    .begin "r1" 0 10,.snapshot "r1",.apply "r1" [] [creates .stated [wordFact "n1" "a",wordFact "n2" "b"] "c"] 1]

def publicCard : World :=
  start.after asciiLibrary (twoNotes [("access_scope",some "public")] [("sensitivity",some "normal")])

def guest : Supplied := .context { requester := some "guest" }

theorem card_more_visible : ∃ es w, Run (Step asciiLibrary) start es w ∧ ∃ c ∈ w.store.cards, c.active ∧
    ∃ context, memoryAccessAllowed asciiLibrary c.scope context ∧ ∃ f ∈ c.sourceFactIds, ∃ fact ∈ w.store.facts,
      fact.id = f ∧ ¬memoryAccessAllowed asciiLibrary fact.scope context := by
  have run : Run (Step asciiLibrary) start _ publicCard := run_after _ _ (twoNotes _ _) (by decide +kernel)
  have shown : ∃ c ∈ publicCard.store.cards, c.active ∧ memoryAccessAllowed asciiLibrary c.scope guest ∧
      ∃ f ∈ c.sourceFactIds, ∃ fact ∈ publicCard.store.facts,
        fact.id = f ∧ ¬memoryAccessAllowed asciiLibrary fact.scope guest := by
    decide +kernel
  obtain ⟨c,member,active,allowed,hidden⟩ := shown
  exact ⟨_,_,run,c,member,active,guest,allowed,hidden⟩

/-- A note for the owner and a sensitive one: the card on both is kept from a guest. -/
def ownerCard : World :=
  start.after asciiLibrary (twoNotes [("owner_id",some "ann"),("access_scope",some "owner")]
    [("owner_id",some "ann"),("access_scope",some "public"),("sensitivity",some "high")])

theorem cards_no_more_visible_owner : (∃ c ∈ ownerCard.store.cards, c.active) ∧
    ∀ c ∈ ownerCard.store.cards, c.active → ∀ context, memoryAccessAllowed asciiLibrary c.scope context →
      ∀ f ∈ c.sourceFactIds, ∀ fact ∈ ownerCard.store.facts, fact.id = f →
        memoryAccessAllowed asciiLibrary fact.scope context := by
  have run : Run (Guarded (Discreet asciiLibrary) (Step asciiLibrary)) start _ ownerCard :=
    guarded_after (twoNotes _ _) (by decide +kernel)
  exact ⟨by decide +kernel,cards_no_more_visible (by unfold Library.folds; decide +kernel) run⟩

end Suixinji.Facts
