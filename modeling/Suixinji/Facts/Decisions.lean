import Suixinji.Facts.Cards

/-! What the user decided about a derived card is final for the machine: locked words
stay, edited evidence is no other card's, and a rejected inference does not return. -/
namespace Suixinji.Facts
open Relational Checked Transition

structure EditsKept (s : Store) : Prop where
  locked : ∀ e ∈ s.cards, e.active → e.reviewStatus = .edited → e.userLocked
  alone : ∀ e ∈ s.cards, e.active → e.reviewStatus = .edited → ∀ c ∈ s.cards, c.active → c.userLocked = false →
    ∀ f ∈ c.sourceFactIds, f ∉ e.sourceFactIds

def Action.sheltered (s : Store) (a : Action) : Prop :=
  a.action = some .addEvidence ∧ ∀ b ∈ s.targetCards a, b.userLocked

/-- The evidence the action adds is no unlocked card's: of none that is there, and of
none that the plan writes. -/
def Action.keepsApart (s : Store) (actions : List Action) (a : Action) : Prop :=
  a.sheltered s ∧
  (∀ f ∈ a.sourceFactIds, ∀ c ∈ s.cards, c.active → c.userLocked = false → f ∉ c.sourceFactIds) ∧
  ∀ b ∈ actions, b.action.any Tool.derives → ¬b.sheltered s → ∀ f ∈ a.sourceFactIds, f ∉ b.sourceFactIds

/-- The plan adds evidence to an edited card only where it keeps it apart, and none to
an inference that a rejected card would then cover. -/
structure ConsideratePlan (s : Store) (actions : List Action) : Prop where
  edited : ∀ a ∈ actions, a.action = some .addEvidence → ∀ e ∈ s.targetCards a, e.reviewStatus = .edited →
    a.keepsApart s actions
  inferred : ∀ a ∈ actions, a.action = some .addEvidence → ∀ c ∈ s.targetCards a, c.assertionKind = .inferred →
    s.rejects (c.sourceFactIds ++ a.sourceFactIds) = false

def Considerate (w : World) : Event → Prop
  | .apply _ _ actions _ => ConsideratePlan w.store actions
  | _ => True

instance (s : Store) (a : Action) : Decidable (a.sheltered s) := by
  unfold Action.sheltered
  infer_instance

instance (s : Store) (actions : List Action) (a : Action) : Decidable (a.keepsApart s actions) := by
  unfold Action.keepsApart
  infer_instance

instance (s : Store) (actions : List Action) : Decidable (ConsideratePlan s actions) :=
  decidable_of_iff (_ ∧ _) ⟨fun ⟨edited,inferred⟩ => ⟨edited,inferred⟩,fun h => ⟨h.edited,h.inferred⟩⟩

instance (w : World) (e : Event) : Decidable (Considerate w e) := by
  cases e <;> unfold Considerate <;> infer_instance

section
variable {lib : Library} {call : PlanCall} {s t u : Store} {actions : List Action}

theorem EditsKept.of_ages (kept : EditsKept s) (ages : Ages s t) : EditsKept t := by
  have back : ∀ c' ∈ t.cards, c'.active → ∃ c ∈ s.cards, c.active ∧ Aged c c' := by
    intro c' inside active
    rcases ages.origin c' inside with ⟨c,member,_,aged⟩ | never
    · exact ⟨c,member,aged.active active,aged⟩
    · exact never.elim
  constructor
  · intro e inside active edited
    obtain ⟨e₀,member,was,aged⟩ := back e inside active
    exact aged.locked ▸ kept.locked e₀ member was (aged.review ▸ edited)
  · intro e inside active edited c inside' active' free f cited
    obtain ⟨e₀,member,was,aged⟩ := back e inside active
    obtain ⟨c₀,member',was',aged'⟩ := back c inside' active'
    rw [aged.sources]
    exact kept.alone e₀ member was (aged.review ▸ edited) c₀ member' was' (aged'.locked ▸ free) f (aged'.sources ▸ cited)

theorem EditsKept.review {ident : CardId} {decision : Option Decision} {content : Option String} {expected : Nat}
    (ok : reviewMemory lib ident decision content expected s = .ok t) (kept : EditsKept s) : EditsKept t := by
  obtain ⟨chosen,card,u,_,member,_,active,ages,displaced,rfl⟩ := reviewMemory_cards ok
  have aged := kept.of_ages ages
  constructor
  · intro e inside active' edited
    rcases mem_saveCard.mp inside with rfl | ⟨there,_⟩
    · rfl
    · exact aged.locked e there active' edited
  · intro e inside active' edited c inside' active'' free f cited
    rcases mem_saveCard.mp inside' with rfl | ⟨there',other⟩
    · cases free
    rcases mem_saveCard.mp inside with rfl | ⟨there,_⟩
    · cases chosen with
      | edit =>
        have apart := displaced rfl c there' active''
        simp only [Card.displaces,free,Bool.not_false,Bool.and_true,Bool.and_eq_false_iff,decide_eq_false_iff_not] at apart
        rcases apart with same | clear
        · exact absurd other same
        · exact fun shared => outside_of_meets clear f shared cited
      | confirm =>
        have was : card.reviewStatus = .edited := by
          by_contra not
          simp [Card.saved,Decision.reviewStatus,not] at edited
        rcases ages.origin c there' with ⟨c₀,member₀,_,old⟩ | never
        · exact kept.alone card member active was c₀ member₀ (old.active active'') (old.locked ▸ free) f (old.sources ▸ cited)
        · exact never.elim
      | reject => cases edited
    · exact aged.alone e there active' edited c there' active'' free f cited

theorem edited_origin (unborn : Unborn call s) (ok : applyPlan lib call actions s = .ok t) {e : Card}
    (inside : e ∈ t.cards) (active : e.active) (edited : e.reviewStatus = .edited) :
    ∃ e₀ ∈ s.cards, e₀.active ∧ e₀.reviewStatus = .edited ∧ e.userLocked = e₀.userLocked ∧
      ∀ f ∈ e.sourceFactIds, f ∈ e₀.sourceFactIds ∨
        ∃ a ∈ actions, a.action = some .addEvidence ∧ e₀ ∈ s.targetCards a ∧ f ∈ a.sourceFactIds := by
  rcases applyPlan_cards unborn ok e inside with old | ⟨c,⟨a,given,tool,touched,cs,passed,saves,member⟩,rfl⟩
  · exact ⟨e,old,active,edited,rfl,fun f cited => .inl cited⟩
  cases saves with
  | nothing => cases member
  | retract =>
    obtain ⟨b,_,rfl⟩ := List.mem_map.mp member
    cases active
  | addEvidence named extended =>
    obtain ⟨old,target,made⟩ := exists_left extended member
    have notLink : tool ≠ .link := by
      rintro rfl
      cases passed.named.symm.trans named
    refine ⟨old,(mem_targetCards.mp target).1,(passed.targets notLink old target).1,made.review ▸ edited,made.locked,?_⟩
    intro f cited
    change f ∈ c.sourceFactIds at cited
    rw [made.sources,List.mem_eraseDups,List.mem_append] at cited
    exact cited.imp id (fun added => ⟨a,given,named,target,added⟩)
  | derive _ _ _ _ written =>
    rcases List.mem_append.mp member with new | ended
    · obtain ⟨_,_,made⟩ := exists_left written new
      exact absurd edited made.unedited
    · obtain ⟨b,_,rfl⟩ := List.mem_map.mp ended
      cases active

/-- What the unlocked cards after a plan rest on: evidence of unlocked cards before,
and of actions that shelter nothing. -/
theorem unlocked_origin (unborn : Unborn call s) (ok : applyPlan lib call actions s = .ok t) {c : Card}
    (inside : c ∈ t.cards) (active : c.active) (free : c.userLocked = false) {f : FactId} (cited : f ∈ c.sourceFactIds) :
    (∃ c₀ ∈ s.cards, c₀.active ∧ c₀.userLocked = false ∧ f ∈ c₀.sourceFactIds) ∨
      ∃ a ∈ actions, ∃ tool, Passed s a tool ∧ tool.derives ∧ ¬a.sheltered s ∧ f ∈ a.sourceFactIds := by
  rcases applyPlan_cards unborn ok c inside with old | ⟨c,⟨a,given,tool,touched,cs,passed,saves,member⟩,rfl⟩
  · exact .inl ⟨c,old,active,free,cited⟩
  change f ∈ c.sourceFactIds at cited
  cases saves with
  | nothing => cases member
  | retract =>
    obtain ⟨b,_,rfl⟩ := List.mem_map.mp member
    cases active
  | addEvidence named extended =>
    obtain ⟨old,target,made⟩ := exists_left extended member
    cases passed.named.symm.trans named
    have unlocked : old.userLocked = false := made.locked.symm.trans free
    rw [made.sources,List.mem_eraseDups,List.mem_append] at cited
    rcases cited with before | added
    · exact .inl ⟨old,(mem_targetCards.mp target).1,(passed.targets nofun old target).1,unlocked,before⟩
    · refine .inr ⟨a,given,.addEvidence,passed,rfl,?_,added⟩
      intro sheltered
      rw [sheltered.2 old target] at unlocked
      cases unlocked
  | derive named derives other _ written =>
    cases passed.named.symm.trans named
    have notLink : tool ≠ .link := by
      rintro rfl
      cases derives
    have lender (b : Card) (target : b ∈ s.targetCards a) (lent : f ∈ b.sourceFactIds) :
        ∃ c₀ ∈ s.cards, c₀.active ∧ c₀.userLocked = false ∧ f ∈ c₀.sourceFactIds := by
      obtain ⟨was,locked⟩ := passed.targets notLink b target
      refine ⟨b,(mem_targetCards.mp target).1,was,?_,lent⟩
      by_contra held
      exact other (locked (by simpa using held))
    rcases List.mem_append.mp member with new | ended
    · obtain ⟨⟨output,index⟩,_,made⟩ := exists_left written new
      rw [made.sources,mem_evidenceIds] at cited
      rcases cited with given' | ⟨b,base,lent⟩ | ⟨_,b,target,lent⟩
      · refine .inr ⟨a,given,tool,passed,derives,?_,made.within.2 f given'⟩
        exact fun sheltered => other (Option.some.inj (named.symm.trans sheltered.1))
      · exact .inl (lender b (baseOf_mem base) lent)
      · exact .inl (lender b target lent)
    · obtain ⟨b,_,rfl⟩ := List.mem_map.mp ended
      cases active

theorem EditsKept.apply (kept : EditsKept s) (unborn : Unborn call s) (ok : applyPlan lib call actions s = .ok t)
    (considerate : ConsideratePlan s actions) : EditsKept t := by
  constructor
  · intro e inside active edited
    obtain ⟨e₀,member,was,edited₀,locked,_⟩ := edited_origin unborn ok inside active edited
    exact locked ▸ kept.locked e₀ member was edited₀
  · intro e inside active edited c inside' active' free f cited shared
    obtain ⟨e₀,member,was,edited₀,_,sources⟩ := edited_origin unborn ok inside active edited
    rcases unlocked_origin unborn ok inside' active' free cited with
      ⟨c₀,member',was',free',cited'⟩ | ⟨b,given,tool,passed,derives,bare,used⟩
    · rcases sources f shared with before | ⟨a,given,named,target,added⟩
      · exact kept.alone e₀ member was edited₀ c₀ member' was' free' f cited' before
      · exact (considerate.edited a given named e₀ target edited₀).2.1 f added c₀ member' was' free' cited'
    · rcases sources f shared with before | ⟨a,given',named,target,added⟩
      · have shield : e₀ ∈ b.protectedBy s.edited := by
          refine List.mem_filter.mpr ⟨List.mem_filter.mpr ⟨member,?_⟩,meets_iff.mpr ⟨f,used,before⟩⟩
          simp [was,edited₀]
        -- only evidence for edited cards passes the shield, and those are locked
        rcases passed.shielded derives with none | ⟨rfl,_,all⟩
        · rw [none] at shield
          cases shield
        · refine bare ⟨passed.named,fun x target => ?_⟩
          obtain ⟨known,named⟩ := mem_targetCards.mp target
          obtain ⟨y,protected_,same⟩ := List.mem_map.mp (all _ named)
          obtain ⟨inEdited,_⟩ := List.mem_filter.mp protected_
          obtain ⟨there,held⟩ := List.mem_filter.mp inEdited
          obtain rfl : y = x := s.cards.unique there known (EntityId.card.inj same)
          rw [Bool.and_eq_true_iff] at held
          exact kept.locked y known held.1 (of_decide_eq_true held.2)
      · have others := (considerate.edited a given' named e₀ target edited₀).2.2
        exact others b given (by simp [passed.named,derives]) bare f added used

theorem applyPlan_rows (unborn : Unborn call s) (ok : applyPlan lib call actions s = .ok t) {c : Card}
    (member : c ∈ s.cards) : ∃ c' ∈ t.cards, c'.id = c.id := by
  obtain ⟨_,d,run,rfl⟩ := applyPlan_ok ok
  have reached := foldlM_invariant
    (fun d : Draft => Midway call s d.touched d.store ∧ ∃ c' ∈ d.store.cards, c'.id = c.id)
    (by
      rintro a _ d₁ d₂ ⟨midway,c',there,same⟩ step
      obtain ⟨cs,_,cards,after⟩ := applyAction_saves midway unborn step
      refine ⟨after,?_⟩
      rw [cards]
      by_cases saved : ∃ c₀ ∈ cs, c₀.id = c'.id
      · obtain ⟨c₀,_,same',inside⟩ := saveCards_last d₁.store.cards saved
        exact ⟨c₀.saved,inside,same'.trans same⟩
      · exact ⟨c',(saveCards_other (fun c₀ inside hit => saved ⟨c₀,inside,hit⟩)).mpr there,same⟩)
    run ⟨midway_start call s,c,member,rfl⟩
  exact reached.2

theorem applyPlan_locked (unborn : Unborn call s) (ok : applyPlan lib call actions s = .ok t) {c : Card}
    (member : c ∈ s.cards) (locked : c.userLocked) :
    ∃ c' ∈ t.cards, c'.id = c.id ∧ c'.content = c.content ∧ c'.reviewStatus = c.reviewStatus := by
  obtain ⟨c',inside,same⟩ := applyPlan_rows unborn ok member
  refine ⟨c',inside,same,?_⟩
  rcases applyPlan_cards unborn ok c' inside with old | ⟨c₀,⟨a,given,tool,touched,cs,passed,saves,saved⟩,rfl⟩
  · rw [s.cards.unique old member same]
    exact ⟨rfl,rfl⟩
  change c₀.id = c.id at same
  have target : c ∈ s.targetCards a := by
    rcases saves.known saved with ⟨b,target,same'⟩ | own
    · exact s.cards.unique (mem_targetCards.mp target).1 member (same'.trans same) ▸ target
    · exact absurd (same ▸ own) (unborn.cards c member)
  have notLink : tool ≠ .link := by
    rintro rfl
    cases saves with
    | nothing => cases saved
    | retract named => cases passed.named.symm.trans named
    | addEvidence named => cases passed.named.symm.trans named
    | derive named derives =>
      cases passed.named.symm.trans named
      cases derives
  have adds := passed.named.trans (congrArg some ((passed.targets notLink c target).2 locked))
  cases saves with
  | nothing => cases saved
  | retract named => cases adds.symm.trans named
  | derive named _ other => exact absurd (Option.some.inj (named.symm.trans adds)) other
  | addEvidence _ extended =>
    obtain ⟨old,target',made⟩ := exists_left extended saved
    obtain rfl : old = c :=
      s.cards.unique (mem_targetCards.mp target').1 member (made.id.symm.trans same)
    exact ⟨made.content locked,made.review⟩

theorem applyPlan_unrejected (unborn : Unborn call s) (ok : applyPlan lib call actions s = .ok t)
    (considerate : ConsideratePlan s actions) {c : Card} (inside : c ∈ t.cards) (active : c.active)
    (inferred : c.assertionKind = .inferred) (new : c ∉ s.cards) : s.rejects c.sourceFactIds = false := by
  rcases applyPlan_cards unborn ok c inside with old | ⟨c,⟨a,given,tool,touched,cs,passed,saves,member⟩,rfl⟩
  · exact absurd old new
  change s.rejects c.sourceFactIds = false
  cases saves with
  | nothing => cases member
  | retract =>
    obtain ⟨b,_,rfl⟩ := List.mem_map.mp member
    cases active
  | addEvidence named extended =>
    obtain ⟨old,target,made⟩ := exists_left extended member
    have clear := considerate.inferred a given named old target (made.kind.symm.trans inferred)
    rw [made.sources]
    simpa only [Store.rejects,List.all_eq,List.mem_eraseDups] using clear
  | derive _ _ _ _ written =>
    rcases List.mem_append.mp member with fresh | ended
    · obtain ⟨_,_,made⟩ := exists_left written fresh
      exact made.unrejected inferred
    · obtain ⟨b,_,rfl⟩ := List.mem_map.mp ended
      cases active

end

section
variable {lib : Library} {w w' : World} {e : Event}

theorem step_editsKept (step : Guarded Considerate (Step lib) w e w') (born : Born w) (kept : EditsKept w.store) :
    EditsKept w'.store := by
  obtain ⟨considerate,step⟩ := step
  by_cases plan : ∃ runId batchIds actions now, e = .apply runId batchIds actions now
  · obtain ⟨runId,batchIds,actions,now,rfl⟩ := plan
    obtain ⟨run,snapshot,t,member,rfl,pending,seen,ok,rfl⟩ := step_apply step
    exact kept.apply (born.unborn member pending seen batchIds now) ok considerate
  by_cases command : ∃ c, e = .command c
  · obtain ⟨c,rfl⟩ := command
    obtain ⟨t,ok,rfl⟩ := step_command step
    by_cases review : ∃ ident decision content expected, c = .review ident decision content expected
    · obtain ⟨ident,decision,content,expected,rfl⟩ := review
      exact kept.review ok
    · exact kept.of_ages (execute_ages ok (fun ident decision content expected same =>
        review ⟨ident,decision,content,expected,same⟩))
  · exact kept.of_ages (step_rest step (fun c same => command ⟨c,same⟩)
      (fun runId batchIds actions now same => plan ⟨runId,batchIds,actions,now,same⟩))

theorem step_rejected (step : Step lib w e w') (born : Born w) {r : Card} (member : r ∈ w.store.cards)
    (rejected : r.status = .rejected) :
    ∃ r' ∈ w'.store.cards, r'.status = .rejected ∧ r'.sourceFactIds = r.sourceFactIds := by
  have past : r.active = false := by simp [Card.active,rejected]
  have aged {u : Store} (ages : Ages w.store u) :
      ∃ r' ∈ u.cards, r'.id = r.id ∧ r'.status = .rejected ∧ r'.sourceFactIds = r.sourceFactIds := by
    obtain ⟨r',inside,same,aged⟩ := ages.kept r member
    rcases aged.status with status | ⟨was,_⟩
    · exact ⟨r',inside,same,status.trans rejected,aged.sources⟩
    · rw [past] at was
      cases was
  by_cases plan : ∃ runId batchIds actions now, e = .apply runId batchIds actions now
  · obtain ⟨runId,batchIds,actions,now,rfl⟩ := plan
    obtain ⟨run,snapshot,t,there,rfl,pending,seen,ok,rfl⟩ := step_apply step
    have unborn := born.unborn there pending seen batchIds now
    obtain ⟨busy,midway⟩ := applyPlan_midway unborn ok
    exact ⟨r,midway.settled unborn member past,rejected,rfl⟩
  by_cases command : ∃ c, e = .command c
  · obtain ⟨c,rfl⟩ := command
    obtain ⟨t,ok,rfl⟩ := step_command step
    by_cases review : ∃ ident decision content expected, c = .review ident decision content expected
    · obtain ⟨ident,decision,content,expected,rfl⟩ := review
      obtain ⟨_,card,u,_,there,_,active,ages,_,rfl⟩ := reviewMemory_cards ok
      obtain ⟨r',inside,same,status,sources⟩ := aged ages
      refine ⟨r',mem_saveCard.mpr (.inr ⟨inside,?_⟩),status,sources⟩
      intro hit
      rw [w.store.cards.unique there member (hit.symm.trans same),past] at active
      cases active
    · obtain ⟨r',inside,_,rest⟩ := aged (execute_ages ok (fun ident decision content expected same =>
        review ⟨ident,decision,content,expected,same⟩))
      exact ⟨r',inside,rest⟩
  · obtain ⟨r',inside,_,rest⟩ := aged (step_rest step (fun c same => command ⟨c,same⟩)
      (fun runId batchIds actions now same => plan ⟨runId,batchIds,actions,now,same⟩))
    exact ⟨r',inside,rest⟩

/-- Some review on the way to `w` rejected a card on the evidence `sources`. -/
def RejectedEarlier (lib : Library) (w : World) (sources : List FactId) : Prop :=
  ∃ es₁ es₂ w₁ w₂ r content expected, Run (Step lib) start es₁ w₁ ∧ r ∈ w₁.store.cards ∧ r.sourceFactIds = sources ∧
    Step lib w₁ (.command (.review r.id (some .reject) content expected)) w₂ ∧ Run (Step lib) w₂ es₂ w

theorem RejectedEarlier.still {sources : List FactId} (earlier : RejectedEarlier lib w sources) :
    ∃ r ∈ w.store.cards, r.status = .rejected ∧ r.sourceFactIds = sources := by
  obtain ⟨es₁,es₂,w₁,w₂,r,content,expected,before,member,rfl,step,after⟩ := earlier
  have born₁ : Born w₁ := before.invariant Born (fun _ _ _ born step => born_step step born) born_start
  have rejected : ∃ r' ∈ w₂.store.cards, r'.status = .rejected ∧ r'.sourceFactIds = r.sourceFactIds := by
    obtain ⟨t,ok,rfl⟩ := step_command step
    obtain ⟨chosen,card,u,decided,there,same,_,_,_,rfl⟩ := reviewMemory_cards ok
    cases decided
    cases w₁.store.cards.unique there member same
    exact ⟨_,mem_saveCard.mpr (.inl rfl),rfl,rfl⟩
  refine (after.invariant
    (fun w => Born w ∧ ∃ r' ∈ w.store.cards, r'.status = .rejected ∧ r'.sourceFactIds = r.sourceFactIds) ?_
    ⟨born_step step born₁,rejected⟩).2
  rintro w e w' ⟨born,r',there,status,sources⟩ step
  obtain ⟨r'',inside,status',sources'⟩ := step_rejected step born there status
  exact ⟨born_step step born,r'',inside,status',sources'.trans sources⟩

/-- What a plan must leave to the user: the words and the review of locked cards, and
the evidence of rejected inferences. -/
structure Final (lib : Library) (w w' : World) : Prop where
  locked : ∀ c ∈ w.store.cards, c.userLocked →
    ∃ c' ∈ w'.store.cards, c'.id = c.id ∧ c'.content = c.content ∧ c'.reviewStatus = c.reviewStatus
  rejected : ∀ sources, RejectedEarlier lib w sources → ∀ c ∈ w'.store.cards, c.active → c.assertionKind = .inferred →
    c ∉ w.store.cards → ∃ f ∈ c.sourceFactIds, f ∉ sources

/-- In a run whose plans are considerate, no unlocked card ever shares evidence with an
edited one, and every plan leaves the user's decisions as they are. -/
theorem decisions_final {es : List Event} (run : Run (Guarded Considerate (Step lib)) start es w) :
    EditsKept w.store ∧ ∀ runId batchIds actions now w',
      Guarded Considerate (Step lib) w (.apply runId batchIds actions now) w' → Final lib w w' := by
  have reached : Born w ∧ EditsKept w.store := by
    refine run.invariant (fun w => Born w ∧ EditsKept w.store) ?_ ⟨born_start,?_⟩
    · exact fun _ _ _ before step => ⟨born_step step.2 before.1,step_editsKept step before.1 before.2⟩
    · exact ⟨fun e member => absurd member (Table.not_mem_empty e),fun e member => absurd member (Table.not_mem_empty e)⟩
  refine ⟨reached.2,?_⟩
  rintro runId batchIds actions now w' ⟨considerate,step⟩
  obtain ⟨r,snapshot,t,member,rfl,pending,seen,ok,rfl⟩ := step_apply step
  have unborn := reached.1.unborn member pending seen batchIds now
  constructor
  · exact fun c there locked => applyPlan_locked unborn ok there locked
  · intro sources earlier c inside active inferred new
    have clear := applyPlan_unrejected unborn ok considerate inside active inferred new
    obtain ⟨x,there,status,rfl⟩ := earlier.still
    by_contra covered
    simp only [not_exists,not_and,Classical.not_not] at covered
    simp only [Store.rejects,List.any_eq_false] at clear
    exact clear x there (by simpa [status] using covered)

end

def word (noteId text : String) : NewFact :=
  { noteId, originalText := text, content := text, memoryType := some .semantic }

def wordFact (noteId text : String) : FactId := ⟨noteId,⟨text⟩,text,.semantic,text⟩

def creates (kind : AssertionKind) (sources : List FactId) (content : String) : Action :=
  { action := some .create, sourceFactIds := sources, reason := "new", content, memoryType := some .semantic
    assertionKind := some kind }

def adds (sources : List FactId) (target : CardId) : Action :=
  { action := some .addEvidence, sourceFactIds := sources, reason := "same", targetIds := [.card target] }

/-- Two words, and the cards that a first plan makes of them. -/
def twoWords (actions : List Action) : List Event :=
  [.command (.ingest (word "n1" "a")),.command (.ingest (word "n2" "b")),.begin "r1" 0 10,.snapshot "r1",
    .apply "r1" [] actions 1,.finish "r1" 2]

def aCard : CardId := ⟨"r1",0,0,"a"⟩
def bCard : CardId := ⟨"r1",0,0,"b"⟩

def statedCards : List Action :=
  [creates .stated [wordFact "n1" "a"] "a",creates .stated [wordFact "n2" "b"] "b"]

def inferredCards : List Action :=
  [creates .inferred [wordFact "n1" "a"] "a",creates .inferred [wordFact "n1" "a",wordFact "n2" "b"] "b"]

def secondPlan : List Event :=
  [.begin "r2" 3 10,.snapshot "r2",.apply "r2" [] [adds [wordFact "n2" "b"] aCard] 4]

def inferences : World := start.after asciiLibrary (twoWords inferredCards)

/-- The inference on both words is rejected. -/
def rejection : Event := .command (.review bCard (some .reject) none 1)

def rejected : World := inferences.after asciiLibrary [rejection]

def planned : World := rejected.after asciiLibrary [.begin "r2" 3 10,.snapshot "r2"]

/-- A plan adds to an edited card the evidence of an unlocked one; a plan adds to an
inference the evidence that brings it to a rejected one. -/
theorem decisions_overturned :
    (∃ es w, Run (Step asciiLibrary) start es w ∧ ∃ e ∈ w.store.cards, e.active ∧ e.reviewStatus = .edited ∧
      ∃ c ∈ w.store.cards, c.active ∧ c.userLocked = false ∧ ∃ f ∈ c.sourceFactIds, f ∈ e.sourceFactIds) ∧
    ∃ es w w', Run (Step asciiLibrary) start es w ∧
      Step asciiLibrary w (.apply "r2" [] [adds [wordFact "n2" "b"] aCard] 4) w' ∧ ¬Final asciiLibrary w w' := by
  constructor
  · exact ⟨_,_,run_after asciiLibrary start
      (twoWords statedCards ++ .command (.review aCard (some .edit) (some "c") 1) :: secondPlan) (by decide +kernel),
      by decide +kernel⟩
  · have before : Run (Step asciiLibrary) start _ inferences := run_after _ _ (twoWords inferredCards) (by decide +kernel)
    have rejects : Step asciiLibrary inferences rejection rejected := step_after _ _ _ (by decide +kernel)
    have between : Run (Step asciiLibrary) rejected _ planned :=
      run_after _ _ [.begin "r2" 3 10,.snapshot "r2"] (by decide +kernel)
    have plan := step_after asciiLibrary planned (.apply "r2" [] [adds [wordFact "n2" "b"] aCard] 4) (by decide +kernel)
    refine ⟨_,_,_,before.append (.cons rejects between),plan,fun final => ?_⟩
    have there : ∃ r ∈ inferences.store.cards, r.id = bCard ∧ r.sourceFactIds = [wordFact "n1" "a",wordFact "n2" "b"] := by
      decide +kernel
    obtain ⟨r,member,id,sources⟩ := there
    have returned : ∃ c ∈ (planned.after asciiLibrary [.apply "r2" [] [adds [wordFact "n2" "b"] aCard] 4]).store.cards,
        c.active ∧ c.assertionKind = .inferred ∧ c ∉ planned.store.cards ∧
          ∀ f ∈ c.sourceFactIds, f ∈ [wordFact "n1" "a",wordFact "n2" "b"] := by
      decide +kernel
    obtain ⟨c,inside,active,inferred,new,covered⟩ := returned
    obtain ⟨f,cited,apart⟩ := final.rejected _ ⟨_,_,_,_,r,none,1,before,member,sources,id ▸ rejects,between⟩ c inside active
      inferred new
    exact apart (covered f cited)

/-- The second word is added to an edited card, and no other card uses it. -/
theorem decisions_final_considerate : ∃ w : World,
    (∃ e ∈ w.store.cards, e.reviewStatus = .edited ∧ e.sourceFactIds.length = 2) ∧ EditsKept w.store := by
  have run : Run (Guarded Considerate (Step asciiLibrary)) start _ _ :=
    guarded_after (twoWords [creates .stated [wordFact "n1" "a"] "a"] ++
      .command (.review aCard (some .edit) (some "c") 1) :: secondPlan) (by decide +kernel)
  exact ⟨_,by decide +kernel,(decisions_final run).1⟩

end Suixinji.Facts
