import Suixinji.Facts.Effects

/-! Fact memory never rests on withdrawn evidence: whatever is active cites active
facts only, and a note is active at one revision. -/
namespace Suixinji.Facts
open Relational Checked Transition

def Store.live (s : Store) (f : FactId) : Prop := ∃ fact ∈ s.facts, fact.id = f ∧ fact.active

/-- The card stands on active facts, under the scope they make. -/
structure Rests (s : Store) (c : Card) : Prop where
  cited : c.sourceFactIds ≠ []
  live : ∀ f ∈ c.sourceFactIds, s.live f
  scope : s.scopeOf c.sourceFactIds = .ok c.scope

structure Grounded (s : Store) : Prop where
  cards : ∀ c ∈ s.cards, c.active → Rests s c
  questions : ∀ q ∈ s.questions, q.isOpen → ∀ f ∈ q.sourceFactIds, s.live f
  revisions : ∀ f ∈ s.facts, ∀ g ∈ s.facts, f.active → g.active → f.id.noteId = g.id.noteId →
    f.id.sourceRevision = g.id.sourceRevision

/-! ### What a transaction carries over -/

/-- The active facts outside `gone` are active afterwards, under the same scopes. -/
def Carries (gone : List FactId) (s t : Store) : Prop :=
  ∀ f ∈ s.facts, f.active → f.id ∉ gone → ∃ g ∈ t.facts, g.id = f.id ∧ g.active ∧ g.scope = f.scope

section
variable {s t u : Store} {gone : List FactId} {c : Card} {f : FactId}

theorem Carries.trans (first : Carries gone s t) (second : Carries gone t u) : Carries gone s u := by
  intro f member active outside
  obtain ⟨g,inside,same,active',scope⟩ := first f member active outside
  obtain ⟨h,there,same',active'',scope'⟩ := second g inside active' (same ▸ outside)
  exact ⟨h,there,same'.trans same,active'',scope'.trans scope⟩

theorem Kept.active {f g : Fact} (status : g.status = f.status) : g.active = f.active := by
  simp [Fact.active,status]

theorem Kept.carries (kept : Kept s t) (gone : List FactId) : Carries gone s t := by
  intro f member active _
  obtain ⟨g,inside,same,status,scope⟩ := kept.kept f member
  exact ⟨g,inside,same,(Kept.active status).trans active,scope⟩

theorem Store.live.carried (live : s.live f) (carries : Carries gone s t) (outside : f ∉ gone) : t.live f := by
  obtain ⟨fact,member,rfl,active⟩ := live
  obtain ⟨g,inside,same,active',_⟩ := carries fact member active outside
  exact ⟨g,inside,same,active'⟩

theorem scopeOf_eq {ids : List FactId} (there : ∀ f ∈ ids, ∃ fact ∈ s.facts, fact.id = f) :
    s.scopeOf ids = mergeScopes (ids.filterMap fun f => (s.facts.find? f).map Fact.scope) := by
  have found : ∀ f ∈ ids, (s.facts.find? f).isSome := by
    intro f member
    obtain ⟨fact,inside,rfl⟩ := there f member
    simp [Table.find?_mem inside]
  rw [Store.scopeOf,mapM_demand found]
  simp only [evidenceScope,bind,Except.bind,List.map_filterMap]

theorem scopeOf_carried {ids : List FactId}
    (rows : ∀ f ∈ ids, ∃ fact ∈ s.facts, ∃ g ∈ t.facts, fact.id = f ∧ g.id = f ∧ g.scope = fact.scope) :
    t.scopeOf ids = s.scopeOf ids := by
  rw [scopeOf_eq,scopeOf_eq]
  · congr 1
    apply List.filterMap_congr
    intro f member
    obtain ⟨fact,inside,g,there,rfl,same,scope⟩ := rows f member
    rw [Table.find?_mem inside,← same,Table.find?_mem there]
    exact congrArg some scope
  · intro f member
    obtain ⟨fact,inside,_,_,same,_⟩ := rows f member
    exact ⟨fact,inside,same⟩
  · intro f member
    obtain ⟨_,_,g,there,_,same,_⟩ := rows f member
    exact ⟨g,there,same⟩

theorem Rests.carried (rests : Rests s c) (carries : Carries gone s t) (outside : ∀ f ∈ c.sourceFactIds, f ∉ gone) :
    Rests t c where
  cited := rests.cited
  live f member := (rests.live f member).carried carries (outside f member)
  scope := by
    rw [← rests.scope]
    apply scopeOf_carried
    intro f member
    obtain ⟨fact,inside,rfl,active⟩ := rests.live f member
    obtain ⟨g,there,same,_,scope⟩ := carries fact inside active (outside _ member)
    exact ⟨fact,inside,g,there,rfl,same,scope⟩

end

/-! ### Withdrawing facts -/

/-- The facts in `gone` end, and with them every card and question on them. -/
structure Withdraws (gone : List FactId) (s t : Store) : Prop where
  carries : Carries gone s t
  back : ∀ g ∈ t.facts, g.active → g.id ∉ gone ∧ ∃ f ∈ s.facts, f.id = g.id ∧ f.active
  cards : ∀ c ∈ t.cards, c.active → c ∈ s.cards ∧ c.leansOn gone = false
  questions : ∀ q ∈ t.questions, q.isOpen → q ∈ s.questions ∧ meets q.sourceFactIds gone = false

section
variable {s t : Store} {gone : List FactId}

theorem outside_of_meets {ids : List FactId} (clear : meets ids gone = false) : ∀ f ∈ ids, f ∉ gone := by
  intro f member inside
  have hit : meets ids gone = true := meets_iff.mpr ⟨f,member,inside⟩
  rw [clear] at hit
  cases hit

theorem Withdraws.grounded (withdraws : Withdraws gone s t) (grounded : Grounded s) : Grounded t where
  cards c inside active := by
    obtain ⟨member,clear⟩ := withdraws.cards c inside active
    exact (grounded.cards c member active).carried withdraws.carries (outside_of_meets clear)
  questions q inside asked f cited := by
    obtain ⟨member,clear⟩ := withdraws.questions q inside asked
    exact (grounded.questions q member asked f cited).carried withdraws.carries (outside_of_meets clear f cited)
  revisions f inside g inside' active active' note := by
    obtain ⟨_,f₀,member,same,was⟩ := withdraws.back f inside active
    obtain ⟨_,g₀,member',same',was'⟩ := withdraws.back g inside' active'
    rw [← same,← same'] at note ⊢
    exact grounded.revisions f₀ member g₀ member' was was' note

theorem mem_endFacts {status : FactStatus} {g : Fact} :
    g ∈ (s.endFacts gone status).facts ↔ ∃ f ∈ s.facts, (if f.id ∈ gone then { f with status } else f) = g := by
  simp only [Store.endFacts,Table.mem_def,Table.rows_updateWhere,List.mem_map,decide_eq_true_eq]

theorem withdraws_of (status : FactStatus) (how : Card → CardStatus) (p : Question → Bool) {s₁ : Store}
    (past : status ≠ .active) (ends : ∀ c, how c ≠ .active) (covers : ∀ q, q.isOpen → meets q.sourceFactIds gone → p q)
    (facts : s₁.facts = (s.endFacts gone status).facts) (cards : s₁.cards = s.cards)
    (facts' : t.facts = (s₁.retire (·.leansOn gone) gone how).facts)
    (cards' : t.cards = (s₁.retire (·.leansOn gone) gone how).cards)
    (questions : t.questions = s.questions.updateWhere p (fun q => { q with status := .cancelled })) :
    Withdraws gone s t where
  carries := by
    intro f member active outside
    have there : f ∈ s₁.facts := facts ▸ mem_endFacts.mpr ⟨f,member,if_neg outside⟩
    obtain ⟨g,inside,same,status,scope⟩ := (retire_kept (s := s₁)).kept f there
    exact ⟨g,facts' ▸ inside,same,(Kept.active status).trans active,scope⟩
  back := by
    intro g inside active
    rw [facts'] at inside
    rcases retire_kept.origin g inside with ⟨f,member,same,status,_⟩ | never
    · rw [facts] at member
      obtain ⟨f₀,member₀,made⟩ := mem_endFacts.mp member
      rw [Kept.active status] at active
      split at made
      · cases made
        exact absurd (of_decide_eq_true active) past
      · rename_i other
        cases made
        exact ⟨same ▸ other,f,member₀,same.symm,active⟩
    · exact never.elim
  cards := by
    intro c inside active
    rw [cards'] at inside
    have ⟨member,clear⟩ := retire_active ends inside active
    exact ⟨cards ▸ member,clear⟩
  questions := by
    intro q inside asked
    rw [questions] at inside
    obtain ⟨q₀,member,made⟩ := Table.mem_updateWhere.mp inside
    split at made
    · cases made
      cases asked
    · rename_i spared
      cases made
      refine ⟨member,?_⟩
      cases hit : meets q.sourceFactIds gone with
      | false => rfl
      | true => exact absurd (covers q asked hit) spared

theorem invalidateSources_withdraws (s : Store) (noteId : String) (revision : Revision) :
    Withdraws (s.outdated noteId revision) s (invalidateSources s noteId revision) :=
  withdraws_of .sourceChanged (fun _ => .invalidated) _ nofun (fun _ => nofun)
    (fun q asked hit => by simp only [asked,hit,Bool.and_self]) rfl rfl rfl rfl rfl

theorem forget_withdraws (s : Store) (gone : List FactId) (selected : List EntityId) :
    Withdraws gone s (s.forget gone selected) :=
  withdraws_of .forgotten (fun c => if EntityId.card c.id ∈ selected then .forgotten else .invalidated) _ nofun
    (fun c => by split <;> nofun) (fun _ _ hit => hit) rfl rfl rfl rfl rfl

end

/-! ### Writes that withdraw nothing -/

section
variable {s t : Store}

theorem Rests.of_same {c c' : Card} (rests : Rests s c) (sources : c'.sourceFactIds = c.sourceFactIds)
    (scope : c'.scope = c.scope) : Rests s c' :=
  ⟨by rw [sources]; exact rests.cited,by rw [sources]; exact rests.live,by rw [sources,scope]; exact rests.scope⟩

theorem Grounded.carried (grounded : Grounded s) (carries : Carries [] s t)
    (cards : ∀ c ∈ t.cards, c.active →
      (∃ c₀ ∈ s.cards, c₀.active ∧ c.sourceFactIds = c₀.sourceFactIds ∧ c.scope = c₀.scope) ∨ Rests t c)
    (questions : ∀ q ∈ t.questions, q.isOpen → q ∈ s.questions ∨ ∀ f ∈ q.sourceFactIds, t.live f)
    (revisions : ∀ f ∈ t.facts, ∀ g ∈ t.facts, f.active → g.active → f.id.noteId = g.id.noteId →
      f.id.sourceRevision = g.id.sourceRevision) : Grounded t where
  cards c inside active := by
    rcases cards c inside active with ⟨c₀,member,active₀,sources,scope⟩ | rests
    · exact ((grounded.cards c₀ member active₀).carried carries (by simp)).of_same sources scope
    · exact rests
  questions q inside asked f cited := by
    rcases questions q inside asked with member | live
    · exact (grounded.questions q member asked f cited).carried carries (by simp)
    · exact live f cited
  revisions := revisions

theorem Grounded.kept (grounded : Grounded s) (kept : Kept s t)
    (cards : ∀ c ∈ t.cards, c.active →
      (∃ c₀ ∈ s.cards, c₀.active ∧ c.sourceFactIds = c₀.sourceFactIds ∧ c.scope = c₀.scope) ∨ Rests t c)
    (questions : ∀ q ∈ t.questions, q.isOpen → q ∈ s.questions ∨ ∀ f ∈ q.sourceFactIds, t.live f) : Grounded t := by
  have was : ∀ g ∈ t.facts, g.active → ∃ f ∈ s.facts, f.id = g.id ∧ f.active := by
    intro g inside active
    rcases kept.origin g inside with ⟨f,member,same,status,_⟩ | never
    · exact ⟨f,member,same.symm,(Kept.active status).symm.trans active⟩
    · exact never.elim
  refine grounded.carried (kept.carries []) cards questions ?_
  intro f inside g inside' active active' note
  obtain ⟨f₀,member,same,was₀⟩ := was f inside active
  obtain ⟨g₀,member',same',was₀'⟩ := was g inside' active'
  rw [← same,← same'] at note ⊢
  exact grounded.revisions f₀ member g₀ member' was₀ was₀' note

theorem Store.live.kept {f : FactId} (live : s.live f) (kept : Kept s t) : t.live f :=
  live.carried (kept.carries []) (by simp)

theorem Grounded.saveCard (grounded : Grounded s) {c : Card} (founded : c.active → Rests s c) :
    Grounded (s.saveCard c) := by
  refine grounded.kept (saveCard_kept s c) ?_ (fun q inside _ => .inl inside)
  intro c' inside active
  rcases mem_saveCard.mp inside with rfl | ⟨member,_⟩
  · exact .inr ⟨(founded active).cited,(founded active).live,(founded active).scope⟩
  · exact .inl ⟨c',member,active,rfl,rfl⟩

theorem Grounded.putFact {f g : Fact} (grounded : Grounded s) (there : f ∈ s.facts) (id : g.id = f.id)
    (status : g.status = f.status) (scope : g.scope = f.scope) : Grounded (s.putFact g) :=
  grounded.kept (.of_putFact there id status scope) (fun c inside active => .inl ⟨c,inside,active,rfl,rfl⟩)
    (fun _ inside _ => .inl inside)

theorem Grounded.putQuestion (grounded : Grounded s) {q : Question}
    (founded : q.isOpen → ∀ f ∈ q.sourceFactIds, s.live f) :
    Grounded { s with questions := s.questions.upsert q } := by
  refine grounded.kept (.of_eq rfl) (fun c inside active => .inl ⟨c,inside,active,rfl,rfl⟩) ?_
  intro q' inside asked
  rcases Table.mem_upsert.mp inside with rfl | ⟨member,_⟩
  · exact .inr (founded asked)
  · exact .inl member

end

/-! ### Plans -/

section
variable {lib : Library} {call : PlanCall} {edited : List Card} {d d' : Draft} {a : Action} {tool : Tool}
  {selected : List Card} {s t u : Store}

/-- What a point of a transaction that began in `s` has kept. -/
structure Onward (s t : Store) : Prop where
  kept : Kept s t
  tombstones : t.tombstones = s.tombstones
  grounded : Grounded s → Grounded t

theorem Onward.refl (s : Store) : Onward s s := ⟨.of_eq rfl,rfl,id⟩

theorem Onward.trans (first : Onward s t) (second : Onward t u) : Onward s u :=
  ⟨first.kept.trans second.kept,second.tombstones.trans first.tombstones,second.grounded ∘ first.grounded⟩

theorem Onward.of_kept (kept : Kept s t) (tombstones : t.tombstones = s.tombstones) (cards : t.cards = s.cards)
    (questions : t.questions = s.questions) : Onward s t := by
  refine ⟨kept,tombstones,fun grounded => grounded.kept kept ?_ ?_⟩
  · exact fun c inside active => .inl ⟨c,cards ▸ inside,active,rfl,rfl⟩
  · exact fun q inside _ => .inl (questions ▸ inside)

theorem Onward.saveCard {c : Card} (onward : Onward s t) (founded : Grounded s → c.active → Rests t c) :
    Onward s (t.saveCard c) :=
  ⟨onward.kept.trans (saveCard_kept t c),onward.tombstones,fun grounded => (onward.grounded grounded).saveCard (founded grounded)⟩

theorem Onward.endCards {status : CardStatus} (past : status ≠ .active) (onward : Onward s t) (cards : List Card) :
    Onward s (endCards status t cards) := by
  induction cards generalizing t with
  | nil => exact onward
  | cons c cards ih => exact ih (onward.saveCard (fun _ active => absurd (of_decide_eq_true active) past))

theorem live_of_intact {f : FactId} (intact : call.intact s f) : s.live f := by
  unfold PlanCall.intact at intact
  split at intact
  · rename_i old current _ found
    obtain ⟨member,same⟩ := Table.find?_eq_some.mp found
    exact ⟨current,member,same,(Bool.and_eq_true_iff.mp intact).1⟩
  · cases intact

theorem Onward.writeOutput {touched : Nat} {output : Output × Nat} (sources : ∀ f ∈ a.sourceFactIds, s.live f)
    (lent : Grounded s → ∀ c ∈ selected, Rests s c) (onward : Onward s t)
    (ok : writeOutput lib call tool a selected touched t output = .ok u) : Onward s u := by
  obtain ⟨c,rfl,written⟩ := writeOutput_ok ok
  refine onward.saveCard (fun grounded _ => ⟨?_,?_,written.scope⟩)
  · obtain ⟨f,rest,first⟩ := List.exists_cons_of_ne_nil written.within.1
    have cited : f ∈ c.sourceFactIds := written.sources ▸ mem_evidenceIds.mpr (.inl (by simp [first]))
    exact List.ne_nil_of_mem cited
  · intro f cited
    rw [written.sources,mem_evidenceIds] at cited
    apply Store.live.kept _ onward.kept
    rcases cited with given | ⟨b,base,inside⟩ | ⟨_,b,member,inside⟩
    · exact sources f (written.within.2 f given)
    · exact (lent grounded b (baseOf_mem base)).live f inside
    · exact (lent grounded b member).live f inside

theorem Onward.addEvidence {card : Card} (sources : ∀ f ∈ a.sourceFactIds, s.live f)
    (rests : Grounded s → Rests s card) (onward : Onward s t) (ok : addEvidence lib a t card = .ok u) :
    Onward s u := by
  obtain ⟨c,rfl,extended⟩ := addEvidence_ok ok
  refine onward.saveCard (fun grounded _ => ⟨?_,?_,extended.scope⟩)
  · obtain ⟨f,rest,first⟩ := List.exists_cons_of_ne_nil (rests grounded).cited
    have cited : f ∈ c.sourceFactIds := by simp [extended.sources,first]
    exact List.ne_nil_of_mem cited
  · intro f inside
    apply Store.live.kept _ onward.kept
    rw [extended.sources,List.mem_eraseDups,List.mem_append] at inside
    exact inside.elim ((rests grounded).live f) (sources f)

theorem Onward.resolveReference (onward : Onward s t) (ok : resolveReference lib call a t = .ok u) : Onward s u := by
  simp only [Facts.resolveReference,bind_ok,require_ok] at ok
  obtain ⟨_,_,v,facts,questions⟩ := ok
  refine foldlM_invariant (Onward s) ?_ questions (foldlM_invariant (Onward s) ?_ facts onward)
  · rintro ident _ s₁ s₂ before step
    simp only [resolveQuestion,bind_ok,demand_ok,require_ok,pure,Except.pure,Except.ok.injEq] at step
    obtain ⟨q,_,_,_,rfl⟩ := step
    exact before.trans ⟨.of_eq rfl,rfl,fun grounded => grounded.putQuestion nofun⟩
  · rintro ident _ s₁ s₂ before step
    simp only [resolveFact,bind_ok,demand_ok,require_ok,pure,Except.pure,Except.ok.injEq] at step
    obtain ⟨_,_,f,found,rfl⟩ := step
    obtain ⟨there,_⟩ := Table.find?_eq_some.mp found
    exact before.trans ⟨.of_putFact there rfl rfl rfl,rfl,fun grounded => grounded.putFact there rfl rfl rfl⟩

theorem applyAction_onward (ok : applyAction lib call edited d a = .ok d') : Onward d.store d'.store := by
  obtain ⟨tool,admitted,⟨_,linked⟩ | ⟨_,selected,selects,performed,_⟩⟩ := applyAction_ok ok
  · rw [linkAction_ok linked]
    exact .of_kept (.of_eq rfl) rfl rfl rfl
  have sources : ∀ f ∈ a.sourceFactIds, d.store.live f := fun f given => live_of_intact (admitted.intact f given)
  have rests (grounded : Grounded d.store) : ∀ c ∈ selected, Rests d.store c := fun c chosen =>
    grounded.cards c (selects.stored c chosen).1 (selects.stored c chosen).2
  have derived (derives : deriveCards lib call tool a selected d.touched.length d.store = .ok d'.store) :
      Onward d.store d'.store := by
    obtain ⟨_,u,written,last⟩ := deriveCards_ok derives
    rw [last]
    apply Onward.endCards (by decide)
    refine foldlM_invariant (Onward d.store) ?_ written (.refl _)
    exact fun _ _ _ _ before step => before.writeOutput sources rests step
  cases tool with
  | defer =>
    simp only [perform,deferAction,bind_ok,require_ok,pure,Except.pure,Except.ok.injEq] at performed
    obtain ⟨_,_,stored⟩ := performed
    rw [← stored]
    exact ⟨.of_eq rfl,rfl,fun grounded => grounded.putQuestion (fun _ => sources)⟩
  | resolveReference => exact (Onward.refl _).resolveReference performed
  | retract =>
    rw [← Except.ok.inj performed]
    exact (Onward.refl _).endCards (by decide) selected
  | addEvidence =>
    refine foldlM_invariant (Onward d.store) ?_ performed (.refl _)
    exact fun c chosen _ _ before step => before.addEvidence sources (fun grounded => rests grounded c chosen) step
  | link => exact derived performed
  | create => exact derived performed
  | revise => exact derived performed
  | merge => exact derived performed
  | split => exact derived performed

theorem applyPlan_onward {actions : List Action} (ok : applyPlan lib call actions s = .ok t) : Onward s t := by
  obtain ⟨_,d,run,rfl⟩ := applyPlan_ok ok
  have before : Onward s d.store :=
    foldlM_invariant (fun d : Draft => Onward s d.store) (fun _ _ _ _ so_far step => so_far.trans (applyAction_onward step))
      run (.refl s)
  exact before.trans (.of_kept (markProcessed_kept _ _ _) rfl rfl rfl)

end

/-! ### Commands -/

section
variable {lib : Library} {s t : Store}

theorem outdated_covers {f : Fact} {noteId : String} {revision : Revision} (member : f ∈ s.facts) (active : f.active)
    (note : f.id.noteId = noteId) (other : f.id.sourceRevision ≠ revision) : f.id ∈ s.outdated noteId revision := by
  refine List.mem_map.mpr ⟨f,List.mem_filter.mpr ⟨member,?_⟩,rfl⟩
  simp [active,note,other]

theorem invalidateSources_revision {noteId : String} {revision : Revision} {g : Fact}
    (inside : g ∈ (invalidateSources s noteId revision).facts) (active : g.active) (note : g.id.noteId = noteId) :
    g.id.sourceRevision = revision := by
  obtain ⟨outside,f,member,same,was⟩ := (invalidateSources_withdraws s noteId revision).back g inside active
  by_contra other
  exact outside (same ▸ outdated_covers member was (same ▸ note) (same ▸ other))

theorem Grounded.ingest {new : NewFact} {fact : Fact} (ok : ingestFact lib new s = .ok (t,fact))
    (grounded : Grounded s) : Grounded t := by
  obtain ⟨id,⟨rfl,_⟩ | ⟨ended,made,stored⟩⟩ := ingestFact_ok ok
  · exact grounded
  have withdraws := invalidateSources_withdraws s id.noteId id.sourceRevision
  have inner := withdraws.grounded grounded
  have identity : fact.id = id := by rw [made]; rfl
  generalize before : invalidateSources s id.noteId id.sourceRevision = u at *
  have facts : ∀ g, g ∈ t.facts ↔ g = fact ∨ (g ∈ u.facts ∧ g.id ≠ id) := by
    intro g
    rw [stored,← identity]
    exact Table.mem_upsert
  have elsewhere : ∀ g ∈ u.facts, g.active → g.id ≠ id := by
    intro g member active same
    obtain ⟨_,f,there,same',was⟩ := withdraws.back g member active
    rw [Fact.active,ended f there (same'.trans same)] at was
    cases was
  have revision : ∀ g ∈ u.facts, g.active → g.id.noteId = id.noteId → g.id.sourceRevision = id.sourceRevision :=
    fun g member active note => invalidateSources_revision (before ▸ member) active note
  refine inner.carried ?_ ?_ (fun q inside _ => .inl (by rw [stored] at inside; exact inside)) ?_
  · exact fun f member active _ =>
      ⟨f,(facts f).mpr (.inr ⟨member,elsewhere f member active⟩),rfl,active,rfl⟩
  · intro c inside active
    rw [stored] at inside
    obtain ⟨c₀,member,rfl⟩ := List.mem_map.mp inside
    refine .inl ⟨c₀,member,?_,?_,?_⟩
    · simpa [Card.active,apply_ite Card.status] using active
    · split <;> rfl
    · split <;> rfl
  · intro f inside g inside' active active' note
    rcases (facts f).mp inside with rfl | ⟨member,_⟩ <;> rcases (facts g).mp inside' with rfl | ⟨member',_⟩
    · rfl
    · exact identity ▸ (revision g member' active' (note.symm.trans (congrArg _ identity))).symm
    · exact identity ▸ revision f member active (note.trans (congrArg _ identity))
    · exact inner.revisions f member g member' active active' note

theorem Grounded.sync (grounded : Grounded s) (noteId text : String) : Grounded (syncSource s noteId text).1 := by
  have inner := (invalidateSources_withdraws s noteId ⟨text⟩).grounded grounded
  unfold syncSource
  dsimp only
  split
  · exact (Onward.of_kept (.of_eq (by rfl)) (by rfl) (by rfl) (by rfl)).grounded inner
  · exact inner

theorem reviewMemory_onward {ident : CardId} {decision : Option Decision} {content : Option String} {expected : Nat}
    (ok : reviewMemory lib ident decision content expected s = .ok t) : Onward s t := by
  simp only [reviewMemory,bind_ok,demand_ok,require_ok,pure,Except.pure,Except.ok.injEq] at ok
  obtain ⟨decision,_,card,found,_,⟨active,_⟩,⟨u,edited⟩,prepared,stored⟩ := ok
  obtain ⟨member,_⟩ := Table.find?_eq_some.mp found
  have ready : Onward s u ∧ (Grounded s → Rests u edited) := by
    unfold editCard at prepared
    split at prepared
    · simp only [bind_ok,require_ok,pure,Except.pure,Except.ok.injEq,Prod.mk.injEq] at prepared
      obtain ⟨_,_,rfl,rfl⟩ := prepared
      refine ⟨⟨retire_kept,rfl,fun grounded => grounded.kept retire_kept ?_ (fun _ inside _ => .inl inside)⟩,?_⟩
      · intro c inside active
        obtain ⟨old,_⟩ := retire_active (fun _ => by decide) inside active
        exact .inl ⟨c,old,active,rfl,rfl⟩
      · intro grounded
        exact ((grounded.cards card member active).carried (Kept.carries retire_kept []) (by simp)).of_same rfl rfl
    · cases prepared
      exact ⟨.refl s,fun grounded => grounded.cards card member active⟩
  rw [← stored]
  exact ready.1.saveCard (fun grounded _ => (ready.2 grounded).of_same rfl rfl)

theorem answerQuestion_onward {ident : QuestionId} {answer : String} {new : Option NewFact}
    (ok : answerQuestion lib ident answer s = .ok (t,new)) : Onward s t := by
  simp only [answerQuestion,bind_ok,demand_ok,require_ok,pure,Except.pure,Except.ok.injEq,Prod.mk.injEq] at ok
  obtain ⟨_,_,question,_,_,_,rfl,_⟩ := ok
  have asked : Onward s { s with questions := s.questions.upsert { question with status := .answered } } :=
    ⟨.of_eq rfl,rfl,fun grounded => grounded.putQuestion (by simp [Question.isOpen])⟩
  exact asked.trans (.of_kept (.of_updateWhere (by exact fun _ => rfl) rfl (fun _ => ⟨rfl,rfl⟩)) rfl rfl rfl)

theorem attachAnswer_onward {ident : QuestionId} {sources : List FactId} {stored : FactId}
    (ok : attachAnswer ident sources stored s = .ok t) : Onward s t := by
  simp only [attachAnswer,bind_ok,demand_ok,pure,Except.pure,Except.ok.injEq] at ok
  obtain ⟨fact,found,rfl⟩ := ok
  exact .of_kept (.of_putFact (Table.find?_eq_some.mp found).1 rfl rfl rfl) rfl rfl rfl

theorem requestForget_onward {id query : String} {candidates : List Preview}
    (ok : requestForget lib id query candidates s = .ok t) : Onward s t := by
  simp only [requestForget,bind_ok,require_ok,pure,Except.pure,Except.ok.injEq] at ok
  obtain ⟨_,_,rfl⟩ := ok
  exact .of_kept (.of_eq rfl) rfl rfl rfl

def Store.selectedFacts (s : Store) (requestId : String) (selected : List EntityId) : List FactId :=
  match s.deletes.find? requestId with
  | none => []
  | some request => ((selected.mapM (forgets s request)).toOption.getD []).flatten

theorem approveForget_ok {requestId : String} {selected : List EntityId}
    (ok : approveForget requestId selected s = .ok t) :
    ∃ deletes, t = { s.forget (s.selectedFacts requestId selected) selected with deletes } := by
  simp only [approveForget,bind_ok,demand_ok,require_ok,pure,Except.pure,Except.ok.injEq] at ok
  obtain ⟨_,_,request,found,_,_,lists,chosen,_,_,rfl⟩ := ok
  have same : s.selectedFacts requestId selected = lists.flatten := by
    simp only [Store.selectedFacts,found,chosen,Except.toOption,Option.getD_some]
  rw [same]
  exact ⟨_,rfl⟩

theorem execute_ingest {new : NewFact} (ok : execute lib s (.ingest new) = .ok t) :
    ∃ fact, ingestFact lib new s = .ok (t,fact) := by
  simp only [execute,bind_ok,pure,Except.pure,Except.ok.injEq] at ok
  obtain ⟨⟨u,fact⟩,ingested,rfl⟩ := ok
  exact ⟨fact,ingested⟩

theorem execute_answer {ident : QuestionId} {answer : String} (ok : execute lib s (.answer ident answer) = .ok t) :
    ∃ new, answerQuestion lib ident answer s = .ok (t,new) := by
  simp only [execute,bind_ok,pure,Except.pure,Except.ok.injEq] at ok
  obtain ⟨⟨u,new⟩,answered,rfl⟩ := ok
  exact ⟨new,answered⟩

/-- Whatever a command does, what is active stays on active facts. -/
theorem Grounded.execute {c : Command} (grounded : Grounded s) (ok : execute lib s c = .ok t) : Grounded t := by
  cases c with
  | ingest new =>
    obtain ⟨fact,ingested⟩ := execute_ingest ok
    exact grounded.ingest ingested
  | sync noteId text =>
    cases ok
    exact grounded.sync noteId text
  | review ident decision content expected => exact (reviewMemory_onward ok).grounded grounded
  | answer ident text =>
    obtain ⟨new,answered⟩ := execute_answer ok
    exact (answerQuestion_onward answered).grounded grounded
  | attach ident sources stored => exact (attachAnswer_onward ok).grounded grounded
  | request id query candidates => exact (requestForget_onward ok).grounded grounded
  | approve requestId selected =>
    obtain ⟨deletes,rfl⟩ := approveForget_ok ok
    have after := (forget_withdraws s (s.selectedFacts requestId selected) selected).grounded grounded
    exact (Onward.of_kept (.of_eq (by rfl)) (by rfl) (by rfl) (by rfl)).grounded after

theorem Grounded.commit {transaction : Transaction} (grounded : Grounded s) (ok : Commits lib s transaction t) :
    Grounded t := by
  cases transaction with
  | apply call actions => exact (applyPlan_onward ok).grounded grounded
  | lease row =>
    cases ok
    exact (Onward.of_kept (.of_eq (by rfl)) (by rfl) (by rfl) (by rfl)).grounded grounded
  | command c => exact grounded.execute ok

theorem grounded_empty : Grounded Store.empty where
  cards c member := absurd member (Table.not_mem_empty c)
  questions q member := absurd member (Table.not_mem_empty q)
  revisions f member := absurd member (Table.not_mem_empty f)

theorem grounded_run {ts : List Transaction} (run : Run (Commits lib) .empty ts s) : Grounded s :=
  run.invariant Grounded (fun _ _ _ => Grounded.commit) grounded_empty

/-- Fact memory never rests on withdrawn evidence. -/
theorem memory_rests_on_active_facts {ts : List Transaction} (run : Run (Commits lib) .empty ts s) :
    (∀ c ∈ s.cards, c.active → c.sourceFactIds ≠ [] ∧
      ∀ f ∈ c.sourceFactIds, ∃ fact ∈ s.facts, fact.id = f ∧ fact.active) ∧
    (∀ q ∈ s.questions, q.isOpen → ∀ f ∈ q.sourceFactIds, ∃ fact ∈ s.facts, fact.id = f ∧ fact.active) ∧
    ∀ f ∈ s.facts, ∀ g ∈ s.facts, f.active → g.active → f.id.noteId = g.id.noteId →
      f.id.sourceRevision = g.id.sourceRevision := by
  have grounded := grounded_run run
  refine ⟨?_,grounded.questions,grounded.revisions⟩
  intro c member active
  have rests := grounded.cards c member active
  exact ⟨rests.cited,rests.live⟩

/-- A fact comes in, a run takes the lease and makes a card of it. -/
def firstCard : List Transaction :=
  [.command (.ingest { noteId := "n1", originalText := "a cat", content := "a cat", memoryType := some .semantic }),
    .lease (some ⟨"r1",10⟩),
    .apply ⟨⟨⟨[{ id := ⟨"n1",⟨"a cat"⟩,"a cat",.semantic,"a cat"⟩, status := .active }],by decide⟩,.empty⟩,"r1",[],5⟩
      [{ action := some .create, sourceFactIds := [⟨"n1",⟨"a cat"⟩,"a cat",.semantic,"a cat"⟩], reason := "new"
         content := "a cat", memoryType := some .semantic }]]

theorem memory_rests_on_active_facts_first_card : ∃ s : Store, (∃ c ∈ s.cards, c.active) ∧
    ∀ c ∈ s.cards, c.active → c.sourceFactIds ≠ [] ∧
      ∀ f ∈ c.sourceFactIds, ∃ fact ∈ s.facts, fact.id = f ∧ fact.active := by
  have run : Run (Commits asciiLibrary) .empty firstCard _ := .cons rfl <| .cons rfl <| .cons rfl <| .nil _
  refine ⟨_,?_,(memory_rests_on_active_facts run).1⟩
  exact ⟨_,List.mem_singleton.mpr rfl,rfl⟩

end

end Suixinji.Facts
