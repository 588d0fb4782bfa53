import Suixinji.Facts.Outcome

/-! What becomes of each card outside a plan, and what runs keep of cards: an active
one says and rests on what it did, and a run's own cards are new. -/
namespace Suixinji.Facts
open Relational Checked Transition

/-- The same card, ended or marked stale at most. -/
structure Aged (c c' : Card) : Prop where
  content : c'.content = c.content
  sources : c'.sourceFactIds = c.sourceFactIds
  scope : c'.scope = c.scope
  kind : c'.assertionKind = c.assertionKind
  review : c'.reviewStatus = c.reviewStatus
  locked : c'.userLocked = c.userLocked
  status : c'.status = c.status ∨ (c.active ∧ c'.active = false)

theorem Aged.refl (c : Card) : Aged c c := ⟨rfl,rfl,rfl,rfl,rfl,rfl,.inl rfl⟩

theorem Aged.active {c c' : Card} (aged : Aged c c') (active : c'.active) : c.active := by
  rcases aged.status with same | ⟨was,_⟩
  · simpa [Card.active,same] using active
  · exact was

theorem Aged.trans {c c' c'' : Card} (first : Aged c c') (second : Aged c' c'') : Aged c c'' where
  content := second.content.trans first.content
  sources := second.sources.trans first.sources
  scope := second.scope.trans first.scope
  kind := second.kind.trans first.kind
  review := second.review.trans first.review
  locked := second.locked.trans first.locked
  status := by
    rcases second.status with same | ⟨was,past⟩
    · rcases first.status with same' | ⟨was,past⟩
      · exact .inl (same.trans same')
      · exact .inr ⟨was,by simpa [Card.active,same] using past⟩
    · exact .inr ⟨first.active was,past⟩

/-- Every card is the same card, ended or marked stale at most. -/
def Ages (s t : Store) : Prop := Table.Evolves Aged (fun _ => False) s.cards t.cards

section
variable {lib : Library} {s t u : Store}

theorem Ages.of_eq (same : t.cards = s.cards) : Ages s t := by
  rw [Ages,same]
  exact .refl (fun c _ => .refl c)

theorem Ages.trans (first : Ages s t) (second : Ages t u) : Ages s u :=
  Table.Evolves.trans first second (fun a b => a.trans b) (fun _ never _ => never)

theorem retire_ages (hit : Card → Bool) (gone : List FactId) (how : Card → CardStatus) (ends : ∀ c, how c ≠ .active) :
    Ages s (s.retire hit gone how) := by
  refine Table.Evolves.of_updateWhere (by rfl) ?_ (fun c _ _ => .refl c)
  intro c _ chosen
  refine ⟨rfl,rfl,rfl,rfl,rfl,rfl,rfl,.inr ⟨(Bool.and_eq_true_iff.mp chosen).1,?_⟩⟩
  exact decide_eq_false (ends c)

theorem invalidateSources_ages (s : Store) (noteId : String) (revision : Revision) :
    Ages s (invalidateSources s noteId revision) :=
  have ended := retire_ages (s := s.endFacts (s.outdated noteId revision) .sourceChanged)
    (·.leansOn (s.outdated noteId revision)) (s.outdated noteId revision) (fun _ => .invalidated) (fun _ => by decide)
  (Ages.of_eq (by rfl)).trans (ended.trans (.of_eq (by rfl)))

theorem forget_ages (s : Store) (gone : List FactId) (selected : List EntityId) : Ages s (s.forget gone selected) :=
  let buried := { s.endFacts gone .forgotten with
    tombstones := gone.foldl (fun t (f : FactId) => t.upsert f.tombstone) s.tombstones }
  have ended := retire_ages (s := buried) (·.leansOn gone) gone
    (fun c => if EntityId.card c.id ∈ selected then .forgotten else .invalidated) (fun c => by split <;> decide)
  (Ages.of_eq (by rfl)).trans (ended.trans (.of_eq (by rfl)))

theorem ingestFact_ages {new : NewFact} {fact : Fact} (ok : ingestFact lib new s = .ok (t,fact)) : Ages s t := by
  obtain ⟨id,⟨rfl,_⟩ | ⟨_,_,stored⟩⟩ := ingestFact_ok ok
  · exact .of_eq rfl
  refine (invalidateSources_ages s id.noteId id.sourceRevision).trans ?_
  rw [stored]
  refine Table.Evolves.of_updateWhere (by rfl) ?_ (fun c _ _ => .refl c)
  exact fun c _ _ => ⟨rfl,rfl,rfl,rfl,rfl,rfl,rfl,.inl rfl⟩

theorem syncSource_ages (s : Store) (noteId text : String) : Ages s (syncSource s noteId text).1 := by
  have aged := invalidateSources_ages s noteId ⟨text⟩
  unfold syncSource
  dsimp only
  split
  · exact aged.trans (.of_eq (by rfl))
  · exact aged

theorem execute_ages {c : Command} (ok : execute lib s c = .ok t)
    (other : ∀ ident decision content expected, c ≠ .review ident decision content expected) : Ages s t := by
  cases c with
  | review ident decision content expected => exact absurd rfl (other ident decision content expected)
  | ingest new =>
    obtain ⟨fact,ingested⟩ := execute_ingest ok
    exact ingestFact_ages ingested
  | sync noteId text =>
    cases ok
    exact syncSource_ages s noteId text
  | answer ident text =>
    obtain ⟨new,answered⟩ := execute_answer ok
    simp only [answerQuestion,bind_ok,demand_ok,require_ok,pure,Except.pure,Except.ok.injEq,Prod.mk.injEq] at answered
    obtain ⟨_,_,_,_,_,_,rfl,_⟩ := answered
    exact .of_eq rfl
  | attach ident sources stored =>
    simp only [execute,attachAnswer,bind_ok,demand_ok,pure,Except.pure,Except.ok.injEq] at ok
    obtain ⟨_,_,rfl⟩ := ok
    exact .of_eq rfl
  | request id query candidates =>
    simp only [execute,requestForget,bind_ok,require_ok,pure,Except.pure,Except.ok.injEq] at ok
    obtain ⟨_,_,rfl⟩ := ok
    exact .of_eq rfl
  | approve requestId selected =>
    obtain ⟨deletes,rfl⟩ := approveForget_ok ok
    exact (forget_ages s _ selected).trans (.of_eq (by rfl))

theorem reviewMemory_cards {ident : CardId} {decision : Option Decision} {content : Option String} {expected : Nat}
    (ok : reviewMemory lib ident decision content expected s = .ok t) :
    ∃ chosen card u, decision = some chosen ∧ card ∈ s.cards ∧ card.id = ident ∧ card.active ∧ Ages s u ∧
      (chosen = .edit → ∀ c ∈ u.cards, c.active → card.displaces c = false) ∧
      t = u.saveCard { card with
        content := if chosen = .edit then lib.strip (content.getD "") else card.content
        reviewStatus := chosen.reviewStatus card
        userLocked := true
        status := if chosen = .reject then .rejected else card.status } := by
  simp only [reviewMemory,bind_ok,demand_ok,require_ok,pure,Except.pure,Except.ok.injEq] at ok
  obtain ⟨chosen,decided,card,found,_,⟨active,_⟩,⟨u,edited⟩,prepared,stored⟩ := ok
  obtain ⟨member,same⟩ := Table.find?_eq_some.mp found
  refine ⟨chosen,card,u,decided,member,same,active,?_⟩
  unfold editCard at prepared
  split at prepared
  · rename_i edit
    simp only [bind_ok,require_ok,pure,Except.pure,Except.ok.injEq,Prod.mk.injEq] at prepared
    obtain ⟨_,_,rfl,rfl⟩ := prepared
    refine ⟨retire_ages _ _ _ (fun _ => by decide),fun _ c inside active => ?_,?_⟩
    · exact (retire_active (fun _ => by decide) inside active).2
    · rw [← stored,if_pos edit,edit]
      rfl
  · rename_i other
    cases prepared
    refine ⟨.of_eq rfl,fun edit => absurd edit other,?_⟩
    rw [← stored,if_neg other]

theorem Ages.ids (ages : Ages s t) {c : Card} (inside : c ∈ t.cards) : ∃ c₀ ∈ s.cards, c₀.id = c.id := by
  rcases ages.origin c inside with ⟨c₀,member,same,_⟩ | never
  · exact ⟨c₀,member,same.symm⟩
  · exact never.elim

theorem execute_ids {c : Command} (ok : execute lib s c = .ok t) {card : Card} (inside : card ∈ t.cards) :
    ∃ c₀ ∈ s.cards, c₀.id = card.id := by
  by_cases review : ∃ ident decision content expected, c = .review ident decision content expected
  · obtain ⟨ident,decision,content,expected,rfl⟩ := review
    obtain ⟨_,old,u,_,member,_,_,ages,_,rfl⟩ := reviewMemory_cards ok
    rcases mem_saveCard.mp inside with rfl | ⟨there,_⟩
    · exact ⟨old,member,rfl⟩
    · exact ages.ids there
  · have ages := execute_ages ok (fun ident decision content expected same =>
      review ⟨ident,decision,content,expected,same⟩)
    exact ages.ids inside

end

def World.made (w : World) (id : CardId) : Prop := ∃ r ∈ w.runs, r.runId = id.runId ∧ r.applied

/-- Every card, in the store or in a snapshot, was made by a run that has applied its plan. -/
structure Born (w : World) : Prop where
  cards : ∀ c ∈ w.store.cards, w.made c.id
  memories : ∀ r ∈ w.runs, ∀ snapshot, r.snapshot = some snapshot → ∀ c ∈ snapshot.memories, w.made c.id

section
variable {lib : Library} {w w' : World} {e : Event}

theorem step_apply {runId : String} {batchIds : List FactId} {actions : List Action} {now : Time}
    (step : Step lib w (.apply runId batchIds actions now) w') :
    ∃ run snapshot t, run ∈ w.runs ∧ run.runId = runId ∧ run.applied = false ∧ run.snapshot = some snapshot ∧
      applyPlan lib ⟨snapshot,runId,batchIds,now⟩ actions w.store = .ok t ∧
      w' = { w with store := t, runs := w.runs.put { run with applied := true } } := by
  simp only [Step,next,bind_ok,demand_ok,require_ok,pure,Except.pure,Except.ok.injEq] at step
  obtain ⟨run,found,_,pending,snapshot,seen,t,ok,rfl⟩ := step
  obtain ⟨member,same⟩ := Table.find?_eq_some.mp found
  exact ⟨run,snapshot,t,member,same,pending,seen,ok,rfl⟩

theorem step_command {c : Command} (step : Step lib w (.command c) w') :
    ∃ t, execute lib w.store c = .ok t ∧ w' = { w with store := t } := by
  simp only [Step,next,bind_ok,pure,Except.pure,Except.ok.injEq] at step
  obtain ⟨t,ok,rfl⟩ := step
  exact ⟨t,ok,rfl⟩

/-- The steps that are neither a command nor a plan leave every card as it is, or
ingest a fact. -/
theorem step_rest (step : Step lib w e w') (noCommand : ∀ c, e ≠ .command c)
    (noPlan : ∀ runId batchIds actions now, e ≠ .apply runId batchIds actions now) : Ages w.store w'.store := by
  cases e with
  | command c => exact absurd rfl (noCommand c)
  | apply runId batchIds actions now => exact absurd rfl (noPlan runId batchIds actions now)
  | begin runId now untilTime =>
    simp only [Step,next,claimLease,bind_ok,require_ok,pure,Except.pure,Except.ok.injEq] at step
    obtain ⟨_,_,_,⟨_,_,rfl⟩,rfl⟩ := step
    exact .of_eq rfl
  | snapshot runId =>
    simp only [Step,next,bind_ok,pure,Except.pure,Except.ok.injEq] at step
    obtain ⟨_,_,_,_,rfl⟩ := step
    exact .of_eq rfl
  | finish runId now =>
    cases step
    exact .of_eq (by unfold releaseLease; dsimp only; split <;> rfl)
  | candidate new reference =>
    simp only [Step,next,bind_ok,pure,Except.pure,Except.ok.injEq] at step
    obtain ⟨⟨t,fact⟩,ok,rfl⟩ := step
    exact ingestFact_ages ok
  | writeBack copy =>
    simp only [Step,next,bind_ok,pure,Except.pure,Except.ok.injEq] at step
    obtain ⟨_,_,rfl⟩ := step
    exact .of_eq rfl

theorem Born.unborn (born : Born w) {run : Consolidation} {snapshot : Snapshot} (member : run ∈ w.runs)
    (pending : run.applied = false) (seen : run.snapshot = some snapshot) (batchIds : List FactId) (now : Time) :
    Unborn ⟨snapshot,run.runId,batchIds,now⟩ w.store := by
  have apart (id : CardId) (made : w.made id) : id.runId ≠ run.runId := by
    obtain ⟨r,there,same,applied⟩ := made
    intro also
    cases w.runs.unique there member (same.trans also)
    rw [pending] at applied
    cases applied
  exact ⟨fun c inside => apart c.id (born.cards c inside),fun c inside => apart c.id (born.memories run member _ seen c inside)⟩

theorem Born.of_runs (born : Born w) (runs : w'.runs = w.runs)
    (ids : ∀ c ∈ w'.store.cards, ∃ c₀ ∈ w.store.cards, c₀.id = c.id) : Born w' := by
  have made (id : CardId) : w'.made id ↔ w.made id := by simp only [World.made,runs]
  constructor
  · intro c inside
    obtain ⟨c₀,member,same⟩ := ids c inside
    exact (made c.id).mpr (same ▸ born.cards c₀ member)
  · intro r member snapshot seen c inside
    exact (made c.id).mpr (born.memories r (runs ▸ member) snapshot seen c inside)

theorem born_step (step : Step lib w e w') (born : Born w) : Born w' := by
  cases e with
  | command c =>
    obtain ⟨t,ok,rfl⟩ := step_command step
    exact born.of_runs rfl (fun c inside => execute_ids ok inside)
  | apply runId batchIds actions now =>
    obtain ⟨run,snapshot,t,member,rfl,pending,seen,ok,rfl⟩ := step_apply step
    have keep (id : CardId) (made : w.made id) :
        World.made { w with store := t, runs := w.runs.put { run with applied := true } } id := by
      obtain ⟨r,there,same,applied⟩ := made
      by_cases this : r.runId = run.runId
      · exact ⟨{ run with applied := true },Table.mem_put.mpr (.inr ⟨rfl,run,member,rfl⟩),this.symm.trans same,rfl⟩
      · exact ⟨r,Table.mem_put.mpr (.inl ⟨there,this⟩),same,applied⟩
    constructor
    · intro c inside
      rcases applyPlan_cards (born.unborn member pending seen batchIds now) ok c inside with old | ⟨c₀,saved,rfl⟩
      · exact keep c.id (born.cards c old)
      · obtain ⟨a,_,tool,touched,cs,_,saves,there⟩ := saved
        rcases saves.known there with ⟨b,target,same⟩ | own
        · exact keep c₀.id (same ▸ born.cards b (mem_targetCards.mp target).1)
        · exact ⟨{ run with applied := true },Table.mem_put.mpr (.inr ⟨rfl,run,member,rfl⟩),own.symm,rfl⟩
    · intro r inside snapshot' seen' c known
      rcases Table.mem_put.mp inside with ⟨there,_⟩ | ⟨rfl,_⟩
      · exact keep c.id (born.memories r there snapshot' seen' c known)
      · exact keep c.id (born.memories run member snapshot' seen' c known)
  | begin runId now untilTime =>
    have ages := step_rest step (by simp) (by simp)
    simp only [Step,next,bind_ok,demand_ok,pure,Except.pure,Except.ok.injEq] at step
    obtain ⟨runs,inserted,t,_,rfl⟩ := step
    have keep (id : CardId) (made : w.made id) : World.made { w with store := t, runs } id := by
      obtain ⟨r,there,rest⟩ := made
      exact ⟨r,(Table.mem_insert inserted).mpr (.inl there),rest⟩
    constructor
    · intro c inside
      obtain ⟨c₀,member,same⟩ := ages.ids inside
      exact same ▸ keep c₀.id (born.cards c₀ member)
    · intro r inside snapshot seen c known
      rcases (Table.mem_insert inserted).mp inside with there | rfl
      · exact keep c.id (born.memories r there snapshot seen c known)
      · cases seen
  | snapshot runId =>
    have ages := step_rest step (by simp) (by simp)
    simp only [Step,next,bind_ok,demand_ok,require_ok,pure,Except.pure,Except.ok.injEq] at step
    obtain ⟨run,found,_,_,rfl⟩ := step
    obtain ⟨member,rfl⟩ := Table.find?_eq_some.mp found
    have keep (id : CardId) (made : w.made id) :
        World.made { w with runs := w.runs.put { run with snapshot := some (takeSnapshot w.store) } } id := by
      obtain ⟨r,there,same,applied⟩ := made
      by_cases this : r.runId = run.runId
      · have itself : r = run := w.runs.unique there member this
        exact ⟨_,Table.mem_put.mpr (.inr ⟨rfl,run,member,rfl⟩),itself ▸ same,itself ▸ applied⟩
      · exact ⟨r,Table.mem_put.mpr (.inl ⟨there,this⟩),same,applied⟩
    constructor
    · exact fun c inside => keep c.id (born.cards c inside)
    · intro r inside snapshot' seen' c known
      rcases Table.mem_put.mp inside with ⟨there,_⟩ | ⟨rfl,_⟩
      · exact keep c.id (born.memories r there snapshot' seen' c known)
      · cases seen'
        exact keep c.id (born.cards c (Table.mem_filter.mp known).1)
  | finish runId now =>
    have ages := step_rest step (by simp) (by simp)
    cases step
    exact born.of_runs rfl (fun c inside => ages.ids inside)
  | candidate new reference =>
    have ages := step_rest step (by simp) (by simp)
    simp only [Step,next,bind_ok,pure,Except.pure,Except.ok.injEq] at step
    obtain ⟨_,_,rfl⟩ := step
    exact born.of_runs rfl (fun c inside => ages.ids inside)
  | writeBack copy =>
    have ages := step_rest step (by simp) (by simp)
    simp only [Step,next,bind_ok,pure,Except.pure,Except.ok.injEq] at step
    obtain ⟨_,_,rfl⟩ := step
    exact born.of_runs rfl (fun c inside => ages.ids inside)

theorem born_start : Born start where
  cards c member := absurd member (Table.not_mem_empty c)
  memories r member := absurd member (Table.not_mem_empty r)

end

end Suixinji.Facts
