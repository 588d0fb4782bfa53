import Suixinji.Facts.Evidence

/-! Forgotten facts stay forgotten: no active fact of a note overlaps a span that
was forgotten of it, unless a stale copy is written back or the forgetting itself
left such a fact behind. -/
namespace Suixinji.Facts
open Relational Checked Transition

def Store.without (s : Store) (f : FactId) : Prop :=
  ∀ g ∈ s.facts, g.active → g.id ≠ f ∧ (g.id.noteId = f.noteId → overlap f.evidenceSpan g.id.evidenceSpan = false)

def Undisturbed (s : Store) : Prop := ∀ f ∈ s.facts, f.active → s.entombed f.id.noteId f.id.evidenceSpan = false

/-- The tombstones are the same, and what is active was so or is clear of them. -/
structure Calm (s t : Store) : Prop where
  tombstones : t.tombstones = s.tombstones
  clear : ∀ g ∈ t.facts, g.active →
    (∃ f ∈ s.facts, f.id = g.id ∧ f.active) ∨ s.entombed g.id.noteId g.id.evidenceSpan = false

theorem entombed_congr {s t : Store} (same : t.tombstones = s.tombstones) (noteId span : String) :
    t.entombed noteId span = s.entombed noteId span := by
  simp only [Store.entombed,same]

theorem Calm.undisturbed {s t : Store} (calm : Calm s t) (undisturbed : Undisturbed s) : Undisturbed t := by
  intro g member active
  rw [entombed_congr calm.tombstones]
  rcases calm.clear g member active with ⟨f,there,same,was⟩ | clear
  · exact same ▸ undisturbed f there was
  · exact clear

theorem overlap_self (span : String) : overlap span span = true := by
  simp [overlap,Text.contains_self]

theorem entombed_of_mem {s : Store} {x : Tombstone} {span : String} (there : x ∈ s.tombstones)
    (hit : overlap x.evidenceSpan span = true) : s.entombed x.noteId span = true := by
  simp only [Store.entombed,List.any_eq_true,Bool.and_eq_true,decide_eq_true_eq]
  exact ⟨x,there,rfl,hit⟩

theorem Undisturbed.without {s : Store} {f : FactId} (undisturbed : Undisturbed s) (there : f.tombstone ∈ s.tombstones) :
    s.without f := by
  intro g member active
  have clear := undisturbed g member active
  have apart : g.id.noteId = f.noteId → overlap f.evidenceSpan g.id.evidenceSpan = false := by
    intro note
    cases hit : overlap f.evidenceSpan g.id.evidenceSpan with
    | false => rfl
    | true =>
      have entombed := entombed_of_mem there hit
      rw [note] at clear
      exact absurd entombed (by simp [FactId.tombstone,clear])
  refine ⟨?_,apart⟩
  rintro rfl
  have off := apart rfl
  rw [overlap_self] at off
  cases off

theorem Calm.of_kept {s t : Store} (kept : Kept s t) (tombstones : t.tombstones = s.tombstones) : Calm s t where
  tombstones := tombstones
  clear g member active := by
    rcases kept.origin g member with ⟨f,there,same,status,_⟩ | never
    · exact .inl ⟨f,there,same.symm,(Kept.active status).symm.trans active⟩
    · exact never.elim

theorem Calm.of_onward {s t : Store} (onward : Onward s t) : Calm s t := .of_kept onward.kept onward.tombstones

theorem Calm.of_withdraws {s t : Store} {gone : List FactId} (withdraws : Withdraws gone s t)
    (tombstones : t.tombstones = s.tombstones) : Calm s t :=
  ⟨tombstones,fun g member active => .inl (withdraws.back g member active).2⟩

section
variable {lib : Library} {s t : Store}

theorem ingestFact_calm {new : NewFact} {fact : Fact} (ok : ingestFact lib new s = .ok (t,fact)) : Calm s t := by
  obtain ⟨id,⟨rfl,_⟩ | ⟨_,made,stored⟩⟩ := ingestFact_ok ok
  · exact .of_kept (.of_eq rfl) rfl
  have before := Calm.of_withdraws (invalidateSources_withdraws s id.noteId id.sourceRevision) rfl
  refine ⟨by rw [stored]; exact before.tombstones,?_⟩
  intro g member active
  rw [stored] at member
  rcases Table.mem_upsert.mp member with rfl | ⟨old,_⟩
  · right
    rw [made] at active ⊢
    rw [← entombed_congr before.tombstones]
    simpa [NewFact.row,Fact.active] using active
  · exact before.clear g old active

theorem syncSource_calm (s : Store) (noteId text : String) : Calm s (syncSource s noteId text).1 := by
  have withdrawn := Calm.of_withdraws (invalidateSources_withdraws s noteId ⟨text⟩) rfl
  unfold syncSource
  dsimp only
  split
  · exact ⟨withdrawn.tombstones,withdrawn.clear⟩
  · exact withdrawn

theorem mem_bury {tombstones : Table (fun t : Tombstone => t)} {gone : List FactId} {x : Tombstone} :
    x ∈ gone.foldl (fun t (f : FactId) => t.upsert f.tombstone) tombstones ↔
      x ∈ tombstones ∨ ∃ f ∈ gone, x = f.tombstone := by
  induction gone generalizing tombstones with
  | nil => simp
  | cons f gone ih =>
    rw [List.foldl_cons,ih,Table.mem_upsert]
    by_cases same : x = f.tombstone
    · simp [same]
    · simp [same]

theorem mem_forget_tombstones {gone : List FactId} (selected : List EntityId) {x : Tombstone} :
    x ∈ (s.forget gone selected).tombstones ↔ x ∈ s.tombstones ∨ ∃ f ∈ gone, x = f.tombstone := mem_bury

def Store.goWhole (s : Store) (gone : List FactId) : Prop :=
  ∀ f ∈ gone, ∀ g ∈ s.facts, g.active → g.id.noteId = f.noteId → overlap f.evidenceSpan g.id.evidenceSpan → g.id ∈ gone

theorem Undisturbed.forget {gone : List FactId} (undisturbed : Undisturbed s) (whole : s.goWhole gone)
    (selected : List EntityId) : Undisturbed (s.forget gone selected) := by
  intro g inside active
  obtain ⟨outside,f,member,same,was⟩ := (forget_withdraws s gone selected).back g inside active
  cases hit : (s.forget gone selected).entombed g.id.noteId g.id.evidenceSpan with
  | false => rfl
  | true =>
    simp only [Store.entombed,List.any_eq_true,Bool.and_eq_true,decide_eq_true_eq] at hit
    obtain ⟨x,there,note,overlaps⟩ := hit
    rcases (mem_forget_tombstones selected).mp there with old | ⟨h,chosen,rfl⟩
    · have entombed := entombed_of_mem old overlaps
      rw [note,← same,undisturbed f member was] at entombed
      cases entombed
    · have also := whole h chosen f member was (same ▸ note.symm) (same ▸ overlaps)
      exact absurd (same ▸ also) outside

end

/-- The steps that leave nothing forgotten behind and bring nothing of it back:
a deletion takes every active fact that overlaps one it takes, and no active copy
is written back over a tombstone. -/
def Clean (w : World) : Event → Prop
  | .command (.approve requestId selected) => w.store.goWhole (w.store.selectedFacts requestId selected)
  | .writeBack copy => copy.active → w.store.entombed copy.id.noteId copy.id.evidenceSpan = false
  | _ => True

section
variable {lib : Library} {w w' : World} {e : Event}

theorem step_calm (step : Step lib w e w') :
    (∃ requestId selected deletes, e = .command (.approve requestId selected) ∧
      w'.store = { w.store.forget (w.store.selectedFacts requestId selected) selected with deletes }) ∨
    (∃ copy, e = .writeBack copy ∧ w'.store = w.store.putFact copy) ∨ Calm w.store w'.store := by
  cases e with
  | command c =>
    simp only [Step,next,bind_ok,pure,Except.pure,Except.ok.injEq] at step
    obtain ⟨t,ok,rfl⟩ := step
    cases c with
    | approve requestId selected =>
      obtain ⟨deletes,stored⟩ := approveForget_ok ok
      exact .inl ⟨requestId,selected,deletes,rfl,stored⟩
    | ingest new =>
      obtain ⟨fact,ingested⟩ := execute_ingest ok
      exact .inr (.inr (ingestFact_calm ingested))
    | sync noteId text =>
      cases ok
      exact .inr (.inr (syncSource_calm w.store noteId text))
    | review ident decision content expected => exact .inr (.inr (.of_onward (reviewMemory_onward ok)))
    | answer ident text =>
      obtain ⟨new,answered⟩ := execute_answer ok
      exact .inr (.inr (.of_onward (answerQuestion_onward answered)))
    | attach ident sources stored => exact .inr (.inr (.of_onward (attachAnswer_onward ok)))
    | request id query candidates => exact .inr (.inr (.of_onward (requestForget_onward ok)))
  | begin runId now untilTime =>
    simp only [Step,next,claimLease,bind_ok,require_ok,pure,Except.pure,Except.ok.injEq] at step
    obtain ⟨_,_,_,⟨_,_,rfl⟩,rfl⟩ := step
    exact .inr (.inr (.of_kept (.of_eq rfl) rfl))
  | snapshot runId =>
    simp only [Step,next,bind_ok,pure,Except.pure,Except.ok.injEq] at step
    obtain ⟨_,_,_,_,rfl⟩ := step
    exact .inr (.inr (.of_kept (.of_eq rfl) rfl))
  | apply runId batchIds actions now =>
    simp only [Step,next,bind_ok,pure,Except.pure,Except.ok.injEq] at step
    obtain ⟨_,_,_,_,_,_,t,ok,rfl⟩ := step
    exact .inr (.inr (.of_onward (applyPlan_onward ok)))
  | finish runId now =>
    cases step
    refine .inr (.inr (.of_kept (.of_eq ?_) ?_)) <;> · unfold releaseLease; dsimp only; split <;> rfl
  | candidate new reference =>
    simp only [Step,next,bind_ok,pure,Except.pure,Except.ok.injEq] at step
    obtain ⟨⟨t,fact⟩,ok,rfl⟩ := step
    exact .inr (.inr (ingestFact_calm ok))
  | writeBack copy =>
    simp only [Step,next,bind_ok,pure,Except.pure,Except.ok.injEq] at step
    obtain ⟨_,_,rfl⟩ := step
    exact .inr (.inl ⟨copy,rfl,rfl⟩)

theorem step_undisturbed (step : Guarded Clean (Step lib) w e w') (undisturbed : Undisturbed w.store) :
    Undisturbed w'.store := by
  obtain ⟨clean,step⟩ := step
  rcases step_calm step with ⟨requestId,selected,deletes,rfl,stored⟩ | ⟨copy,rfl,stored⟩ | calm
  · rw [stored]
    exact undisturbed.forget clean selected
  · rw [stored]
    intro g inside active
    rcases Table.mem_upsert.mp inside with rfl | ⟨member,_⟩
    · exact clean active
    · exact undisturbed g member active
  · exact calm.undisturbed undisturbed

theorem step_tombstones (step : Step lib w e w') {x : Tombstone} (there : x ∈ w.store.tombstones) :
    x ∈ w'.store.tombstones := by
  rcases step_calm step with ⟨_,selected,_,_,stored⟩ | ⟨_,_,stored⟩ | calm
  · rw [stored]
    exact (mem_forget_tombstones selected).mpr (.inl there)
  · rw [stored]
    exact there
  · exact calm.tombstones ▸ there

theorem undisturbed_run {es : List Event} (run : Run (Guarded Clean (Step lib)) start es w) : Undisturbed w.store :=
  run.invariant (fun w => Undisturbed w.store) (fun _ _ _ before step => step_undisturbed step before)
    (fun f member => absurd member (Table.not_mem_empty f))

/-- Once a deletion has taken a fact, no active fact of its note is it or overlaps
its span, as long as every step is clean. -/
theorem forgotten_stays_forgotten {es es' : List Event} {w₁ w₂ : World} {requestId : String} {selected : List EntityId}
    {f : FactId} (before : Run (Guarded Clean (Step lib)) start es w)
    (approved : Guarded Clean (Step lib) w (.command (.approve requestId selected)) w₁)
    (taken : f ∈ w.store.selectedFacts requestId selected) (after : Run (Guarded Clean (Step lib)) w₁ es' w₂) :
    w₂.store.without f := by
  have buried : f.tombstone ∈ w₁.store.tombstones := by
    simp only [Guarded,Step,next,bind_ok,pure,Except.pure,Except.ok.injEq] at approved
    obtain ⟨_,t,ok,rfl⟩ := approved
    obtain ⟨deletes,rfl⟩ := approveForget_ok ok
    exact (mem_forget_tombstones selected).mpr (.inr ⟨f,taken,rfl⟩)
  have still : f.tombstone ∈ w₂.store.tombstones :=
    after.invariant (fun w => f.tombstone ∈ w.store.tombstones)
      (fun _ _ _ there step => step_tombstones step.2 there) buried
  exact (undisturbed_run (before.append (.cons approved after))).without still

end

/-- Some run forgets `f` after `es` and has it, or a fact that overlaps it, active after `es'`. -/
def Returns (es : List Event) (requestId : String) (selected : List EntityId) (f : FactId) (es' : List Event) : Prop :=
  ∃ w w₁ w₂ : World, Run (Step asciiLibrary) start es w ∧
    Step asciiLibrary w (.command (.approve requestId selected)) w₁ ∧ f ∈ w.store.selectedFacts requestId selected ∧
    Run (Step asciiLibrary) w₁ es' w₂ ∧ ¬w₂.store.without f

def catNote : NewFact := { noteId := "n1", originalText := "a cat", content := "a cat", memoryType := some .semantic }

def catFact : FactId := ⟨"n1",⟨"a cat"⟩,"a cat",.semantic,"a cat"⟩

/-- The copy a candidate about the cat is about to write back. -/
def catCopy : Fact := { id := catFact, status := .active, relatedFactIds := [], referenceEvidence := some ⟨[],some "n0"⟩ }

/-- The deletion commits before the candidate writes its copy back; or the note
had a second fact on the same words. -/
theorem forgotten_fact_returns :
    Returns [.candidate catNote ⟨[],some "n0"⟩,.command (.request "d1" "cat" [⟨.fact catFact,none⟩])]
      "d1" [.fact catFact] catFact [.writeBack catCopy] ∧
    Returns [.command (.ingest catNote),.command (.ingest { catNote with memoryType := some .episodic }),
        .command (.request "d1" "cat" [⟨.fact catFact,none⟩])]
      "d1" [.fact catFact] catFact [] := by
  constructor
  · refine ⟨_,_,_,.cons rfl <| .cons rfl <| .nil _,rfl,List.mem_singleton.mpr rfl,.cons rfl <| .nil _,?_⟩
    intro apart
    exact (apart catCopy (List.mem_singleton.mpr rfl) rfl).1 rfl
  · refine ⟨_,_,_,.cons rfl <| .cons rfl <| .cons rfl <| .nil _,rfl,List.mem_singleton.mpr rfl,.nil _,?_⟩
    intro apart
    have clear := (apart _ (List.mem_cons_of_mem _ (List.mem_singleton.mpr rfl)) rfl).2 rfl
    exact absurd clear (by decide)

/-- The copy is written back in time, the only fact is forgotten, and the note is read again. -/
theorem forgotten_stays_forgotten_when_reread : ∃ w₂ : World, w₂.store.facts.rows.length = 2 ∧ w₂.store.without catFact := by
  have before : Run (Guarded Clean (Step asciiLibrary)) start
      [.candidate catNote ⟨[],some "n0"⟩,.writeBack catCopy,.command (.request "d1" "cat" [⟨.fact catFact,none⟩])] _ :=
    .cons ⟨trivial,rfl⟩ <| .cons ⟨fun _ => rfl,rfl⟩ <| .cons ⟨trivial,rfl⟩ <| .nil _
  have approve (w w₁ : World) (ok : next asciiLibrary w (.command (.approve "d1" [.fact catFact])) = .ok w₁)
      (whole : w.store.goWhole (w.store.selectedFacts "d1" [.fact catFact])) :
      Guarded Clean (Step asciiLibrary) w (.command (.approve "d1" [.fact catFact])) w₁ := ⟨whole,ok⟩
  have reread (w w₁ : World)
      (ok : next asciiLibrary w (.command (.ingest { catNote with memoryType := some .episodic })) = .ok w₁) :
      Run (Guarded Clean (Step asciiLibrary)) w [.command (.ingest { catNote with memoryType := some .episodic })] w₁ :=
    .single ⟨trivial,ok⟩
  refine ⟨_,?_,forgotten_stays_forgotten before (approve _ _ rfl ?_) (List.mem_singleton.mpr rfl) (reread _ _ rfl)⟩
  · rfl
  · intro f _ g member _ _ _
    have same : g = catCopy := List.mem_singleton.mp (show g ∈ [catCopy] from member)
    rw [same]
    exact List.mem_singleton.mpr rfl

end Suixinji.Facts
