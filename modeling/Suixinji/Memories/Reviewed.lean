import Suixinji.Memories.Waiting

/-! A mutation that waits for review and is then approved, beside the same mutation
applied at once. -/
namespace Suixinji.Memories
open Relational Checked

variable {σ : Type} {lib : Library σ} {s s' u : Store σ} {call : ApplyCall σ} {t : Memory σ}
  {id : MemoryId} {now later : Time} {result : Result}

def ApplyCall.deferred (call : ApplyCall σ) : ApplyCall σ :=
  { call with decision := { call.decision with recommendedAction := .pendingReview } }

/-- The call that carries the decision out at once. -/
def ApplyCall.direct (lib : Library σ) (call : ApplyCall σ) (t : Memory σ) : ApplyCall σ :=
  { call with
    decision := { call.decision with
      recommendedAction := if call.decision.relation = .merge then .merge else .updateTask }
    mergedContent := some (mergeContent lib t.content call.candidate.content) }

/-- Two rows say the same of what was remembered. -/
structure Memory.agrees (m n : Memory σ) : Prop where
  content : m.content = n.content
  taskStatus : m.taskStatus = n.taskStatus
  subject : m.subject = n.subject
  objectValue : m.objectValue = n.objectValue
  scope : m.scope = n.scope
  memoryKey : m.memoryKey = n.memoryKey
  confidence : m.confidence = n.confidence
  importance : m.importance = n.importance

/-- A memory is the same in two stores, with the same notes behind it. -/
structure SameMemory (s s' : Store σ) (id : MemoryId) : Prop where
  row : ∃ m ∈ s.memories.find? id, ∃ n ∈ s'.memories.find? id, m.agrees n
  notes : ∀ note, note ∈ s.noteIds id ↔ note ∈ s'.noteIds id

/-- The candidate says nothing of the target that a mutation under review leaves out. -/
structure Covered (lib : Library σ) (c : Candidate σ) (relation : DecisionRelation) (t : Memory σ) : Prop where
  objectValue : c.objectValue = none ∨ c.objectValue = t.objectValue
  scope : c.scope = t.scope
  memoryKey : some (c.effectiveMemoryKey lib) = t.rekeyed lib t.subject
    (if relation = .merge then mergeContent lib t.content c.content else c.content)
  content : relation = .merge → mergeContent lib t.content c.content = "" → c.content = ""
  subject : relation = .updateTask → c.subject = none ∨ c.subject = t.subject
  importance : relation = .updateTask → c.importance ≤ t.importance

theorem direct_applies (found : s.memories.find? t.id = some t) (space : t.spaceId = call.spaceId) (apart : s.cardsApart)
    (drawn : call.drawn s) (current : ¬call.decision.stale t)
    (stored : Stored lib call.deferred (some t) s u s' result) :
    ∃ reply s₂, applyMemoryDecision lib (call.direct lib t) s = (.ok reply,s₂) ∧
      s₂.memories.find? t.id =
        some (t.changed lib ((call.direct lib t).mutation lib (call.direct lib t).decision t) call.now) ∧
      ∀ note, note ∈ s₂.noteIds t.id ↔ note ∈ s.noteIds t.id ∨ note = call.noteId := by
  have settled : (call.direct lib t).settled lib (some t) = (call.direct lib t).decision := if_neg current
  have chosen : (call.direct lib t).target s = .ok (some t) := stored.chosen
  obtain ⟨inserted,_⟩ := insertDecided_ok stored.done
  -- a card beside the target is one that the new row would have met as well
  have alone : ∀ n ∈ s.memories,
      ¬(t.changed lib ((call.direct lib t).mutation lib (call.direct lib t).decision t) call.now).sameCard n := by
    rintro n member ⟨_,near,same,card,own⟩
    refine inserted.apart n member ⟨?_,near.trans space,same,card,own⟩
    exact Table.find?_eq_none.mp inserted.fresh n member
  obtain ⟨reply,ids,v,mutates⟩ := mutateTarget_total found apart alone
  obtain ⟨w,gone,mutated,archived,others,_,_⟩ := mutateTarget_ok found mutates
  have performed : perform lib (call.direct lib t) ((call.direct lib t).settled lib (some t)) (some t) s =
      .ok (reply,ids,v) := by
    rw [settled,← mutates]
    by_cases merge : call.decision.relation = .merge
    · simp [perform,ApplyCall.direct,merge]
    · simp [perform,ApplyCall.direct,merge]
  have decisions : (markAffected lib call.candidate reply v).decisions = s.decisions :=
    archived.decisions.trans mutated.decisions
  obtain ⟨s₂,saved⟩ : ∃ s₂, saveDecision call.spaceId call.noteId ((call.direct lib t).settled lib (some t))
      (decidedStatus ((call.direct lib t).settled lib (some t)).recommendedAction) ids none call.now
      (markAffected lib call.candidate reply v) = .ok s₂ := by
    apply saveDecision_total
    · rw [decisions,settled]
      exact (stored.rows ⟨drawn.1,drawn.2,drawn.3⟩).1
    · rw [decisions,settled]
      exact drawn.decision
  refine ⟨reply,s₂,applyMemoryDecision_ok.mpr (applyInSession_ok.mpr
    (.inr ⟨stored.prior,some t,chosen,stored.passed,ids,v,performed,saved⟩)),?_,fun note => ?_⟩
  · obtain ⟨_,rfl⟩ := saveDecision_frame saved
    refine (archived.find? t.id).trans ?_
    rw [mutated.memories,find?_changed found,if_pos rfl,Option.map_some,if_neg (fun listed => (others _ listed).1 rfl)]
    rfl
  · obtain ⟨_,rfl⟩ := saveDecision_frame saved
    refine (iff_of_eq (congrArg (note ∈ ·) (noteIds_congr (archived.sources.trans mutated.sources)))).trans ?_
    rw [mem_noteIds_addSource]
    exact or_congr_right (and_iff_right rfl)

/-- When a review leads to what the immediate application does: the candidate adds
nothing that the review leaves out; a decision that is out of date adds no note. -/
def ApplyCall.reviewAgrees (lib : Library σ) (call : ApplyCall σ) (t : Memory σ) (s : Store σ) : Prop :=
  if call.decision.stale t then call.noteId ∈ s.noteIds t.id
  else Covered lib call.candidate call.decision.relation t

theorem orElse_eq_right {α : Type} {x y : Option α} : (x <|> y) = y ↔ x = none ∨ x = y := by
  cases x <;> simp [eq_comm]

theorem filter_getD_eq {a b : String} : ((some a).filter (· ≠ "")).getD b = a ↔ (a = "" → b = "") := by
  by_cases empty : a = ""
  · subst empty
    simp [Option.filter]
  · simp [Option.filter,empty]

/-- The rows that the two ways leave of the target. -/
theorem mutations_agree (named : call.decision.relation = .merge ∨ call.decision.relation = .updateTask) :
    (t.changed lib ((call.direct lib t).mutation lib (call.direct lib t).decision t) now).agrees
      (t.changed lib (approvedMutation lib (call.candidate.row lib call.newId call.spaceId .pendingReview call.now) t
        (call.decision.relation = .updateTask) later) later) ↔ Covered lib call.candidate call.decision.relation t := by
  rcases named with merge | task
  · simp only [ApplyCall.direct,ApplyCall.mutation,Memory.changed,approvedMutation,merge]
    constructor
    · rintro ⟨content,_,_,objectValue,scope,memoryKey,_,_⟩
      exact ⟨orElse_eq_right.mp objectValue,scope,memoryKey,fun _ => filter_getD_eq.mp content,by simp,by simp⟩
    · rintro ⟨objectValue,scope,memoryKey,content,_,_⟩
      exact ⟨filter_getD_eq.mpr (content rfl),rfl,rfl,orElse_eq_right.mpr objectValue,scope,memoryKey,rfl,rfl⟩
  · simp only [ApplyCall.direct,ApplyCall.mutation,Memory.changed,approvedMutation,task]
    constructor
    · rintro ⟨_,_,subject,objectValue,scope,memoryKey,_,importance⟩
      exact ⟨orElse_eq_right.mp objectValue,scope,memoryKey,by simp,fun _ => orElse_eq_right.mp subject,
        fun _ => max_eq_left_iff.mp importance⟩
    · rintro ⟨objectValue,scope,memoryKey,_,subject,importance⟩
      exact ⟨rfl,rfl,orElse_eq_right.mpr (subject rfl),orElse_eq_right.mpr objectValue,scope,memoryKey,rfl,
        max_eq_left_iff.mpr (importance rfl)⟩

theorem direct_settled (lib : Library σ) (stale : call.decision.stale t) :
    (call.direct lib t).settled lib (some t) = call.deferred.settled lib (some t) := by
  have both : (call.direct lib t).decision.stale t ∧ call.deferred.decision.stale t := ⟨stale,stale⟩
  simp only [ApplyCall.settled,Option.elim_some,Decision.settled,if_pos both.1,if_pos both.2]
  rfl

theorem sameMemory_iff {m n : Memory σ} (row : s.memories.find? id = some m) (row' : s'.memories.find? id = some n) :
    SameMemory s s' id ↔ m.agrees n ∧ ∀ note, note ∈ s.noteIds id ↔ note ∈ s'.noteIds id := by
  constructor
  · rintro ⟨⟨m',found,n',found',agrees⟩,notes⟩
    obtain rfl : m = m' := Option.some.inj (row.symm.trans found)
    obtain rfl : n = n' := Option.some.inj (row'.symm.trans found')
    exact ⟨agrees,notes⟩
  · rintro ⟨agrees,notes⟩
    exact ⟨⟨m,row,n,row',agrees⟩,notes⟩

/-- Storing a mutation for review and approving it leaves the target as the immediate
application does, just when the review leaves nothing out. -/
theorem review_agrees (named : call.decision.relation = .merge ∨ call.decision.relation = .updateTask)
    (found : s.memories.find? t.id = some t) (space : t.spaceId = call.spaceId) (apart : s.cardsApart)
    (single : call.decision.targetMemoryIds = [t.id]) (drawn : call.drawn s)
    (stored : applyMemoryDecision lib call.deferred s = (.ok result,s')) (pends : result.action = .pendingReview)
    (new : result.idempotent = false) :
    ∃ reply s₂ returned s₃, applyMemoryDecision lib (call.direct lib t) s = (.ok reply,s₂) ∧
      approvePendingMemory lib call.newId later s' = .ok (some returned,s₃) ∧
      (SameMemory s₂ s₃ t.id ↔ call.reviewAgrees lib t s) := by
  obtain ⟨target,u,stored⟩ := stored_of_pending stored pends new
  obtain rfl : target = some t := by
    obtain ⟨m,rfl,there⟩ := (target_ok stored.chosen).1 t.id (by simp [ApplyCall.deferred,single])
    exact there.symm.trans found
  have drawn' : call.deferred.drawn s := ⟨drawn.1,drawn.2,drawn.3⟩
  have waiting := stored.waiting apart drawn'
  have head : (call.deferred.settled lib (some t)).targetMemoryIds.head? = some t.id := by
    rw [(settled_kept lib call.deferred (some t)).2.2]
    exact congrArg List.head? single
  have kept (n : NoteId) : n ∈ s'.noteIds t.id ↔ n ∈ s.noteIds t.id := by
    rw [stored.notes]
    exact or_iff_left (fun both => waiting.other found both.1.symm)
  have own (n : NoteId) : n ∈ s'.noteIds call.newId ↔ n = call.noteId := by
    rw [stored.notes]
    simp [drawn.sources,ApplyCall.deferred]
  by_cases stale : call.decision.stale t
  · -- both ways store a conflict, and its approval only adds the note
    have settled := direct_settled lib stale
    have applied : applyMemoryDecision lib (call.direct lib t) s = (.ok result,s') := by
      have again : Stored lib (call.direct lib t) (some t) s u s' result := by
        refine ⟨stored.prior,stored.chosen,stored.passed,?_,?_,?_⟩
        · rw [settled]
          exact stored.action
        · rw [settled]
          exact stored.done
        · rw [settled]
          exact stored.saved
      exact again.applies
    obtain ⟨s₃,approves,row,notes⟩ := waiting.replaced later found head false (settled_conflict stale stored.action)
    have source : (s'.noteIds call.newId).head?.getD call.noteId = call.noteId := by
      cases first : (s'.noteIds call.newId).head? with
      | none => rfl
      | some n => exact (own n).mp (List.mem_of_mem_head? first)
    obtain ⟨returned,approved⟩ := approves.approved
    refine ⟨result,s',returned,s₃,applied,approved,?_⟩
    rw [sameMemory_iff (waiting.target found) row,ApplyCall.reviewAgrees,if_pos stale]
    constructor
    · rintro ⟨_,same⟩
      exact (kept _).mp ((same _).mpr ((notes _).mpr (.inr source.symm)))
    · intro known
      refine ⟨⟨rfl,rfl,rfl,rfl,rfl,rfl,rfl,rfl⟩,fun n => ((notes n).trans ?_).symm⟩
      exact or_iff_left_of_imp (fun same => (kept n).mpr ((same.trans source) ▸ known))
  · have settled : call.deferred.settled lib (some t) = call.deferred.decision := if_neg stale
    obtain ⟨reply,s₂,applied,row,notes⟩ := direct_applies found space apart drawn stale stored
    have relation : (call.deferred.settled lib (some t)).relation =
        if decide (call.decision.relation = .updateTask) then .updateTask else .merge := by
      rw [settled]
      show call.decision.relation = _
      rcases named with merge | task
      · simp [merge]
      · simp [task]
    obtain ⟨s₃,approves,row',notes'⟩ := waiting.mutated later found head _ relation
    obtain ⟨returned,approved⟩ := approves.approved
    refine ⟨reply,s₂,returned,s₃,applied,approved,?_⟩
    refine (sameMemory_iff row row').trans ?_
    rw [ApplyCall.reviewAgrees,if_neg stale]
    refine (and_iff_left (fun n => ?_)).trans (mutations_agree named)
    exact (notes n).trans ((notes' n).trans (or_congr (kept n) (own n))).symm

/-- A memory that is there, and a call that would extend it. -/
def teaStored : Store Unit := (Store.empty Unit).after (.plain Unit) [.insert 1 0 teaMemory 1 .active 0]

def teaRow : Memory Unit := teaMemory.row (.plain Unit) 1 0 .active 0

def milkCall : ApplyCall Unit := {
  spaceId := 0,noteId := 2,candidate := milkMemory,decision := mergeUnsure,newId := 2,now := 1 }

def latteCall : ApplyCall Unit := { milkCall with candidate := { milkMemory with objectValue := some "latte" } }

theorem milkCall_drawn : milkCall.drawn teaStored :=
  ⟨by decide +kernel,show ∀ r ∈ teaStored.decisions.rows,_ by decide +kernel,by decide +kernel⟩

theorem teaStored_apart : teaStored.cardsApart :=
  show ∀ m ∈ teaStored.memories.rows,∀ n ∈ teaStored.memories.rows,_ by decide +kernel

def milkReply : Result := {
  action := .pendingReview,relation := .merge,decisionId := 2,memoryId := some 2,targetMemoryId := some 1 }

/-- The review drops the object that the candidate names. -/
theorem review_drops_object :
    ¬∀ (lib : Library Unit) (s s' : Store Unit) (call : ApplyCall Unit) (t : Memory Unit) (later : Time) (result : Result),
      (call.decision.relation = .merge ∨ call.decision.relation = .updateTask) → s.memories.find? t.id = some t →
      t.spaceId = call.spaceId → s.cardsApart → call.decision.targetMemoryIds = [t.id] → call.drawn s →
      applyMemoryDecision lib call.deferred s = (.ok result,s') → result.action = .pendingReview →
      result.idempotent = false →
      ∃ reply s₂ returned s₃, applyMemoryDecision lib (call.direct lib t) s = (.ok reply,s₂) ∧
        approvePendingMemory lib call.newId later s' = .ok (some returned,s₃) ∧ SameMemory s₂ s₃ t.id := by
  intro agrees
  let lib := Library.plain Unit
  let waiting := (applyMemoryDecision lib latteCall.deferred teaStored).2
  obtain ⟨reply,s₂,returned,s₃,applied,approved,same⟩ := agrees lib teaStored waiting latteCall teaRow 3 milkReply
    (.inl rfl) (by decide +kernel) rfl teaStored_apart rfl
    ⟨milkCall_drawn.1,milkCall_drawn.2,milkCall_drawn.3⟩ (Prod.ext (by decide +kernel) rfl) rfl rfl
  have kept : ((applyMemoryDecision lib (latteCall.direct lib teaRow) teaStored).2.memories.find? 1).all
      (·.objectValue = some "latte") := by decide +kernel
  have dropped : (approvePendingMemory lib 2 3 waiting).toOption.all
      (fun p => (p.2.memories.find? 1).all (·.objectValue = none)) := by decide +kernel
  obtain ⟨m,row,n,row',agreed⟩ := same.row
  change approvePendingMemory lib 2 3 waiting = _ at approved
  rw [applied] at kept
  rw [approved] at dropped
  change s₂.memories.find? 1 = _ at row
  change s₃.memories.find? 1 = _ at row'
  have first : m.objectValue = some "latte" := by simpa [row] using kept
  have second : n.objectValue = none := by simpa [Except.toOption,row'] using dropped
  rw [agreed.objectValue,second] at first
  cases first

/-- The extension that names no object. -/
theorem review_agrees_milk :
    ∃ reply s₂ returned s₃, applyMemoryDecision (.plain Unit) (milkCall.direct (.plain Unit) teaRow) teaStored = (.ok reply,s₂) ∧
      approvePendingMemory (.plain Unit) 2 3 (applyMemoryDecision (.plain Unit) milkCall.deferred teaStored).2 =
        .ok (some returned,s₃) ∧
      (SameMemory s₂ s₃ 1 ↔ milkCall.reviewAgrees (.plain Unit) teaRow teaStored) := by
  have stored : applyMemoryDecision (.plain Unit) milkCall.deferred teaStored =
      (.ok milkReply,(applyMemoryDecision (.plain Unit) milkCall.deferred teaStored).2) :=
    Prod.ext (by decide +kernel) rfl
  exact review_agrees (.inl rfl) (by decide +kernel) rfl teaStored_apart rfl milkCall_drawn stored rfl rfl

end Suixinji.Memories
