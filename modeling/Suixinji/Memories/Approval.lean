import Suixinji.Memories.Effects

/-! Approval of a memory that waited for review (`approve_pending_memory`): what it
returns, when the target has lived on in the meantime. -/
namespace Suixinji.Memories
open Relational Checked Transition

variable {σ : Type} {lib : Library σ} {s s' : Store σ} {pending target : Memory σ} {d : DecisionRow}
  {id r : MemoryId} {note : NoteId} {now : Time}

theorem canTransition_all (old new : Option TaskStatus) : canTransition old new = true := by
  cases new with
  | none => rfl
  | some new =>
    cases old with
    | none => rfl
    | some old => cases old <;> cases new <;> rfl

/-- The relations whose approval keeps or brings a memory. -/
def DecisionRelation.keeps (relation : DecisionRelation) : Prop :=
  relation = .new ∨ relation = .merge ∨ relation = .updateTask ∨ relation = .supersede

/-- The memory the approval returns is active, and the task has taken an allowed step. -/
structure Approved (s s' : Store σ) (d : DecisionRow) (r : MemoryId) : Prop where
  active : ∃ m ∈ s'.memories.find? r, m.status = .active
  transition : d.relation = .updateTask → ∀ m ∈ s.memories.find? r, ∀ m' ∈ s'.memories.find? r,
    m'.taskStatus = m.taskStatus ∨ canTransition m.taskStatus m'.taskStatus

def Unharmed (s : Store σ) (d : DecisionRow) : Prop :=
  d.relation = .merge ∨ d.relation = .updateTask → ∃ t ∈ d.target s, t.status = .active

@[simp] theorem addSources_memories (notes : List NoteId) (relation : SourceRelation) (s : Store σ) :
    (addSources id notes relation s).memories = s.memories := by
  unfold addSources
  induction notes generalizing s with
  | nil => rfl
  | cons note notes ih => exact ih _

@[simp] theorem addSources_decisions (notes : List NoteId) (relation : SourceRelation) (s : Store σ) :
    (addSources id notes relation s).decisions = s.decisions := by
  unfold addSources
  induction notes generalizing s with
  | nil => rfl
  | cons note notes ih => exact ih _

theorem approveMutation_ok {isTaskUpdate : Bool} {decisionId : DecisionId}
    (ok : approveMutation lib pending target isTaskUpdate decisionId note now s = .ok s') :
    ∃ t p, s.memories.find? target.id = some t ∧
      (s.memories.put (t.changed lib (approvedMutation lib pending target isTaskUpdate now) now)).find? pending.id = some p ∧
      s'.memories = (s.memories.put (t.changed lib (approvedMutation lib pending target isTaskUpdate now) now)).put
        (p.changed lib { status := some .archived } now) ∧
      s'.sources = (addSources target.id (s.noteIds pending.id)
        (if isTaskUpdate then .updatedBy else .supportedBy) s).sources := by
  obtain ⟨s₁,first,rest⟩ := bind_ok.mp ok
  obtain ⟨s₂,second,last⟩ := bind_ok.mp rest
  obtain ⟨t,there,_,rfl⟩ := versionedUpdate_ok.mp first
  obtain ⟨p,there',_,rfl⟩ := versionedUpdate_ok.mp second
  rw [addSources_memories] at there
  rw [rewrite_memories,addSources_memories] at there'
  refine ⟨t,p,there,there',?_⟩
  cases last
  split
  · refine ⟨?_,rfl⟩
    rw [rewrite_memories,rewrite_memories,addSources_memories]
  · refine ⟨?_,rfl⟩
    show ((Store.rewrite _ _ _ _ _ _ _ _).memories) = _
    rw [rewrite_memories,rewrite_memories,addSources_memories]

theorem approveMutation_decisions {isTaskUpdate : Bool} {decisionId : DecisionId}
    (ok : approveMutation lib pending target isTaskUpdate decisionId note now s = .ok s') : s'.decisions = s.decisions := by
  obtain ⟨s₁,first,rest⟩ := bind_ok.mp ok
  obtain ⟨s₂,second,last⟩ := bind_ok.mp rest
  obtain ⟨t,_,_,rfl⟩ := versionedUpdate_ok.mp first
  obtain ⟨p,_,_,rfl⟩ := versionedUpdate_ok.mp second
  cases last
  cases isTaskUpdate with
  | false => exact addSources_decisions _ _ _
  | true => exact addSources_decisions _ _ _

theorem approveMutation_target {isTaskUpdate : Bool} {decisionId : DecisionId}
    (found : s.memories.find? target.id = some target)
    (ok : approveMutation lib pending target isTaskUpdate decisionId note now s = .ok s') :
    ∃ m, s'.memories.find? target.id = some m ∧
      m.status = if target.id = pending.id then .archived else target.status := by
  obtain ⟨t,p,there,there',memories,_⟩ := approveMutation_ok ok
  obtain rfl : target = t := Option.some.inj (found.symm.trans there)
  rw [memories,find?_changed there',find?_changed there,if_pos rfl]
  by_cases self : target.id = pending.id
  · rw [if_pos self,if_pos self]
    exact ⟨_,rfl,rfl⟩
  · rw [if_neg self,if_neg self]
    exact ⟨_,rfl,rfl⟩

theorem approveReplacement_pending {supersedes : Bool} {decisionId : DecisionId}
    (ok : approveReplacement lib pending target supersedes decisionId note now s = .ok s') :
    ∃ m, s'.memories.find? pending.id = some m ∧ m.status = if supersedes then .active else .conflicted := by
  obtain ⟨s₁,first,rest⟩ := bind_ok.mp ok
  obtain ⟨s₂,second,last⟩ := bind_ok.mp rest
  obtain ⟨p,there,_,rfl⟩ := versionedUpdate_ok.mp second
  cases last
  exact ⟨_,(find?_changed there pending.id).trans (if_pos rfl),rfl⟩

theorem head_target {t : Memory σ} (found : d.target s = some t) : s.memories.find? t.id = some t := by
  obtain ⟨k,_,there⟩ := Option.bind_eq_some_iff.mp found
  rwa [(Table.find?_eq_some.mp there).2]

theorem approvePendingMemory_some (ok : approvePendingMemory lib id now s = .ok (some r,s')) :
    ∃ pending d action ids t, s.pending? id = some pending ∧ s.reviewed id = some d ∧
      approveRelation lib pending d now s = .ok (action,ids,t) ∧ ids.head? = some r ∧
      s' = { t with decisions := t.decisions.put (d.approved action ids now) } := by
  unfold approvePendingMemory at ok
  split at ok
  · rename_i pending d waiting reviewed
    obtain ⟨⟨action,ids,t⟩,done,last⟩ := bind_ok.mp ok
    obtain ⟨head,rfl⟩ := Prod.mk.inj (Except.ok.inj last)
    exact ⟨pending,d,action,ids,t,waiting,reviewed,done,head,rfl⟩
  · cases ok

theorem pending?_found (waiting : s.pending? id = some pending) : s.memories.find? pending.id = some pending := by
  obtain ⟨found,_⟩ := Option.filter_eq_some_iff.mp waiting
  rwa [(Table.find?_eq_some.mp found).2]

/-- An approval that returns a memory returns an active one just when a target that it
mutates was active; the task step is never refused. -/
theorem approve_approved (ok : approvePendingMemory lib id now s = .ok (some r,s')) (reviewed : s.reviewed id = some d)
    (keeps : d.relation.keeps) : Approved s s' d r ↔ Unharmed s d := by
  obtain ⟨pending,d',action,ids,t,waiting,reviewed',done,head,rfl⟩ := approvePendingMemory_some ok
  obtain rfl : d = d' := Option.some.inj (reviewed.symm.trans reviewed')
  have active : Approved s { t with decisions := t.decisions.put (d.approved action ids now) } d r ↔
      ∃ m ∈ t.memories.find? r, m.status = .active :=
    ⟨Approved.active,fun active => ⟨active,fun _ m _ m' _ => .inr (canTransition_all _ _)⟩⟩
  rw [active]
  unfold approveRelation at done
  have mutated {isTaskUpdate : Bool} {target : Memory σ} {u : Store σ} (found : d.target s = some target)
      (there : approveMutation lib pending target isTaskUpdate d.id ((s.noteIds pending.id).head?.getD d.noteId) now s =
        .ok u) :
      (∃ m ∈ u.memories.find? target.id, m.status = .active) ↔ ∃ t ∈ d.target s, t.status = .active := by
    obtain ⟨m,row,status⟩ := approveMutation_target (head_target found) there
    have waits : pending.status = .pendingReview := by
      simpa using (Option.filter_eq_some_iff.mp waiting).2
    rw [row,found]
    simp only [Option.mem_some_iff,exists_eq_left',status]
    split
    · rename_i self
      have same : target = pending := by
        have first := head_target found
        rw [self,pending?_found waiting] at first
        exact (Option.some.inj first).symm
      rw [same,waits]
      decide
    · rfl
  rcases keeps with named | named | named | named
  · have free : Unharmed s d := by simp [Unharmed,named]
    rw [named] at done
    obtain ⟨u,first,last⟩ := bind_ok.mp done
    obtain ⟨p,there,_,rfl⟩ := versionedUpdate_ok.mp first
    cases last
    obtain rfl : pending.id = r := Option.some.inj head
    exact iff_of_true ⟨_,(find?_changed there pending.id).trans (if_pos rfl),rfl⟩ free
  · rw [Unharmed,named]
    cases found : d.target s with
    | none => simp [named,found] at done
    | some target =>
      rw [named,found] at done
      obtain ⟨u,there,last⟩ := bind_ok.mp done
      cases last
      obtain rfl : target.id = r := Option.some.inj head
      simpa [found] using mutated found there
  · rw [Unharmed,named]
    cases found : d.target s with
    | none => simp [named,found] at done
    | some target =>
      rw [named,found] at done
      obtain ⟨u,there,last⟩ := bind_ok.mp done
      cases last
      obtain rfl : target.id = r := Option.some.inj head
      simpa [found] using mutated found there
  · have free : Unharmed s d := by simp [Unharmed,named]
    cases found : d.target s with
    | none => simp [named,found] at done
    | some target =>
      rw [named,found] at done
      obtain ⟨u,there,last⟩ := bind_ok.mp done
      cases last
      obtain rfl : pending.id = r := Option.some.inj head
      exact iff_of_true (approveReplacement_pending there) free

/-- In every run, an approval returns an active memory just when a target that it mutates
was still active. -/
theorem approval_keeps_active {before after : List (Command σ)} {t : Store σ}
    (run : Run (Step lib) (.empty σ) (before ++ .approve id now :: after) t) :
    ∃ s s', Run (Step lib) (.empty σ) before s ∧ Step lib s (.approve id now) s' ∧ Run (Step lib) s' after t ∧
      ∀ r d, approvePendingMemory lib id now s = .ok (some r,s') → s.reviewed id = some d → d.relation.keeps →
        (Approved s s' d r ↔ Unharmed s d) := by
  obtain ⟨s,first,rest⟩ := run.split
  cases rest with
  | cons step rest => exact ⟨s,_,first,step,rest,fun r d ok reviewed keeps => approve_approved ok reviewed keeps⟩

def teaMemory : Candidate Unit := {
  candidateId := 1,memoryType := .semantic,content := "tea",importance := 1/2,confidence := 1/2,scope := () }

def milkMemory : Candidate Unit := { teaMemory with candidateId := 2,content := "teawithmilk" }

def mergeUnsure : Decision where
  decisionId := 2
  candidateId := 2
  relation := .merge
  targetMemoryIds := [1]
  confidence := 1/2
  reason := "compatible_extension; below_auto_mutation_threshold"
  recommendedAction := .pendingReview
  targetSnapshotVersion := some 1

def mergeWaiting : List (Command Unit) :=
  [.insert 1 0 teaMemory 1 .active 0,
    .apply { spaceId := 0,noteId := 2,candidate := milkMemory,decision := mergeUnsure,newId := 2,now := 1 }]

def targetForgotten : Store Unit := (Store.empty Unit).after (.plain Unit) (mergeWaiting ++ [.softDelete 1 2])

/-- The approval archives the new memory and returns the forgotten one. -/
theorem approval_buries :
    ¬∀ (lib : Library Unit) (before : List (Command Unit)) (id : MemoryId) (now : Time) (s s' : Store Unit),
      Run (Step lib) (.empty Unit) before s → ∀ r d, approvePendingMemory lib id now s = .ok (some r,s') →
        s.reviewed id = some d → d.relation.keeps → Approved s s' d r := by
  intro keeps
  have run : Run (Step (.plain Unit)) (.empty Unit) (mergeWaiting ++ [.softDelete 1 2]) targetForgotten :=
    run_after _ _ _ (by decide +kernel)
  obtain ⟨d,reviewed,named⟩ : ∃ d ∈ targetForgotten.reviewed 2, d.relation = .merge := by decide +kernel
  have returned : (approvePendingMemory (.plain Unit) 2 3 targetForgotten).toOption.any
      (fun p => p.1 = some 1 && (p.2.memories.find? 1).all (·.status = .deleted)) := by decide +kernel
  cases result : approvePendingMemory (.plain Unit) 2 3 targetForgotten with
  | error e =>
    rw [result] at returned
    cases returned
  | ok p =>
    obtain ⟨returnedId,s'⟩ := p
    rw [result] at returned
    obtain ⟨first,deleted⟩ := Bool.and_eq_true_iff.mp returned
    obtain rfl : returnedId = some 1 := of_decide_eq_true first
    obtain ⟨m,found,active⟩ := (keeps _ _ _ _ _ s' run 1 d result reviewed (.inr (.inl named))).active
    rw [found,Option.all_some,active] at deleted
    cases deleted

/-- The same review while the target is still there. -/
theorem approval_keeps_active_merge :
    ∃ s s', Run (Step (.plain Unit)) (.empty Unit) mergeWaiting s ∧ Step (.plain Unit) s (.approve 2 3) s' ∧
      Run (Step (.plain Unit)) s' [] s' ∧ ∀ r d, approvePendingMemory (.plain Unit) 2 3 s = .ok (some r,s') →
        s.reviewed 2 = some d → d.relation.keeps → (Approved s s' d r ↔ Unharmed s d) := by
  have run : Run (Step (.plain Unit)) (.empty Unit) (mergeWaiting ++ .approve 2 3 :: []) _ :=
    run_after _ _ _ (by decide +kernel)
  obtain ⟨s,s',before,step,_,exactly⟩ := approval_keeps_active run
  exact ⟨s,s',before,step,.nil s',exactly⟩

end Suixinji.Memories
