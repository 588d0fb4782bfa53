import Suixinji.Memories.Effects

/-! The commands on single memories as the updates they make. -/
namespace Suixinji.Memories
open Relational Checked

variable {σ : Type}

/-- Updates one after the other, beside writes to the tables that hang on the memories. -/
inductive Writes (lib : Library σ) (now : Time) : Store σ → List (MemoryId × Changes σ) → Store σ → Prop
  | nil {s} : Writes lib now s [] s
  | update {s t u : Store σ} {id c ls reason note notes} (head : versionedUpdate lib id c reason note now s notes = .ok t)
      (tail : Writes lib now t ls u) : Writes lib now s ((id,c)::ls) u
  | aside {s t u : Store σ} {ls} (memories : t.memories = s.memories) (derived : t.derived = s.derived) (tail : Writes lib now t ls u) :
      Writes lib now s ls u

variable {lib : Library σ} {s s' t u : Store σ} {id : MemoryId} {now : Time} {ls ls' : List (MemoryId × Changes σ)}

theorem Writes.append (first : Writes lib now s ls t) (second : Writes lib now t ls' u) : Writes lib now s (ls ++ ls') u := by
  induction first with
  | nil => exact second
  | update head _ ih => exact .update head (ih second)
  | aside memories derived _ ih => exact .aside memories derived (ih second)

section
variable {c : Changes σ} {reason : Option String} {note : Option NoteId} {notes : List NoteId}

theorem Writes.single (ok : versionedUpdate lib id c reason note now s notes = .ok t) : Writes lib now s [(id,c)] t :=
  .update ok .nil

theorem Writes.beside (memories : t.memories = s.memories) (derived : t.derived = s.derived) : Writes lib now s [] t :=
  .aside memories derived .nil

end

theorem Writes.first {l : MemoryId × Changes σ} (writes : Writes lib now s (l::ls) s') :
    ∃ t u reason note notes, t.memories = s.memories ∧ t.derived = s.derived ∧
      versionedUpdate lib l.1 l.2 reason note now t notes = .ok u ∧ Writes lib now u ls s' := by
  generalize labels : l :: ls = all at writes
  induction writes with
  | nil => cases labels
  | update head tail _ =>
    cases labels
    exact ⟨_,_,_,_,_,rfl,rfl,head,tail⟩
  | aside memories derived _ ih =>
    obtain ⟨t,u,reason,note,notes,memories',derived',head,tail⟩ := ih labels
    exact ⟨t,u,reason,note,notes,memories'.trans memories,derived'.trans derived,head,tail⟩

theorem correctMemory_writes {content : String} {taskStatus : Option (Option TaskStatus)}
    (ok : correctMemory lib id content taskStatus now s = .ok s') : s' = s ∨
      ∃ resolved, Writes lib now s [(id,{ content := some content,status := some .active,taskStatus := resolved })] s' := by
  unfold correctMemory at ok
  split at ok
  · exact .inl (Except.ok.inj ok).symm
  · obtain ⟨resolved,_,update⟩ := bind_ok.mp ok
    exact .inr ⟨resolved,.single update⟩

theorem expireDueMemories_writes {ids : List MemoryId} (ok : expireDueMemories lib ids now s = .ok s') :
    ∃ ls, Writes lib now s ls s' ∧ ∀ l ∈ ls, l.1 ∈ ids ∧ l.2.content = none ∧ l.2.status = some .expired := by
  obtain ⟨_,_,fold⟩ := bind_ok.mp ok
  clear * - fold
  induction ids generalizing s with
  | nil =>
    cases fold
    exact ⟨[],.nil,by simp⟩
  | cons id ids ih =>
    rw [List.foldlM_cons] at fold
    obtain ⟨t,head,tail⟩ := bind_ok.mp fold
    obtain ⟨m,_,update⟩ := bind_ok.mp head
    obtain ⟨ls,writes,labels⟩ := ih tail
    refine ⟨_,.update update writes,fun l member => ?_⟩
    rcases List.mem_cons.mp member with rfl | later
    · exact ⟨by simp,rfl,rfl⟩
    · obtain ⟨listed,rest⟩ := labels l later
      exact ⟨by simp [listed],rest⟩

def Resolution.changes : Resolution → Changes σ
  | .keep => { status := some .active }
  | .merge content => { content := some content,status := some .active }
  | .archive => { status := some .archived }

theorem resolveMemoryConflict_writes {resolution : Resolution}
    (ok : resolveMemoryConflict lib id resolution now s = .ok s') : s' = s ∨ Writes lib now s [(id,resolution.changes)] s' := by
  unfold resolveMemoryConflict at ok
  split at ok
  · exact .inl (Except.ok.inj ok).symm
  · cases resolution with
    | keep => exact .inr (.single ok)
    | merge content =>
      obtain ⟨_,_,update⟩ := bind_ok.mp ok
      exact .inr (.single update)
    | archive => exact .inr (.single ok)

theorem rejectPendingMemory_writes (ok : rejectPendingMemory lib id now s = .ok s') : s' = s ∨
    (s.pending? id).isSome ∧ Writes lib now s [(id,{ status := some .archived })] s' := by
  unfold rejectPendingMemory at ok
  split at ok
  · exact .inl (Except.ok.inj ok).symm
  · rename_i pending
    obtain ⟨t,update,rest⟩ := bind_ok.mp ok
    refine .inr ⟨by simpa [Option.isNone_iff_eq_none,Option.isSome_iff_ne_none] using pending,?_⟩
    split at rest
    · cases rest
      exact .single update
    · cases rest
      exact .update update (.beside rfl rfl)

theorem editPendingMemory_writes {content : String} {approves : Bool}
    (ok : editPendingMemory lib id content now s = .ok (approves,s')) : s' = s ∨
      (s.pending? id).isSome ∧ ∃ taskStatus, Writes lib now s
        [(id,{ content := some content,status := some .pendingReview,taskStatus })] s' := by
  unfold editPendingMemory at ok
  split at ok
  · cases ok
    exact .inl rfl
  · rename_i m found
    obtain ⟨t,update,rest⟩ := bind_ok.mp ok
    obtain ⟨_,_,last⟩ := bind_ok.mp rest
    cases last
    have pending : s.pending? id = some m := (Option.filter_eq_some_iff.mp found).1
    exact .inr ⟨by simp [pending],_,.update update (.beside rfl rfl)⟩

section
variable {pending target : Memory σ} {isTaskUpdate : Bool} {supersedes : Bool} {decisionId : DecisionId} {note : NoteId}

theorem addSources_aside {notes : List NoteId} {relation : SourceRelation} :
    (addSources id notes relation s).memories = s.memories ∧ (addSources id notes relation s).derived = s.derived := by
  induction notes generalizing s with
  | nil => exact ⟨rfl,rfl⟩
  | cons note notes ih => exact ih (s := (addSource id note relation s).2)

theorem approveMutation_writes (ok : approveMutation lib pending target isTaskUpdate decisionId note now s = .ok s') :
    Writes lib now s [(target.id,approvedMutation lib pending target isTaskUpdate now),
      (pending.id,{ status := some .archived })] s' := by
  obtain ⟨t,first,rest⟩ := bind_ok.mp ok
  obtain ⟨u,second,last⟩ := bind_ok.mp rest
  cases last
  refine .aside addSources_aside.1 addSources_aside.2 (.update first (.update second (.beside ?_ ?_)))
  · split <;> rfl
  · split <;> rfl

theorem approveReplacement_writes (ok : approveReplacement lib pending target supersedes decisionId note now s = .ok s') :
    Writes lib now s [(target.id,{
      status := some (if supersedes then .superseded else .conflicted)
      validUntil := if supersedes then some now else none }),
      (pending.id,{ status := some (if supersedes then .active else .conflicted),lastConfirmedAt := some now })] s' := by
  obtain ⟨t,first,rest⟩ := bind_ok.mp ok
  obtain ⟨u,second,last⟩ := bind_ok.mp rest
  cases last
  exact Writes.aside (t := (addSource target.id note .contradictedBy s).2) rfl rfl (.update first (.update second (.beside rfl rfl)))

end

/-- The updates of an approval, of the target and of the memory that waited. -/
def DecisionRow.updates (lib : Library σ) (r : DecisionRow) (pending : Memory σ) (now : Time) (s : Store σ) :
    List (MemoryId × Changes σ) :=
  let mutates := fun (t : Memory σ) isTaskUpdate =>
    [(t.id,approvedMutation lib pending t isTaskUpdate now),(pending.id,({ status := some .archived } : Changes σ))]
  let replaces := fun (t : Memory σ) (supersedes : Bool) =>
    [(t.id,({ status := some (if supersedes then .superseded else .conflicted)
              validUntil := if supersedes then some now else none } : Changes σ)),
      (pending.id,{ status := some (if supersedes then .active else .conflicted),lastConfirmedAt := some now })]
  match r.relation,r.target s with
  | .new,_ => [(pending.id,{ status := some .active,lastConfirmedAt := some now })]
  | .merge,some t => mutates t false
  | .updateTask,some t => mutates t true
  | .supersede,some t => replaces t true
  | .conflict,some t => replaces t false
  | _,_ => []

theorem approveRelation_writes {pending : Memory σ} {r : DecisionRow} {action : DecisionAction} {ids : List MemoryId}
    (ok : approveRelation lib pending r now s = .ok (action,ids,s')) : Writes lib now s (r.updates lib pending now s) s' := by
  unfold approveRelation at ok
  split at ok
  · rename_i relation
    obtain ⟨t,update,last⟩ := bind_ok.mp ok
    cases last
    rw [DecisionRow.updates,relation]
    exact .single update
  · rename_i relation there
    obtain ⟨u,mutation,last⟩ := bind_ok.mp ok
    cases last
    rw [DecisionRow.updates,relation,there]
    exact approveMutation_writes mutation
  · rename_i relation there
    obtain ⟨u,mutation,last⟩ := bind_ok.mp ok
    cases last
    rw [DecisionRow.updates,relation,there]
    exact approveMutation_writes mutation
  · rename_i relation there
    obtain ⟨u,replacement,last⟩ := bind_ok.mp ok
    cases last
    rw [DecisionRow.updates,relation,there]
    exact approveReplacement_writes replacement
  · rename_i relation there
    obtain ⟨u,replacement,last⟩ := bind_ok.mp ok
    cases last
    rw [DecisionRow.updates,relation,there]
    exact approveReplacement_writes replacement
  · cases ok

theorem approvePendingMemory_writes {returned : Option MemoryId}
    (ok : approvePendingMemory lib id now s = .ok (returned,s')) : s' = s ∨
      ∃ pending r, s.pending? id = some pending ∧ s.reviewed id = some r ∧ Writes lib now s (r.updates lib pending now s) s' := by
  unfold approvePendingMemory at ok
  split at ok
  · rename_i pending r waits reviewed
    obtain ⟨⟨action,ids,t⟩,approved,last⟩ := bind_ok.mp ok
    cases last
    have resolved : Writes lib now t [] { t with decisions := t.decisions.put (r.approved action ids now) } := .beside rfl rfl
    have writes := (approveRelation_writes approved).append resolved
    rw [List.append_nil] at writes
    exact .inr ⟨pending,r,waits,reviewed,writes⟩
  · cases ok
    exact .inl rfl

end Suixinji.Memories
