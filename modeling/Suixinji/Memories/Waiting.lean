import Suixinji.Memories.Applied
import Suixinji.Memories.Approval

/-! A decision that is stored for review, and its approval while nothing else happens. -/
namespace Suixinji.Memories
open Relational Checked

variable {σ : Type} {lib : Library σ} {s s' : Store σ} {call : ApplyCall σ} {d : Decision} {t pending : Memory σ}
  {note : NoteId} {now : Time} {result : Result}

structure ApplyCall.drawn (call : ApplyCall σ) (s : Store σ) : Prop where
  sources : s.noteIds call.newId = []
  results : ∀ r ∈ s.decisions, call.newId ∉ r.resultMemoryIds
  decision : s.decisions.find? call.decision.decisionId = none

def ApplyCall.pendingRow (lib : Library σ) (call : ApplyCall σ) : Memory σ :=
  call.candidate.row lib call.newId call.spaceId .pendingReview call.now

def ApplyCall.waitingRow (call : ApplyCall σ) (d : Decision) : DecisionRow :=
  d.row call.spaceId call.noteId .pendingReview [call.newId] none call.now

theorem latest_append {p : DecisionRow → Bool} {rows : List DecisionRow} {r : DecisionRow}
    (others : ∀ x ∈ rows, p x = false) (meets : p r) : latest p (rows ++ [r]) = some r := by
  have none : rows.filter p = [] := List.filter_eq_nil_iff.mpr (fun x member => by simp [others x member])
  simp [latest,List.filter_append,none,meets]

section
variable {ids : List MemoryId}

theorem supportTarget_action (ok : supportTarget lib call d t s = .ok (result,ids,s')) :
    result.action = d.recommendedAction := by
  obtain ⟨_,_,last⟩ := bind_ok.mp ok
  cases last
  rfl

theorem mutateTarget_action (ok : mutateTarget lib call d t s = .ok (result,ids,s')) :
    result.action = d.recommendedAction := by
  obtain ⟨_,_,rest⟩ := bind_ok.mp ok
  obtain ⟨_,_,last⟩ := bind_ok.mp rest
  cases last
  rfl

theorem replaceTarget_action (ok : replaceTarget lib call d t s = .ok (result,ids,s')) :
    result.action = d.recommendedAction := by
  obtain ⟨_,_,rest⟩ := bind_ok.mp ok
  obtain ⟨_,_,last⟩ := bind_ok.mp rest
  cases last
  rfl

theorem perform_action {target : Option (Memory σ)} (ok : perform lib call d target s = .ok (result,ids,s')) :
    result.action = d.recommendedAction := by
  unfold perform at ok
  split at ok
  · rename_i named
    cases ok
    exact named.symm
  · exact (insertDecided_ok ok).2.1
  · exact (insertDecided_ok ok).2.1
  · exact supportTarget_action ok
  · exact mutateTarget_action ok
  · exact mutateTarget_action ok
  · exact mutateTarget_action ok
  · exact replaceTarget_action ok
  · exact replaceTarget_action ok
  · cases ok

end

structure Stored (lib : Library σ) (call : ApplyCall σ) (target : Option (Memory σ)) (s u s' : Store σ) (result : Result) :
    Prop where
  prior : s.prior call.spaceId call.candidate.candidateId = none
  chosen : call.target s = .ok target
  passed : call.checkCards target s = .ok ()
  action : (call.settled lib target).recommendedAction = .pendingReview
  done : insertDecided lib call (call.settled lib target) .pendingReview s = .ok (result,[call.newId],u)
  saved : saveDecision call.spaceId call.noteId (call.settled lib target) .pendingReview [call.newId] none call.now
    (markAffected lib call.candidate result u) = .ok s'

theorem stored_of_pending (ok : applyMemoryDecision lib call s = (.ok result,s')) (pends : result.action = .pendingReview)
    (new : result.idempotent = false) : ∃ target u, Stored lib call target s u s' result := by
  obtain ⟨prior,_,rfl,_⟩ | ⟨prior,target,chosen,passed,ids,u,done,saved⟩ :=
    applyInSession_ok.mp (applyMemoryDecision_ok.mp ok)
  · cases new
  · have action : (call.settled lib target).recommendedAction = .pendingReview := (perform_action done).symm.trans pends
    simp only [perform,action] at done
    obtain ⟨_,_,_,_,rfl⟩ := insertDecided_ok done
    rw [action] at saved
    exact ⟨target,u,prior,chosen,passed,action,done,saved⟩

theorem Stored.applies {target : Option (Memory σ)} {u : Store σ} (stored : Stored lib call target s u s' result) :
    applyMemoryDecision lib call s = (.ok result,s') := by
  refine applyMemoryDecision_ok.mpr (applyInSession_ok.mpr
    (.inr ⟨stored.prior,target,stored.chosen,stored.passed,[call.newId],u,?_,?_⟩))
  · simp only [perform,stored.action]
    exact stored.done
  · rw [stored.action]
    exact stored.saved

theorem settled_kept (lib : Library σ) (call : ApplyCall σ) (target : Option (Memory σ)) :
    (call.settled lib target).decisionId = call.decision.decisionId ∧
      (call.settled lib target).candidateId = call.decision.candidateId ∧
      (call.settled lib target).targetMemoryIds = call.decision.targetMemoryIds := by
  cases target with
  | none => exact ⟨rfl,rfl,rfl⟩
  | some t =>
    simp only [ApplyCall.settled,Option.elim_some,Decision.settled]
    split
    · split
      · exact ⟨rfl,rfl,rfl⟩
      · exact ⟨rfl,rfl,rfl⟩
    · exact ⟨rfl,rfl,rfl⟩

theorem settled_conflict (stale : call.decision.stale t)
    (action : (call.settled lib (some t)).recommendedAction = .pendingReview) :
    (call.settled lib (some t)).relation = .conflict := by
  revert action
  simp only [ApplyCall.settled,Option.elim_some,Decision.settled,if_pos stale]
  split
  · exact nofun
  · exact fun _ => rfl

theorem target_ok {target : Option (Memory σ)} (chosen : call.target s = .ok target) :
    (∀ id, call.decision.targetMemoryIds.head? = some id → ∃ t, target = some t ∧ s.memories.find? id = some t) ∧
      ∀ t ∈ target, call.decision.targetMemoryIds.head? = some t.id ∧ s.memories.find? t.id = some t := by
  unfold ApplyCall.target at chosen
  cases head : call.decision.targetMemoryIds.head? with
  | none =>
    rw [head] at chosen
    obtain rfl := Except.ok.inj chosen
    exact ⟨by simp,by simp⟩
  | some id =>
    rw [head] at chosen
    obtain ⟨t,found,last⟩ := bind_ok.mp chosen
    obtain rfl := Except.ok.inj last
    have found := demand_ok.mp found
    obtain ⟨_,rfl⟩ := Table.find?_eq_some.mp found
    refine ⟨fun id same => ?_,fun t' same => ?_⟩
    · obtain rfl := Option.some.inj same
      exact ⟨t,rfl,found⟩
    · obtain rfl := Option.some.inj same
      exact ⟨rfl,found⟩

/-- What storing for review leaves for the approval to find. -/
structure Waiting (lib : Library σ) (call : ApplyCall σ) (d : Decision) (s s' : Store σ) : Prop where
  apart : s'.cardsApart
  fresh : s.memories.find? call.newId = none
  kept : ∀ k, k ≠ call.newId → s'.memories.find? k = s.memories.find? k
  pending : s'.memories.find? call.newId = some (call.pendingRow lib)
  reviewed : s'.reviewed call.newId = some (call.waitingRow d)
  noted : s'.decisions.find? d.decisionId = some (call.waitingRow d)

theorem Waiting.other (waiting : Waiting lib call d s s') (found : s.memories.find? t.id = some t) : call.newId ≠ t.id := by
  intro same
  have absent := waiting.fresh
  rw [same,found] at absent
  cases absent

theorem Waiting.target (waiting : Waiting lib call d s s') (found : s.memories.find? t.id = some t) :
    s'.memories.find? t.id = some t := (waiting.kept t.id (Ne.symm (waiting.other found))).trans found

theorem Waiting.congr {u : Store σ} (waiting : Waiting lib call d s s') (memories : u.memories = s'.memories)
    (decisions : u.decisions = s'.decisions) : Waiting lib call d s u := by
  refine ⟨?_,waiting.fresh,?_,?_,?_,?_⟩
  · rw [Store.cardsApart,memories]
    exact waiting.apart
  · rw [memories]
    exact waiting.kept
  · rw [memories]
    exact waiting.pending
  · rw [Store.reviewed,decisions]
    exact waiting.reviewed
  · rw [decisions]
    exact waiting.noted

variable {u : Store σ} {target : Option (Memory σ)}

theorem Stored.rows (stored : Stored lib call target s u s' result) (drawn : call.drawn s) :
    (∀ r ∈ s.decisions, ¬(r.spaceId = call.spaceId ∧ r.candidateId = call.decision.candidateId)) ∧
      s'.decisions.rows = s.decisions.rows ++ [call.waitingRow (call.settled lib target)] := by
  obtain ⟨sameId,sameCandidate,_⟩ := settled_kept lib call target
  obtain ⟨inserted,_⟩ := insertDecided_ok stored.done
  have same : (markAffected lib call.candidate result u).decisions = s.decisions := inserted.decisions
  have fresh : (markAffected lib call.candidate result u).decisions.find? (call.settled lib target).decisionId = none := by
    rw [same,sameId]
    exact drawn.decision
  obtain ⟨first,rows⟩ := saveDecision_new stored.saved fresh
  rw [same] at first rows
  rw [sameCandidate] at first
  exact ⟨first,rows⟩

theorem Stored.waiting (stored : Stored lib call target s u s' result) (apart : s.cardsApart) (drawn : call.drawn s) :
    Waiting lib call (call.settled lib target) s s' := by
  obtain ⟨inserted,_⟩ := insertDecided_ok stored.done
  obtain ⟨_,rows⟩ := stored.rows drawn
  obtain ⟨decisions,rfl⟩ := saveDecision_frame stored.saved
  refine ⟨inserted.cardsApart apart,inserted.fresh,fun k other => (inserted.find? k).trans (if_neg other),
    (inserted.find? call.newId).trans (if_pos rfl),?_,?_⟩
  · refine (congrArg (latest _) rows).trans (latest_append (fun r member => ?_) ?_)
    · simp [DecisionRow.reviews,drawn.results r member]
    · simp [DecisionRow.reviews,ApplyCall.waitingRow,Decision.row]
  · refine Table.find?_eq_some.mpr ⟨?_,rfl⟩
    show _ ∈ decisions.rows
    rw [show decisions.rows = _ from rows]
    exact List.mem_append_right _ (List.mem_singleton.mpr rfl)

theorem Stored.notes (stored : Stored lib call target s u s' result) (k : MemoryId) (n : NoteId) :
    n ∈ s'.noteIds k ↔ n ∈ s.noteIds k ∨ (k = call.newId ∧ n = call.noteId) := by
  obtain ⟨inserted,_⟩ := insertDecided_ok stored.done
  have same : s'.sources = (addSource call.newId call.noteId .createdFrom s).2.sources := by
    obtain ⟨_,rfl⟩ := saveDecision_frame stored.saved
    exact inserted.sources
  rw [noteIds_congr same]
  exact mem_noteIds_addSource

theorem approveMutation_total {isTaskUpdate : Bool} {decisionId : DecisionId} (apart : s.cardsApart)
    (found : s.memories.find? t.id = some t) (waiting : s.memories.find? pending.id = some pending)
    (other : pending.id ≠ t.id) :
    ∃ s', approveMutation lib pending t isTaskUpdate decisionId note now s = .ok s' ∧
      s'.memories.find? t.id = some (t.changed lib (approvedMutation lib pending t isTaskUpdate now) now) ∧
      s'.memories.find? pending.id = some (pending.changed lib { status := some .archived } now) ∧
      s'.decisions = s.decisions ∧ ∀ n, n ∈ s'.noteIds t.id ↔ n ∈ s.noteIds t.id ∨ n ∈ s.noteIds pending.id := by
  let mutation := approvedMutation lib pending t isTaskUpdate now
  let sourced := addSources t.id (s.noteIds pending.id) (if isTaskUpdate then .updatedBy else .supportedBy) s
  have rows : sourced.memories = s.memories := addSources_memories _ _ s
  have alone : ∀ n ∈ s.memories, ¬(t.changed lib mutation now).sameCard n :=
    changed_apart apart (Table.find?_eq_some.mp found).1 rfl rfl
  obtain ⟨u,update⟩ : ∃ u, versionedUpdate lib t.id mutation
      (some (if isTaskUpdate then "user_approved_update_task" else "user_approved_merge")) (some note) now sourced = .ok u :=
    ⟨_,versionedUpdate_ok.mpr ⟨t,by rw [rows]; exact found,by rw [rows]; exact alone,rfl⟩⟩
  obtain ⟨m,there,_,written⟩ := versionedUpdate_ok.mp update
  obtain rfl : t = m := Option.some.inj (found.symm.trans (by rwa [rows] at there))
  have after : u.memories = s.memories.put (t.changed lib mutation now) := by rw [written,rewrite_memories,rows]
  have waits : u.memories.find? pending.id = some pending := by
    rw [after,find?_changed found,if_neg other,waiting]
  obtain ⟨s',ok⟩ : ∃ s', approveMutation lib pending t isTaskUpdate decisionId note now s = .ok s' :=
    ⟨_,bind_ok.mpr ⟨u,update,bind_ok.mpr ⟨_,versionedUpdate_total (cardsApart_put apart alone after) waits rfl rfl,rfl⟩⟩⟩
  obtain ⟨m,p,there,there',memories,sources⟩ := approveMutation_ok ok
  obtain rfl : t = m := Option.some.inj (found.symm.trans there)
  rw [← after] at there'
  obtain rfl : pending = p := Option.some.inj (waits.symm.trans there')
  rw [← after] at memories
  refine ⟨s',ok,?_,?_,?_,fun n => ?_⟩
  · rw [memories,find?_changed waits,if_neg (Ne.symm other),after,find?_changed found,if_pos rfl]
  · rw [memories,find?_changed waits,if_pos rfl]
  · exact approveMutation_decisions ok
  · rw [noteIds_congr sources,mem_noteIds_addSources]
    exact or_congr_right (and_iff_right rfl)

theorem approveReplacement_total {supersedes : Bool} {decisionId : DecisionId} (apart : s.cardsApart)
    (found : s.memories.find? t.id = some t) (waiting : s.memories.find? pending.id = some pending)
    (other : pending.id ≠ t.id) :
    ∃ s', approveReplacement lib pending t supersedes decisionId note now s = .ok s' ∧
      s'.memories.find? t.id = some (t.changed lib {
        status := some (if supersedes then .superseded else .conflicted)
        validUntil := if supersedes then some now else none } now) ∧
      s'.memories.find? pending.id = some (pending.changed lib {
        status := some (if supersedes then .active else .conflicted)
        lastConfirmedAt := some now } now) ∧
      s'.decisions = s.decisions ∧ ∀ n, n ∈ s'.noteIds t.id ↔ n ∈ s.noteIds t.id ∨ n = note := by
  let marks : Changes σ := {
    status := some (if supersedes then .superseded else .conflicted)
    validUntil := if supersedes then some now else none }
  let ends : Changes σ := {
    status := some (if supersedes then .active else .conflicted)
    lastConfirmedAt := some now }
  have alone : ∀ n ∈ s.memories, ¬(t.changed lib marks now).sameCard n :=
    changed_apart apart (Table.find?_eq_some.mp found).1 rfl rfl
  obtain ⟨u,update⟩ : ∃ u, versionedUpdate lib t.id marks
      (some (if supersedes then "user_approved_supersede" else "user_approved_conflict")) (some note) now
      (addSource t.id note .contradictedBy s).2 = .ok u :=
    ⟨_,versionedUpdate_ok.mpr ⟨t,found,alone,rfl⟩⟩
  obtain ⟨m,there,_,written⟩ := versionedUpdate_ok.mp update
  obtain rfl : t = m := Option.some.inj (found.symm.trans there)
  have after : u.memories = s.memories.put (t.changed lib marks now) := by rw [written]; rfl
  have decisions : u.decisions = s.decisions := by rw [written]; rfl
  have sources : u.sources = (addSource t.id note .contradictedBy s).2.sources := by rw [written]; rfl
  have waits : u.memories.find? pending.id = some pending := by
    rw [after,find?_changed found,if_neg other,waiting]
  have second : versionedUpdate lib pending.id ends (some "user_approved_pending_memory") (some note) now u =
      .ok (u.rewrite lib pending ends (some "user_approved_pending_memory") (some note) [] now) :=
    versionedUpdate_total (cardsApart_put apart alone after) waits rfl rfl
  refine ⟨_,bind_ok.mpr ⟨u,update,bind_ok.mpr ⟨_,second,rfl⟩⟩,?_,?_,decisions,fun n => ?_⟩
  · refine (find?_changed waits t.id).trans ?_
    rw [if_neg (Ne.symm other),after,find?_changed found,if_pos rfl]
  · exact (find?_changed waits pending.id).trans (if_pos rfl)
  · refine (iff_of_eq (congrArg (n ∈ ·) (noteIds_congr (k := t.id) sources))).trans ?_
    rw [mem_noteIds_addSource]
    exact or_congr_right (and_iff_right rfl)

theorem Waiting.approve {action : DecisionAction} {ids : List MemoryId} {later : Time} (waiting : Waiting lib call d s s')
    (done : approveRelation lib (call.pendingRow lib) (call.waitingRow d) later s' = .ok (action,ids,u)) :
    approvePendingMemory lib call.newId later s' =
      .ok (ids.head?,{ u with decisions := u.decisions.put ((call.waitingRow d).approved action ids later) }) := by
  have pends : s'.pending? call.newId = some (call.pendingRow lib) :=
    (congrArg (Option.filter _) waiting.pending).trans rfl
  unfold approvePendingMemory
  rw [pends,waiting.reviewed]
  exact bind_ok.mpr ⟨_,done,rfl⟩

theorem Waiting.found (waiting : Waiting lib call d s s') (found : s.memories.find? t.id = some t)
    (head : d.targetMemoryIds.head? = some t.id) : (call.waitingRow d).target s' = some t :=
  (congrArg (Option.bind · _) head).trans (waiting.target found)

/-- The approval goes through: the decision is applied, and the memory waits no longer. -/
structure Approves (lib : Library σ) (id : MemoryId) (decisionId : DecisionId) (later : Time) (s s₃ : Store σ) : Prop where
  approved : ∃ returned, approvePendingMemory lib id later s = .ok (some returned,s₃)
  applied : ∃ r ∈ s₃.decisions.find? decisionId, r.status = .applied
  settled : ∃ m ∈ s₃.memories.find? id, m.status ≠ .pendingReview

theorem Waiting.applied {row : DecisionRow} (waiting : Waiting lib call d s s') (same : u.decisions = s'.decisions)
    (named : row.id = d.decisionId) (status : row.status = .applied) :
    ∃ r ∈ (u.decisions.put row).find? d.decisionId, r.status = .applied := by
  rw [same,← named,Table.find?_put_of s'.decisions (by rw [named]; exact waiting.noted) row.id,if_pos rfl]
  exact ⟨row,rfl,status⟩

theorem Waiting.mutated (waiting : Waiting lib call d s s') (later : Time) (found : s.memories.find? t.id = some t)
    (head : d.targetMemoryIds.head? = some t.id) (isTaskUpdate : Bool)
    (named : d.relation = if isTaskUpdate then .updateTask else .merge) :
    ∃ s₃, Approves lib call.newId d.decisionId later s' s₃ ∧
      s₃.memories.find? t.id =
        some (t.changed lib (approvedMutation lib (call.pendingRow lib) t isTaskUpdate later) later) ∧
      ∀ n, n ∈ s₃.noteIds t.id ↔ n ∈ s'.noteIds t.id ∨ n ∈ s'.noteIds call.newId := by
  obtain ⟨w,mutated,there,gone,same,notes⟩ : ∃ w, approveMutation lib (call.pendingRow lib) t isTaskUpdate
      (call.waitingRow d).id ((s'.noteIds call.newId).head?.getD call.noteId) later s' = .ok w ∧ _ :=
    approveMutation_total waiting.apart (waiting.target found) waiting.pending (waiting.other found)
  obtain ⟨action,done⟩ : ∃ action, approveRelation lib (call.pendingRow lib) (call.waitingRow d) later s' =
      .ok (action,[t.id,call.newId],w) := by
    have relation : (call.waitingRow d).relation = if isTaskUpdate then .updateTask else .merge := named
    unfold approveRelation
    rw [waiting.found found head]
    cases isTaskUpdate with
    | false =>
      rw [relation]
      exact ⟨_,bind_ok.mpr ⟨w,mutated,rfl⟩⟩
    | true =>
      rw [relation]
      exact ⟨_,bind_ok.mpr ⟨w,mutated,rfl⟩⟩
  exact ⟨_,⟨⟨_,waiting.approve done⟩,waiting.applied same rfl rfl,_,gone,nofun⟩,there,notes⟩

theorem Waiting.replaced (waiting : Waiting lib call d s s') (later : Time) (found : s.memories.find? t.id = some t)
    (head : d.targetMemoryIds.head? = some t.id) (supersedes : Bool)
    (named : d.relation = if supersedes then .supersede else .conflict) :
    ∃ s₃, Approves lib call.newId d.decisionId later s' s₃ ∧
      s₃.memories.find? t.id = some (t.changed lib {
        status := some (if supersedes then .superseded else .conflicted)
        validUntil := if supersedes then some later else none } later) ∧
      ∀ n, n ∈ s₃.noteIds t.id ↔ n ∈ s'.noteIds t.id ∨ n = (s'.noteIds call.newId).head?.getD call.noteId := by
  obtain ⟨w,replaced,there,settled,same,notes⟩ : ∃ w, approveReplacement lib (call.pendingRow lib) t supersedes
      (call.waitingRow d).id ((s'.noteIds call.newId).head?.getD call.noteId) later s' = .ok w ∧ _ :=
    approveReplacement_total waiting.apart (waiting.target found) waiting.pending (waiting.other found)
  obtain ⟨action,done⟩ : ∃ action, approveRelation lib (call.pendingRow lib) (call.waitingRow d) later s' =
      .ok (action,[call.newId,t.id],w) := by
    have relation : (call.waitingRow d).relation = if supersedes then .supersede else .conflict := named
    unfold approveRelation
    rw [waiting.found found head]
    cases supersedes with
    | false =>
      rw [relation]
      exact ⟨_,bind_ok.mpr ⟨w,replaced,rfl⟩⟩
    | true =>
      rw [relation]
      exact ⟨_,bind_ok.mpr ⟨w,replaced,rfl⟩⟩
  refine ⟨_,⟨⟨_,waiting.approve done⟩,waiting.applied same rfl rfl,_,settled,?_⟩,there,notes⟩
  cases supersedes with
  | false => exact nofun
  | true => exact nofun

theorem Waiting.unsupported (waiting : Waiting lib call d s s') (later : Time)
    (named : d.relation = .update ∨ d.relation = .ambiguousMatch) :
    ∃ e, approvePendingMemory lib call.newId later s' = .error e := by
  have pends : s'.pending? call.newId = some (call.pendingRow lib) :=
    (congrArg (Option.filter _) waiting.pending).trans rfl
  have relation : (call.waitingRow d).relation = d.relation := rfl
  unfold approvePendingMemory
  rw [pends,waiting.reviewed]
  simp only [approveRelation,relation]
  rcases named with update | ambiguous
  · rw [update]
    exact ⟨_,rfl⟩
  · rw [ambiguous]
    exact ⟨_,rfl⟩

end Suixinji.Memories
