import Suixinji.Relational.Evolution
import Suixinji.Memories.Waiting

/-! Calls of `apply_memory_decision` that run beside each other and beside the other
commands. A call takes the lock of its identity and looks for an earlier decision;
the rows it goes on to write are locked as they are read, so the rest of its
transaction is one step, at its commit. A failure is recorded after the rollback. -/
namespace Suixinji.Memories
open Relational Checked Transition

variable {σ : Type}

def ApplyCall.key (call : ApplyCall σ) : SpaceId × CandidateId := (call.spaceId,call.candidate.candidateId)

def DecisionRow.key (r : DecisionRow) : SpaceId × CandidateId := (r.spaceId,r.candidateId)

/-- The transaction of `apply_memory_decision`, once it has found no earlier decision. -/
def ApplyCall.work (lib : Library σ) (call : ApplyCall σ) (s : Store σ) : Except Error (Result × Store σ) := do
  let target ← call.target s
  call.checkCards target s
  let d := call.settled lib target
  let (result,ids,s) ← perform lib call d target s
  let s := markAffected lib call.candidate result s
  let s ← saveDecision call.spaceId call.noteId d (decidedStatus d.recommendedAction) ids none call.now s
  return (result,s)

/-- A call that has the lock and found no earlier decision; whether the candidate had
taken effect before it began. -/
structure Hold (σ : Type) where
  identity : SpaceId × String
  call : ApplyCall σ
  late : Bool

/-- A call that was rolled back and has its failure to record. -/
structure Failing (σ : Type) where
  call : ApplyCall σ
  decision : Decision
  error : Error
  late : Bool

structure Reply where
  key : SpaceId × CandidateId
  late : Bool
  outcome : Except Error Result

/-- The store with the calls in flight, what took effect and what was replied. -/
structure World (σ : Type) where
  store : Store σ
  holds : Table (Hold.identity (σ := σ)) := .empty
  failing : List (Failing σ) := []
  applied : List (SpaceId × CandidateId) := []
  replies : List Reply := []

inductive Event (σ : Type) where
  /-- the lock, and the lookup of an earlier decision -/
  | lookup (call : ApplyCall σ)
  /-- the rest of the transaction of the call that holds the lock -/
  | commit (identity : SpaceId × String)
  | record (i : Nat)
  /-- a worker dies in its transaction, or before it records its failure -/
  | crash (identity : SpaceId × String)
  | lose (i : Nat)
  | other (c : Command σ)

def Command.applies : Command σ → Bool
  | .apply _ => true
  | _ => false

/-- `pg_advisory_xact_lock`, and the lookup under it. -/
def World.lookup (lib : Library σ) (call : ApplyCall σ) (w : World σ) : Option (World σ) :=
  let identity := (call.spaceId,call.candidate.effectiveMemoryKey lib)
  let late := decide (call.key ∈ w.applied)
  match w.holds.insert ⟨identity,call,late⟩,w.store.prior call.spaceId call.candidate.candidateId with
  | none,_ => none
  | some _,some prior => some { w with replies := w.replies ++ [⟨call.key,late,.ok prior.replay⟩] }
  | some holds,none => some { w with holds }

def World.commit (lib : Library σ) (identity : SpaceId × String) (w : World σ) : Option (World σ) :=
  (w.holds.find? identity).map (fun h =>
    let released := { w with holds := w.holds.filter (·.identity ≠ identity) }
    match h.call.work lib w.store with
    | .ok (result,store) => { released with
        store,applied := h.call.key :: w.applied,replies := w.replies ++ [⟨h.call.key,h.late,.ok result⟩] }
    | .error e =>
      if e.versionConflict then { released with replies := w.replies ++ [⟨h.call.key,h.late,.error e⟩] }
      else { released with failing := w.failing ++ [⟨h.call,h.call.attempted lib w.store,e,h.late⟩] })

def Failing.record (f : Failing σ) (s : Store σ) : Store σ :=
  (saveDecision f.call.spaceId f.call.noteId f.decision .failed [] (some f.error.typeName) f.call.now s).toOption.getD s

def World.next (lib : Library σ) (w : World σ) : Event σ → Option (World σ)
  | .lookup call => w.lookup lib call
  | .commit identity => w.commit lib identity
  | .record i => (w.failing[i]?).map (fun f => { w with
      store := f.record w.store,failing := w.failing.eraseIdx i
      replies := w.replies ++ [⟨f.call.key,f.late,.error f.error⟩] })
  | .crash identity => some { w with holds := w.holds.filter (·.identity ≠ identity) }
  | .lose i => some { w with failing := w.failing.eraseIdx i }
  | .other c => if c.applies then none else (execute lib w.store c).toOption.map (fun store => { w with store })

def World.Step (lib : Library σ) (w : World σ) (e : Event σ) (w' : World σ) : Prop := w.next lib e = some w'

/-- What the callers see to: the decision is about the candidate, its id was drawn for
it, and a candidate has one key. -/
structure ApplyCall.Formed (lib : Library σ) (owner : DecisionId → SpaceId × CandidateId)
    (keyOf : SpaceId × CandidateId → String) (call : ApplyCall σ) : Prop where
  candidate : call.decision.candidateId = call.candidate.candidateId
  decision : owner call.decision.decisionId = call.key
  memoryKey : call.candidate.effectiveMemoryKey lib = keyOf call.key

/-- No candidate comes again after its decision was rejected, and no failure is
recorded over what another call has made of the same decision since. -/
def World.fair (w : World σ) : Event σ → Prop
  | .lookup call => ∀ r ∈ w.store.decisions, r.key = call.key → r.status ≠ .rejected
  | .record i => ∀ f ∈ w.failing[i]?, ∀ r ∈ w.store.decisions, r.id = f.decision.decisionId → r.status = .failed
  | _ => True

instance (w : World σ) (e : Event σ) : Decidable (w.fair e) :=
  match e with
  | .lookup call => inferInstanceAs (Decidable (∀ r ∈ w.store.decisions.rows, r.key = call.key → r.status ≠ .rejected))
  | .record i => inferInstanceAs (Decidable (∀ f ∈ w.failing[i]?, ∀ r ∈ w.store.decisions.rows,
      r.id = f.decision.decisionId → r.status = .failed))
  | .commit _ | .crash _ | .lose _ | .other _ => .isTrue trivial

/-- A step that is not the effect of a call leaves what it must. -/
def World.quiet (w : World σ) (e : Event σ) (w' : World σ) : Prop :=
  match e with
  | .lookup _ | .crash _ | .lose _ => w'.store = w.store
  | .commit _ => w'.applied = w.applied → w'.store = w.store
  | .record _ => (∃ decisions, w'.store = { w.store with decisions }) ∧
      (w'.store.decisions = w.store.decisions ∨ ∃ r : DecisionRow, r.status = .failed ∧
        (w'.store.decisions.rows = w.store.decisions.rows ++ [r] ∨
          (∃ old ∈ w.store.decisions, old.id = r.id ∧ old.status = .failed) ∧ w'.store.decisions = w.store.decisions.put r))
  | .other _ => True

variable {lib : Library σ} {s s' : Store σ} {call : ApplyCall σ} {d : Decision} {target : Option (Memory σ)} {result : Result}
  {ids : List MemoryId} {id : MemoryId} {now : Time}

/-! ### The decisions under the statements -/

theorem versionedUpdate_decisions {c : Changes σ} {reason : Option String} {note : Option NoteId} {notes : List NoteId}
    (ok : versionedUpdate lib id c reason note now s notes = .ok s') : s'.decisions = s.decisions := by
  obtain ⟨_,_,_,rfl⟩ := versionedUpdate_ok.mp ok
  rfl

theorem archiveTerminalTaskDuplicates_decisions {t : MemoryId} {c : Candidate σ} {decisionId : DecisionId} {note : NoteId}
    {gone : List MemoryId} (ok : archiveTerminalTaskDuplicates lib t c decisionId note now s = .ok (gone,s')) :
    s'.decisions = s.decisions := (archiveTerminalTaskDuplicates_ok ok).1.decisions

theorem replaceTarget_decisions {t : Memory σ} (ok : replaceTarget lib call d t s = .ok (result,ids,s')) :
    s'.decisions = s.decisions := by
  obtain ⟨u,update,rest⟩ := bind_ok.mp ok
  obtain ⟨v,inserted,last⟩ := bind_ok.mp rest
  cases last
  have first := versionedUpdate_decisions update
  exact (insertMemory_ok inserted).decisions.trans first

theorem mutateTarget_decisions {t : Memory σ} (ok : mutateTarget lib call d t s = .ok (result,ids,s')) :
    s'.decisions = s.decisions := by
  obtain ⟨u,update,rest⟩ := bind_ok.mp ok
  obtain ⟨⟨gone,v⟩,archived,last⟩ := bind_ok.mp rest
  cases last
  have first := versionedUpdate_decisions update
  split at archived
  · exact (archiveTerminalTaskDuplicates_decisions archived).trans first
  · cases archived
    exact first

theorem supportTarget_decisions {t : Memory σ} (ok : supportTarget lib call d t s = .ok (result,ids,s')) :
    s'.decisions = s.decisions := by
  obtain ⟨⟨gone,v⟩,archived,last⟩ := bind_ok.mp ok
  cases last
  have supported (added : Bool) (row : Memory σ) (u : Store σ) :
      (if added then { u with memories := u.memories.put row } else u).decisions = u.decisions := by
    cases added with
    | false => rfl
    | true => rfl
  split at archived
  · exact (archiveTerminalTaskDuplicates_decisions archived).trans (supported _ _ _)
  · cases archived
    exact supported _ _ _

theorem perform_decisions (ok : perform lib call d target s = .ok (result,ids,s')) : s'.decisions = s.decisions := by
  unfold perform at ok
  split at ok
  · cases ok
    rfl
  · exact (insertDecided_ok ok).1.decisions
  · exact (insertDecided_ok ok).1.decisions
  · exact supportTarget_decisions ok
  · exact mutateTarget_decisions ok
  · exact mutateTarget_decisions ok
  · exact mutateTarget_decisions ok
  · exact replaceTarget_decisions ok
  · exact replaceTarget_decisions ok
  · cases ok

theorem saveDecision_rows {spaceId : SpaceId} {note : NoteId} {status : DecisionStatus} {error : Option String}
    (ok : saveDecision spaceId note d status ids error now s = .ok s') :
    (∃ old ∈ s.decisions, old.id = d.decisionId ∧
        s'.decisions = s.decisions.put { old with status,resultMemoryIds := ids,error }) ∨
      s.decisions.insert (d.row spaceId note status ids error now) = some s'.decisions := by
  unfold saveDecision at ok
  split at ok
  · rename_i old found
    cases ok
    obtain ⟨member,same⟩ := Table.find?_eq_some.mp found
    exact .inl ⟨old,member,same,rfl⟩
  · obtain ⟨_,_,rest⟩ := bind_ok.mp ok
    obtain ⟨decisions,inserted,last⟩ := bind_ok.mp rest
    cases last
    exact .inr (demand_ok.mp inserted)

theorem work_ok (ok : call.work lib s = .ok (result,s')) : ∃ d ids u, d.decisionId = call.decision.decisionId ∧
    d.candidateId = call.decision.candidateId ∧ u.decisions = s.decisions ∧
    saveDecision call.spaceId call.noteId d (decidedStatus d.recommendedAction) ids none call.now u = .ok s' := by
  obtain ⟨target,_,rest⟩ := bind_ok.mp ok
  obtain ⟨_,_,rest⟩ := bind_ok.mp rest
  obtain ⟨⟨r,ids,u⟩,done,rest⟩ := bind_ok.mp rest
  obtain ⟨v,saved,last⟩ := bind_ok.mp rest
  cases last
  obtain ⟨sameId,sameCandidate,_⟩ := settled_kept lib call target
  have done : u.decisions = s.decisions := perform_decisions done
  have same : (markAffected lib call.candidate result u).decisions = s.decisions := done
  exact ⟨_,ids,_,sameId,sameCandidate,same,saved⟩

/-- A decision that is made stays made, and about its candidate. -/
def DecisionRow.kept (r r' : DecisionRow) : Prop := r'.key = r.key ∧ (r.status ≠ .failed → r'.status ≠ .failed)

theorem DecisionRow.kept.refl (r : DecisionRow) : r.kept r := ⟨rfl,fun made => made⟩

theorem latest_some {p : DecisionRow → Bool} {rows : List DecisionRow} {r : DecisionRow} (found : latest p rows = some r) :
    r ∈ rows ∧ p r := by
  have chosen (best : Option DecisionRow) (rest : List DecisionRow)
      (last : rest.foldl (fun best r => if best.any (fun b => r.createdAt ≤ b.createdAt) then best else some r) best =
        some r) : best = some r ∨ r ∈ rest := by
    induction rest generalizing best with
    | nil => exact .inl last
    | cons x rest ih =>
      rcases ih _ last with first | later
      · dsimp only at first
        split at first
        · exact .inl first
        · exact .inr (by simp [Option.some.inj first])
      · exact .inr (List.mem_cons_of_mem x later)
  rcases chosen none _ found with none | member
  · cases none
  · exact List.mem_filter.mp member

theorem latest_isSome {p : DecisionRow → Bool} {rows : List DecisionRow} {r : DecisionRow} (member : r ∈ rows)
    (meets : p r) : (latest p rows).isSome := by
  have kept (best : Option DecisionRow) (rest : List DecisionRow) (there : best.isSome ∨ rest ≠ []) :
      (rest.foldl (fun best r => if best.any (fun b => r.createdAt ≤ b.createdAt) then best else some r) best).isSome := by
    induction rest generalizing best with
    | nil => simpa using there
    | cons x rest ih =>
      apply ih
      dsimp only
      split
      · rename_i later
        cases best with
        | none => cases later
        | some b => exact .inl rfl
      · exact .inl rfl
  exact kept none _ (.inr (List.ne_nil_of_mem (List.mem_filter.mpr ⟨member,meets⟩)))

/-! ### The decisions under the commands -/

theorem updateMemory_decisions {c : Changes σ} {reason : Option String} {note : Option NoteId}
    (ok : updateMemory lib id c reason note now s = .ok s') : s'.decisions = s.decisions := by
  unfold updateMemory at ok
  split at ok
  · cases ok
    rfl
  · obtain ⟨u,update,last⟩ := bind_ok.mp ok
    cases last
    have first := versionedUpdate_decisions update
    exact first

theorem correctMemory_decisions {content : String} {taskStatus : Option (Option TaskStatus)}
    (ok : correctMemory lib id content taskStatus now s = .ok s') : s'.decisions = s.decisions := by
  unfold correctMemory at ok
  split at ok
  · cases ok
    rfl
  · obtain ⟨_,_,update⟩ := bind_ok.mp ok
    exact versionedUpdate_decisions update

theorem expireDueMemories_decisions {due : List MemoryId} (ok : expireDueMemories lib due now s = .ok s') :
    s'.decisions = s.decisions := by
  obtain ⟨_,_,loop⟩ := bind_ok.mp ok
  refine foldlM_invariant (fun u => u.decisions = s.decisions) (fun id _ u v kept round => ?_) loop rfl
  obtain ⟨_,_,update⟩ := bind_ok.mp round
  exact (versionedUpdate_decisions update).trans kept

theorem resolveMemoryConflict_decisions {resolution : Resolution}
    (ok : resolveMemoryConflict lib id resolution now s = .ok s') : s'.decisions = s.decisions := by
  unfold resolveMemoryConflict at ok
  split at ok
  · cases ok
    rfl
  split at ok
  · exact versionedUpdate_decisions ok
  · obtain ⟨_,_,update⟩ := bind_ok.mp ok
    exact versionedUpdate_decisions update
  · exact versionedUpdate_decisions ok

theorem kept_put {t : Table DecisionRow.id} {r r' : DecisionRow} (member : r ∈ t) (same : r'.id = r.id) (kept : r.kept r') :
    Table.Evolves DecisionRow.kept (fun _ => False) t (t.put r') :=
  .put_of_mem member same kept (fun r _ _ => .refl r)

theorem reviewed_mem {r : DecisionRow} (found : s.reviewed id = some r) : r ∈ s.decisions ∧ r.status = .pendingReview := by
  obtain ⟨member,meets⟩ := latest_some found
  refine ⟨member,?_⟩
  simp only [DecisionRow.reviews,Bool.and_eq_true,decide_eq_true_eq] at meets
  exact meets.1

theorem approveRelation_decisions {pending : Memory σ} {r : DecisionRow} {action : DecisionAction} {u : Store σ}
    (ok : approveRelation lib pending r now s = .ok (action,ids,u)) : u.decisions = s.decisions := by
  have replaced {t : Memory σ} {supersedes : Bool} {decisionId : DecisionId} {note : NoteId} {v : Store σ}
      (done : approveReplacement lib pending t supersedes decisionId note now s = .ok v) : v.decisions = s.decisions := by
    obtain ⟨_,first,rest⟩ := bind_ok.mp done
    obtain ⟨_,second,last⟩ := bind_ok.mp rest
    cases last
    have one := versionedUpdate_decisions first
    exact (versionedUpdate_decisions second).trans one
  unfold approveRelation at ok
  split at ok
  · obtain ⟨_,update,last⟩ := bind_ok.mp ok
    cases last
    exact versionedUpdate_decisions update
  · obtain ⟨_,done,last⟩ := bind_ok.mp ok
    cases last
    exact approveMutation_decisions done
  · obtain ⟨_,done,last⟩ := bind_ok.mp ok
    cases last
    exact approveMutation_decisions done
  · obtain ⟨_,done,last⟩ := bind_ok.mp ok
    cases last
    exact replaced done
  · obtain ⟨_,done,last⟩ := bind_ok.mp ok
    cases last
    exact replaced done
  · cases ok

theorem approvePendingMemory_decisions {returned : Option MemoryId}
    (ok : approvePendingMemory lib id now s = .ok (returned,s')) :
    Table.Evolves DecisionRow.kept (fun _ => False) s.decisions s'.decisions := by
  unfold approvePendingMemory at ok
  split at ok
  · rename_i pending r _ reviewed
    obtain ⟨⟨action,ids,u⟩,done,last⟩ := bind_ok.mp ok
    cases last
    have same := approveRelation_decisions done
    show Table.Evolves _ _ s.decisions (u.decisions.put _)
    rw [same]
    exact kept_put (reviewed_mem reviewed).1 rfl ⟨rfl,fun _ => nofun⟩
  · cases ok
    exact .refl (fun r _ => .refl r)

theorem rejectPendingMemory_decisions (ok : rejectPendingMemory lib id now s = .ok s') :
    Table.Evolves DecisionRow.kept (fun _ => False) s.decisions s'.decisions := by
  unfold rejectPendingMemory at ok
  split at ok
  · cases ok
    exact .refl (fun r _ => .refl r)
  · obtain ⟨u,update,last⟩ := bind_ok.mp ok
    have same := versionedUpdate_decisions update
    split at last
    · cases last
      rw [same]
      exact .refl (fun r _ => .refl r)
    · rename_i r reviewed
      cases last
      show Table.Evolves _ _ s.decisions (u.decisions.put _)
      rw [same]
      refine kept_put (reviewed_mem reviewed).1 rfl ⟨rfl,fun _ made => ?_⟩
      cases made

theorem revalidated_kept {r : DecisionRow} {next : Option TaskStatus} : r.kept (r.revalidated next s) := by
  unfold DecisionRow.revalidated
  split
  · split
    · exact ⟨rfl,fun made => made⟩
    · exact .refl r
  · exact .refl r

theorem revalidated_id {r : DecisionRow} {next : Option TaskStatus} : (r.revalidated next s).id = r.id := by
  unfold DecisionRow.revalidated
  split
  · split
    · rfl
    · rfl
  · rfl

theorem editPendingMemory_decisions {content : String} {approves : Bool}
    (ok : editPendingMemory lib id content now s = .ok (approves,s')) :
    Table.Evolves DecisionRow.kept (fun _ => False) s.decisions s'.decisions := by
  unfold editPendingMemory at ok
  split at ok
  · cases ok
    exact .refl (fun r _ => .refl r)
  · obtain ⟨u,update,rest⟩ := bind_ok.mp ok
    obtain ⟨_,_,last⟩ := bind_ok.mp rest
    have same := versionedUpdate_decisions update
    cases last
    rw [← same]
    dsimp only
    split
    · rename_i r reviewed
      exact kept_put (reviewed_mem reviewed).1 revalidated_id revalidated_kept
    · exact .refl (fun r _ => .refl r)

theorem execute_decisions {c : Command σ} (other : ∀ call, c ≠ .apply call) (ok : execute lib s c = .ok s') :
    Table.Evolves DecisionRow.kept (fun _ => False) s.decisions s'.decisions := by
  have same (unchanged : s'.decisions = s.decisions) :
      Table.Evolves DecisionRow.kept (fun _ => False) s.decisions s'.decisions := by
    rw [unchanged]
    exact .refl (fun r _ => .refl r)
  cases c with
  | apply call => exact absurd rfl (other call)
  | insert id spaceId c noteId status now =>
    obtain ⟨u,inserted,last⟩ := bind_ok.mp ok
    cases last
    exact same (insertMemory_ok inserted).decisions
  | addSource id noteId relation =>
    cases ok
    apply same
    unfold addSourceCommand
    split
    · rfl
    · dsimp only
      split
      · rfl
      · rfl
  | update id c reason noteId now => exact same (updateMemory_decisions ok)
  | correct id content taskStatus now => exact same (correctMemory_decisions ok)
  | softDelete id now => exact same (updateMemory_decisions ok)
  | expire ids now => exact same (expireDueMemories_decisions ok)
  | resolve id resolution now => exact same (resolveMemoryConflict_decisions ok)
  | purge id =>
    cases ok
    exact same rfl
  | approve id now =>
    obtain ⟨⟨_,u⟩,done,last⟩ := bind_ok.mp ok
    cases last
    exact approvePendingMemory_decisions done
  | reject id now => exact rejectPendingMemory_decisions ok
  | edit id content now =>
    obtain ⟨⟨_,u⟩,done,last⟩ := bind_ok.mp ok
    cases last
    exact editPendingMemory_decisions done

/-! ### The invariant -/

section
variable {owner : DecisionId → SpaceId × CandidateId} {keyOf : SpaceId × CandidateId → String} {w w' : World σ} {e : Event σ}

def Owned (owner : DecisionId → SpaceId × CandidateId) (s : Store σ) : Prop := ∀ r ∈ s.decisions, owner r.id = r.key

def Event.Formed (lib : Library σ) (owner : DecisionId → SpaceId × CandidateId) (keyOf : SpaceId × CandidateId → String) :
    Event σ → Prop
  | .lookup call => call.Formed lib owner keyOf
  | _ => True

/-- What holds between the steps: a candidate that took effect has a decision, and no
call of it is under way. -/
structure World.Sound (lib : Library σ) (owner : DecisionId → SpaceId × CandidateId) (keyOf : SpaceId × CandidateId → String)
    (w : World σ) : Prop where
  owned : Owned owner w.store
  holds : ∀ h ∈ w.holds, h.call.Formed lib owner keyOf ∧ h.identity = (h.call.spaceId,keyOf h.call.key) ∧
    h.late = false ∧ h.call.key ∉ w.applied
  failing : ∀ f ∈ w.failing, owner f.decision.decisionId = (f.call.spaceId,f.decision.candidateId) ∧ f.late = false
  once : w.applied.Nodup
  decided : ∀ k ∈ w.applied, ∃ r ∈ w.store.decisions, r.key = k ∧ r.status ≠ .failed
  replies : ∀ r ∈ w.replies, r.late → ∃ result, r.outcome = .ok result ∧ result.idempotent

theorem owned_evolves {t : Store σ} (evolves : Table.Evolves DecisionRow.kept (fun _ => False) s.decisions t.decisions)
    (owned : Owned owner s) : Owned owner t := by
  intro r inside
  rcases evolves.origin r inside with ⟨old,member,same,kept⟩ | new
  · rw [kept.1,← owned old member]
    exact congrArg owner same
  · cases new

theorem decided_evolves {t : Store σ} {k : SpaceId × CandidateId} {N : DecisionRow → Prop}
    (evolves : Table.Evolves DecisionRow.kept N s.decisions t.decisions)
    (decided : ∃ r ∈ s.decisions, r.key = k ∧ r.status ≠ .failed) : ∃ r ∈ t.decisions, r.key = k ∧ r.status ≠ .failed := by
  obtain ⟨r,member,same,made⟩ := decided
  obtain ⟨r',inside,_,kept⟩ := evolves.kept r member
  exact ⟨r',inside,kept.1.trans same,kept.2 made⟩

theorem World.Sound.unapplied (sound : w.Sound lib owner keyOf) (fair : w.fair (.lookup call))
    (none : w.store.prior call.spaceId call.candidate.candidateId = none) : call.key ∉ w.applied := by
  intro applied
  obtain ⟨r,member,same,made⟩ := sound.decided call.key applied
  have standing : r.status ≠ .rejected := fair r member same
  have meets : r.status = .applied ∨ r.status = .pendingReview := by
    cases status : r.status with
    | applied => exact .inl rfl
    | pendingReview => exact .inr rfl
    | failed => exact absurd status made
    | rejected => exact absurd status standing
  have found : (w.store.prior call.spaceId call.candidate.candidateId).isSome := by
    obtain ⟨space,candidate⟩ := Prod.mk.inj same
    refine latest_isSome member ?_
    simp only [space,candidate,decide_true,Bool.true_and,Bool.or_eq_true,decide_eq_true_eq]
    exact meets
  rw [none] at found
  cases found

theorem sound_lookup (sound : w.Sound lib owner keyOf) (fair : w.fair (.lookup call)) (formed : call.Formed lib owner keyOf)
    (step : w.lookup lib call = some w') : w'.Sound lib owner keyOf := by
  unfold World.lookup at step
  dsimp only at step
  split at step
  · cases step
  · cases step
    refine { sound with replies := fun r inside => ?_ }
    rcases List.mem_append.mp inside with member | new
    · exact sound.replies r member
    · rw [List.mem_singleton.mp new]
      exact fun _ => ⟨_,rfl,rfl⟩
  · rename_i holds inserted none
    cases step
    have fresh := sound.unapplied fair none
    refine { sound with holds := fun h inside => ?_ }
    rcases (Table.mem_insert inserted).mp inside with member | rfl
    · exact sound.holds h member
    · exact ⟨formed,Prod.ext rfl formed.memoryKey,by simpa using fresh,fresh⟩

theorem work_decides (owned : Owned owner s) (formed : call.Formed lib owner keyOf) (ok : call.work lib s = .ok (result,s')) :
    Owned owner s' ∧ (∃ r ∈ s'.decisions, r.key = call.key ∧ r.status ≠ .failed) ∧
      ∀ r ∈ s.decisions, r.key ≠ call.key → r ∈ s'.decisions := by
  obtain ⟨d,ids,u,sameId,sameCandidate,same,saved⟩ := work_ok ok
  have drawn : owner d.decisionId = call.key := by rw [sameId,formed.decision]
  have made : decidedStatus d.recommendedAction ≠ .failed := by
    unfold decidedStatus
    split
    · decide
    · decide
  rcases saveDecision_rows saved with ⟨old,member,named,written⟩ | inserted
  · rw [same] at member written
    have key : old.key = call.key := by rw [← owned old member,named,drawn]
    rw [written]
    refine ⟨fun r inside => ?_,⟨_,Table.mem_put.mpr (.inr ⟨rfl,old,member,rfl⟩),key,made⟩,fun r inside other => ?_⟩
    · rw [written] at inside
      rcases Table.mem_put.mp inside with ⟨kept,_⟩ | ⟨rfl,_⟩
      · exact owned r kept
      · exact owned old member
    · refine Table.mem_put.mpr (.inl ⟨inside,fun hit => other ?_⟩)
      rw [← owned r inside]
      exact (congrArg owner (hit.trans named)).trans drawn
  · rw [same] at inserted
    have key : (d.row call.spaceId call.noteId (decidedStatus d.recommendedAction) ids none call.now).key = call.key :=
      Prod.ext rfl (sameCandidate.trans formed.candidate)
    refine ⟨fun r inside => ?_,⟨_,(Table.mem_insert inserted).mpr (.inr rfl),key,made⟩,
      fun r inside _ => (Table.mem_insert inserted).mpr (.inl inside)⟩
    rcases (Table.mem_insert inserted).mp inside with kept | rfl
    · exact owned r kept
    · exact drawn.trans key.symm

theorem sound_commit {identity : SpaceId × String} (sound : w.Sound lib owner keyOf)
    (step : w.commit lib identity = some w') : w'.Sound lib owner keyOf := by
  obtain ⟨h,found,rfl⟩ := Option.map_eq_some_iff.mp step
  obtain ⟨member,named⟩ := Table.find?_eq_some.mp found
  obtain ⟨formed,locked,early,fresh⟩ := sound.holds h member
  have others : ∀ h' ∈ w.holds.filter (·.identity ≠ identity), h' ∈ w.holds ∧ h'.identity ≠ identity := by
    intro h' inside
    simpa using inside
  have late (r : Reply) (outcome : Except Error Result) (inside : r ∈ w.replies ++ [⟨h.call.key,h.late,outcome⟩])
      (past : r.late) : ∃ result, r.outcome = .ok result ∧ result.idempotent := by
    rcases List.mem_append.mp inside with member | new
    · exact sound.replies r member past
    · rw [List.mem_singleton.mp new] at past
      simp [early] at past
  dsimp only
  split
  · rename_i result store worked
    obtain ⟨owned,decided,kept⟩ := work_decides sound.owned formed worked
    refine ⟨owned,fun h' inside => ?_,sound.failing,List.nodup_cons.mpr ⟨fresh,sound.once⟩,fun k inside => ?_,
      fun r inside past => late r _ inside past⟩
    · obtain ⟨member',other⟩ := others h' inside
      obtain ⟨formed',locked',early',fresh'⟩ := sound.holds h' member'
      refine ⟨formed',locked',early',fun listed => ?_⟩
      rcases List.mem_cons.mp listed with same | listed
      · apply other
        have space : h'.call.spaceId = h.call.spaceId := (Prod.mk.inj same).1
        rw [locked',same,space,← locked,named]
      · exact fresh' listed
    · rcases List.mem_cons.mp inside with rfl | inside
      · exact decided
      · obtain ⟨r,member',same,made⟩ := sound.decided k inside
        refine ⟨r,kept r member' (fun hit => fresh ?_),same,made⟩
        rw [← hit,same]
        exact inside
  · split
    · exact { sound with
        holds := fun h' inside => sound.holds h' (others h' inside).1
        replies := fun r inside past => late r _ inside past }
    · refine { sound with
        holds := fun h' inside => sound.holds h' (others h' inside).1
        failing := fun f inside => ?_ }
      rcases List.mem_append.mp inside with member' | new
      · exact sound.failing f member'
      · rw [List.mem_singleton.mp new]
        obtain ⟨sameId,sameCandidate,_⟩ := settled_kept lib h.call (h.call.target w.store).toOption.join
        refine ⟨?_,early⟩
        show owner (h.call.settled lib _).decisionId = (h.call.spaceId,(h.call.settled lib _).candidateId)
        rw [sameId,sameCandidate,formed.decision,formed.candidate]
        rfl

theorem record_rows (f : Failing σ) (s : Store σ) :
    f.record s = s ∨ ∃ decisions, f.record s = { s with decisions } ∧
      ((∃ old ∈ s.decisions, old.id = f.decision.decisionId ∧
          ∃ r : DecisionRow, r.id = old.id ∧ r.key = old.key ∧ r.status = .failed ∧ decisions = s.decisions.put r) ∨
        ∃ r : DecisionRow, r.id = f.decision.decisionId ∧ r.key = (f.call.spaceId,f.decision.candidateId) ∧ r.status = .failed ∧
          s.decisions.insert r = some decisions) := by
  unfold Failing.record
  cases saved : saveDecision f.call.spaceId f.call.noteId f.decision .failed [] (some f.error.typeName) f.call.now s with
  | error e => exact .inl rfl
  | ok t =>
    obtain ⟨decisions,rfl⟩ := saveDecision_frame saved
    refine .inr ⟨decisions,rfl,?_⟩
    rcases saveDecision_rows saved with ⟨old,member,named,written⟩ | inserted
    · exact .inl ⟨old,member,named,{ old with status := .failed,resultMemoryIds := [],error := some f.error.typeName },
        rfl,rfl,rfl,written⟩
    · exact .inr ⟨_,rfl,rfl,rfl,inserted⟩

theorem sound_record {i : Nat} (sound : w.Sound lib owner keyOf) (fair : w.fair (.record i))
    (step : w.next lib (.record i) = some w') : w'.Sound lib owner keyOf := by
  obtain ⟨f,found,rfl⟩ := Option.map_eq_some_iff.mp step
  obtain ⟨drawn,early⟩ := sound.failing f (List.mem_of_getElem? found)
  have failing : ∀ f' ∈ w.failing.eraseIdx i, owner f'.decision.decisionId = (f'.call.spaceId,f'.decision.candidateId) ∧
      f'.late = false := fun f' inside => sound.failing f' (List.mem_of_mem_eraseIdx inside)
  have replies : ∀ r ∈ w.replies ++ [⟨f.call.key,f.late,.error f.error⟩],
      r.late → ∃ result, r.outcome = .ok result ∧ result.idempotent := by
    intro r inside past
    rcases List.mem_append.mp inside with member | new
    · exact sound.replies r member past
    · rw [List.mem_singleton.mp new] at past
      simp [early] at past
  rcases record_rows f w.store with same | ⟨decisions,same,⟨old,member,named,r,id,key,status,rfl⟩ | ⟨r,id,key,status,inserted⟩⟩
  · refine ⟨?_,sound.holds,failing,sound.once,?_,replies⟩
    · dsimp only
      rw [same]
      exact sound.owned
    · dsimp only
      rw [same]
      exact sound.decided
  · refine ⟨?_,sound.holds,failing,sound.once,?_,replies⟩
    · dsimp only
      rw [same]
      intro r' inside
      rcases Table.mem_put.mp inside with ⟨kept,_⟩ | ⟨rfl,_⟩
      · exact sound.owned r' kept
      · rw [id,key,sound.owned old member]
    · dsimp only
      rw [same]
      intro k listed
      obtain ⟨r',member',same',made⟩ := sound.decided k listed
      refine ⟨r',Table.mem_put.mpr (.inl ⟨member',fun hit => made ?_⟩),same',made⟩
      exact fair f found r' member' (hit.trans (id.trans named))
  · refine ⟨?_,sound.holds,failing,sound.once,?_,replies⟩
    · dsimp only
      rw [same]
      intro r' inside
      rcases (Table.mem_insert inserted).mp inside with kept | rfl
      · exact sound.owned r' kept
      · rw [id,drawn,key]
    · dsimp only
      rw [same]
      intro k listed
      obtain ⟨r',member',same',made⟩ := sound.decided k listed
      exact ⟨r',(Table.mem_insert inserted).mpr (.inl member'),same',made⟩

theorem sound_step (sound : w.Sound lib owner keyOf) (formed : e.Formed lib owner keyOf) (fair : w.fair e)
    (step : World.Step lib w e w') : w'.Sound lib owner keyOf := by
  unfold World.Step at step
  cases e with
  | lookup call => exact sound_lookup sound fair formed step
  | commit identity => exact sound_commit sound step
  | record i => exact sound_record sound fair step
  | crash identity =>
    cases step
    exact { sound with holds := fun h inside => sound.holds h (Table.mem_filter.mp inside).1 }
  | lose i =>
    cases step
    exact { sound with failing := fun f inside => sound.failing f (List.mem_of_mem_eraseIdx inside) }
  | other c =>
    simp only [World.next] at step
    split at step
    · cases step
    rename_i other
    obtain ⟨t,passes,rfl⟩ := Option.map_eq_some_iff.mp step
    have ran : execute lib w.store c = .ok t := by
      have all := ok_of_isSome (x := execute lib w.store c) t (by rw [passes]; rfl)
      rwa [passes] at all
    have evolves := execute_decisions (by rintro call rfl; exact other rfl) ran
    exact { sound with
      owned := owned_evolves evolves sound.owned
      decided := fun k listed => decided_evolves evolves (sound.decided k listed) }

theorem quiet_step (fair : w.fair e) (step : World.Step lib w e w') : w.quiet e w' := by
  unfold World.Step at step
  cases e with
  | lookup call =>
    simp only [World.next,World.lookup] at step
    split at step
    · cases step
    · cases step
      rfl
    · cases step
      rfl
  | commit identity =>
    obtain ⟨h,_,rfl⟩ := Option.map_eq_some_iff.mp step
    intro unchanged
    dsimp only at unchanged ⊢
    split
    · rename_i worked
      rw [worked] at unchanged
      exact absurd unchanged (List.cons_ne_self _ _)
    · split
      · rfl
      · rfl
  | record i =>
    obtain ⟨f,found,rfl⟩ := Option.map_eq_some_iff.mp step
    unfold World.quiet
    dsimp only
    rcases record_rows f w.store with same | ⟨decisions,same,⟨old,member,named,r,id,_,status,rfl⟩ | ⟨r,_,_,status,inserted⟩⟩
    · rw [same]
      exact ⟨⟨_,rfl⟩,.inl rfl⟩
    · rw [same]
      exact ⟨⟨_,rfl⟩,.inr ⟨r,status,.inr ⟨⟨old,member,id.symm,fair f found old member named⟩,rfl⟩⟩⟩
    · rw [same]
      exact ⟨⟨_,rfl⟩,.inr ⟨r,status,.inl (Table.insert_eq_some.mp inserted).2⟩⟩
  | crash identity =>
    cases step
    rfl
  | lose i =>
    cases step
    rfl
  | other c => trivial

theorem sound_run {events : List (Event σ)} (sound : w.Sound lib owner keyOf) (formed : ∀ e ∈ events, e.Formed lib owner keyOf)
    (run : Run (Guarded World.fair (World.Step lib)) w events w') : w'.Sound lib owner keyOf := by
  induction run with
  | nil => exact sound
  | cons head _ ih =>
    exact ih (sound_step sound (formed _ (by simp)) head.1 head.2) (fun e later => formed e (by simp [later]))

/-- In every run of calls and commands in which no candidate comes again after its
rejection and no failure is recorded over a decision made since: each candidate takes
effect at most once, every call after that replies idempotent, and a step that is
not an effect leaves the memories alone, with at most one failed decision more. -/
theorem effect_once {events : List (Event σ)} (owned : Owned owner s) (formed : ∀ e ∈ events, e.Formed lib owner keyOf)
    (run : Run (Guarded World.fair (World.Step lib)) { store := s } events w) :
    w.applied.Nodup ∧ (∀ r ∈ w.replies, r.late → ∃ result, r.outcome = .ok result ∧ result.idempotent) ∧
      ∀ before e after, events = before ++ e :: after → ∃ u v, Run (World.Step lib) { store := s } before u ∧
        World.Step lib u e v ∧ Run (World.Step lib) v after w ∧ u.quiet e v := by
  have start : World.Sound lib owner keyOf ({ store := s } : World σ) :=
    ⟨owned,fun h inside => absurd inside (Table.not_mem_empty h),fun f inside => absurd inside List.not_mem_nil,List.nodup_nil,
      fun k inside => absurd inside List.not_mem_nil,fun r inside => absurd inside List.not_mem_nil⟩
  have sound := sound_run start formed run
  refine ⟨sound.once,sound.replies,?_⟩
  rintro before e after rfl
  have plain : ∀ u e v, Guarded World.fair (World.Step lib) u e v → World.Step lib u e v := fun _ _ _ step => step.2
  obtain ⟨u,first,rest⟩ := run.split
  cases rest with
  | cons head tail => exact ⟨u,_,first.imp plain,head.2,tail.imp plain,quiet_step head.1 head.2⟩

end

/-! ### A rejected candidate that comes again -/

def milkAsked (newId : MemoryId) (now : Time) : ApplyCall Unit := {
  spaceId := 0,noteId := 2,candidate := milkMemory,decision := mergeUnsure,newId,now }

def milkKey : SpaceId × String := (0,milkMemory.effectiveMemoryKey (.plain Unit))

/-- The candidate is applied, and once more. -/
def askedTwice (between : Command Unit) : List (Event Unit) :=
  [.other (.insert 1 0 teaMemory 1 .active 0),.lookup (milkAsked 2 1),.commit milkKey,.other between,.lookup (milkAsked 3 3)]

theorem askedTwice_formed (between : Command Unit) :
    ∀ e ∈ askedTwice between ++ [.commit milkKey],e.Formed (.plain Unit) (fun _ => (0,2)) (fun _ => milkKey.2) := by
  intro e inside
  simp only [askedTwice,List.cons_append,List.nil_append,List.mem_cons,List.not_mem_nil,or_false] at inside
  rcases inside with rfl | rfl | rfl | rfl | rfl | rfl
  · trivial
  · exact ⟨rfl,rfl,rfl⟩
  · trivial
  · trivial
  · exact ⟨rfl,rfl,rfl⟩
  · trivial

def World.after (w : World Unit) (events : List (Event Unit)) : World Unit :=
  (events.foldlM (World.next (.plain Unit)) w).getD w

theorem run_world {w : World Unit} {events : List (Event Unit)}
    (passes : (events.foldlM (World.next (.plain Unit)) w).isSome) :
    Run (World.Step (.plain Unit)) w events (w.after events) := by
  obtain ⟨t,computed⟩ := Option.isSome_iff_exists.mp passes
  rw [World.after,computed]
  exact .of_foldlM computed

/-- A candidate whose decision was rejected takes effect a second time. -/
theorem rejected_again :
    ¬∀ (lib : Library Unit) (owner : DecisionId → SpaceId × CandidateId) (keyOf : SpaceId × CandidateId → String)
      (s : Store Unit) (events : List (Event Unit)) (w : World Unit), Owned owner s →
      (∀ e ∈ events, e.Formed lib owner keyOf) → Run (World.Step lib) { store := s } events w →
      w.applied.Nodup ∧ (∀ r ∈ w.replies, r.late → ∃ result, r.outcome = .ok result ∧ result.idempotent) ∧
        ∀ before e after, events = before ++ e :: after → ∃ u v, Run (World.Step lib) { store := s } before u ∧
          World.Step lib u e v ∧ Run (World.Step lib) v after w ∧ u.quiet e v := by
  intro once
  have run : Run (World.Step (.plain Unit)) { store := .empty Unit } (askedTwice (.reject 2 2) ++ [.commit milkKey])
      (World.after { store := .empty Unit } (askedTwice (.reject 2 2) ++ [.commit milkKey])) :=
    run_world (by decide +kernel)
  have single := (once _ _ _ _ _ _ (fun r inside => absurd inside (Table.not_mem_empty r)) (askedTwice_formed _) run).1
  have twice : (World.after { store := .empty Unit } (askedTwice (.reject 2 2) ++ [.commit milkKey])).applied =
      [(0,2),(0,2)] := by decide +kernel
  rw [twice] at single
  simp at single

/-- The same candidate comes again after its approval. -/
theorem effect_once_approved : ∃ w : World Unit,
    w.applied.Nodup ∧ (∀ r ∈ w.replies, r.late → ∃ result, r.outcome = .ok result ∧ result.idempotent) ∧
      ∀ before e after, askedTwice (.approve 2 2) = before ++ e :: after → ∃ u v,
        Run (World.Step (.plain Unit)) { store := .empty Unit } before u ∧ World.Step (.plain Unit) u e v ∧
          Run (World.Step (.plain Unit)) v after w ∧ u.quiet e v := by
  have passes : ((askedTwice (.approve 2 2)).foldlM (fun w e => if World.fair w e then w.next (.plain Unit) e else none)
      ({ store := .empty Unit } : World Unit)).isSome := by decide +kernel
  obtain ⟨w,computed⟩ := Option.isSome_iff_exists.mp passes
  exact ⟨w,effect_once (fun r inside => absurd inside (Table.not_mem_empty r))
    (fun e inside => askedTwice_formed _ e (List.mem_append_left _ inside)) (Run.of_guarded_foldlM computed)⟩

end Suixinji.Memories
