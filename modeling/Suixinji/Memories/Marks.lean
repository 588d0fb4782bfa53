import Suixinji.Relational.Evolution
import Suixinji.Memories.Projections
import Suixinji.Memories.Waiting
import Suixinji.Memories.Writes

/-! What the commands do to the profiles: which revisions they raise, and which active
semantic memories they take in or out. -/
namespace Suixinji.Memories
open Relational Checked Transition Ranking

variable {σ : Type} {lib : Library σ} {s s' u : Store σ} {m t : Memory σ} {id : MemoryId} {now : Time} {call : ApplyCall σ}
  {d : Decision} {result : Result} {ids : List MemoryId}

/-! ### Revisions -/

/-- A projection that is marked, perhaps more than once, or not at all. -/
def Projection.later (p p' : Projection) : Prop :=
  p' = p ∨ p'.processedRevision = p.processedRevision ∧ p.targetRevision < p'.targetRevision ∧ p'.fresh = false

/-- A projection that was never saved. -/
def Projection.started (p : Projection) : Prop := p.fresh = false ∧ p.processedRevision ≤ p.targetRevision

theorem Projection.later.trans {p q r : Projection} (first : p.later q) (second : q.later r) : p.later r := by
  rcases first with rfl | ⟨kept,ahead,stale⟩
  · exact second
  · rcases second with rfl | ⟨kept',ahead',stale'⟩
    · exact .inr ⟨kept,ahead,stale⟩
    · exact .inr ⟨kept'.trans kept,ahead.trans ahead',stale'⟩

theorem Projection.started.later {p q : Projection} (started : p.started) (later : p.later q) : q.started := by
  rcases later with rfl | ⟨kept,ahead,stale⟩
  · exact started
  · exact ⟨stale,by rw [kept]; exact started.2.trans ahead.le⟩

abbrev Onward (t u : Table Projection.key) : Prop := t.Evolves Projection.later Projection.started u

theorem Onward.refl (t : Table Projection.key) : Onward t t := Table.Evolves.refl (fun _ _ => .inl rfl)

/-- The facet is marked. -/
def Ahead (k : SpaceId × String) (t u : Table Projection.key) : Prop :=
  ∃ p' ∈ u, p'.key = k ∧ p'.fresh = false ∧ ∀ p ∈ t, p.key = k → p.targetRevision < p'.targetRevision

theorem mark_onward : Onward s.derived.projections (markSemanticProfileDirty lib m s.derived).projections := by
  unfold markSemanticProfileDirty
  generalize m.facet = place
  split
  · cases found : s.derived.projections.find? (m.spaceId,place) with
    | none =>
      refine .upsert (fun old member same => ?_) (fun _ _ _ => .inl rfl) (fun _ => ⟨rfl,Nat.zero_le 1⟩)
      exact absurd same (Table.find?_eq_none.mp found old member)
    | some p =>
      obtain ⟨inside,key⟩ := Table.find?_eq_some.mp found
      refine .upsert (fun old member same => ?_) (fun _ _ _ => .inl rfl) (fun absent => ?_)
      · rw [s.derived.projections.unique member inside same]
        exact .inr ⟨rfl,Nat.lt_succ_self _,rfl⟩
      · exact absurd rfl (Table.find?_eq_none.mp absent p inside)
  · exact .refl _

theorem mark_ahead {k : SpaceId × String} (enabled : lib.profileProjection) (profile : m.profile = some k) :
    Ahead k s.derived.projections (markSemanticProfileDirty lib m s.derived).projections := by
  unfold Memory.profile at profile
  split at profile
  · rename_i counts
    obtain rfl := Option.some.inj profile
    unfold markSemanticProfileDirty
    rw [if_pos (by simp [enabled,counts.1,counts.2])]
    refine ⟨_,Table.mem_upsert.mpr (.inl rfl),?_⟩
    generalize m.facet = place
    cases found : s.derived.projections.find? (m.spaceId,place) with
    | none => exact ⟨rfl,rfl,fun p member same => absurd same (Table.find?_eq_none.mp found p member)⟩
    | some old =>
      obtain ⟨inside,key⟩ := Table.find?_eq_some.mp found
      refine ⟨key,rfl,fun p member same => ?_⟩
      rw [s.derived.projections.unique member inside (same.trans key.symm)]
      exact Nat.lt_succ_self _
  · cases profile

@[simp] theorem schedule_projections (row : Memory σ) (e : Derived) :
    (scheduleMemoryEmbedding lib row e).projections = e.projections := by
  unfold scheduleMemoryEmbedding
  dsimp only
  split <;> rfl

/-! ### Profiles -/

/-- The same memories count for the same facets, and no projection is touched. -/
structure Quiet (s s' : Store σ) : Prop where
  profiled : ∀ id, s'.profiled id = s.profiled id
  projections : s'.derived.projections = s.derived.projections

theorem Quiet.refl (s : Store σ) : Quiet s s := ⟨fun _ => rfl,rfl⟩

theorem Quiet.trans (first : Quiet s u) (second : Quiet u s') : Quiet s s' :=
  ⟨fun id => (second.profiled id).trans (first.profiled id),second.projections.trans first.projections⟩

theorem Quiet.of_eq (memories : s'.memories = s.memories) (derived : s'.derived = s.derived) : Quiet s s' :=
  ⟨fun id => by rw [Store.profiled,Store.profiled,memories],by rw [derived]⟩

theorem profile_congr {n : Memory σ} (kind : n.memoryType = m.memoryType) (place : n.spaceId = m.spaceId)
    (predicate : n.predicate = m.predicate) (status : m.memoryType = .semantic → (n.status = .active ↔ m.status = .active)) :
    n.profile = m.profile := by
  have facet : n.facet = m.facet := by rw [Memory.facet,Memory.facet,Memory.facetText,Memory.facetText,predicate]
  have counts : n.memoryType = .semantic ∧ n.status = .active ↔ m.memoryType = .semantic ∧ m.status = .active := by
    rw [kind]
    exact and_congr_right status
  simp only [Memory.profile,counts,place,facet]

theorem versionedUpdate_projections {c : Changes σ} {reason : Option String} {note : Option NoteId} {notes : List NoteId}
    (ok : versionedUpdate lib id c reason note now s notes = .ok s') : s'.derived.projections = s.derived.projections := by
  obtain ⟨m,_,_,rfl⟩ := versionedUpdate_ok.mp ok
  unfold Store.rewrite
  dsimp only
  split
  · exact schedule_projections _ _
  · rfl

theorem versionedUpdate_profiled {c : Changes σ} {reason : Option String} {note : Option NoteId} {notes : List NoteId}
    (ok : versionedUpdate lib id c reason note now s notes = .ok s') : ∃ m, s.memories.find? id = some m ∧
      s'.memories.find? id = some (m.changed lib c now) ∧
      ∀ k, s'.profiled k = if k = id then (m.changed lib c now).profile else s.profiled k := by
  obtain ⟨m,found,_,rfl⟩ := versionedUpdate_ok.mp ok
  refine ⟨m,found,(find?_changed found id).trans (if_pos rfl),fun k => ?_⟩
  simp only [Store.profiled,rewrite_memories,find?_changed found k]
  split <;> rfl

/-- The update leaves what is active active, and the rest inactive. -/
def Changes.steady (c : Changes σ) (m : Memory σ) : Prop :=
  m.memoryType = .semantic → ∀ status ∈ c.status, (status = .active ↔ m.status = .active)

theorem Changes.steady.profile {c : Changes σ} (steady : c.steady m) : (m.changed lib c now).profile = m.profile := by
  refine profile_congr rfl rfl rfl (fun semantic => ?_)
  cases status : c.status with
  | none => simp [status]
  | some new => simpa [status] using steady semantic new (by simp [status])

theorem Quiet.update {c : Changes σ} {reason : Option String} {note : Option NoteId} {notes : List NoteId}
    (ok : versionedUpdate lib id c reason note now s notes = .ok s') (steady : ∀ m ∈ s.memories.find? id, c.steady m) :
    Quiet s s' := by
  obtain ⟨m,found,_,profiled⟩ := versionedUpdate_profiled ok
  refine ⟨fun k => ?_,versionedUpdate_projections ok⟩
  rw [profiled]
  split
  · rename_i same
    rw [(steady m found).profile,same,Store.profiled,found]
    rfl
  · rfl

theorem Writes.quiet {ls : List (MemoryId × Changes σ)} (writes : Writes lib now s ls s')
    (steady : ∀ l ∈ ls, ∀ m ∈ s.memories.find? l.1, l.2.steady m) : Quiet s s' := by
  induction writes with
  | nil => exact .refl _
  | @update s t u id c ls reason note notes head tail ih =>
    have first : ∀ m ∈ s.memories.find? id, c.steady m := steady (id,c) (by simp)
    refine (Quiet.update head first).trans (ih (fun l later n found => ?_))
    obtain ⟨m,before,after,_⟩ := versionedUpdate_profiled head
    obtain ⟨m',before',_,rfl⟩ := versionedUpdate_ok.mp head
    obtain rfl := Option.some.inj (before.symm.trans before')
    rw [rewrite_memories,find?_changed before] at found
    split at found
    · rename_i same
      obtain rfl := Option.some.inj found
      -- the row has been updated already, and is as active as it was
      intro semantic status sets
      refine (steady l (by simp [later]) m (by rw [same]; exact before) semantic status sets).trans ?_
      rw [changed_status]
      cases given : c.status with
      | none => rfl
      | some new => exact (first m before semantic new given).symm
    · exact steady l (by simp [later]) n found
  | aside memories derived _ ih =>
    exact (Quiet.of_eq memories derived).trans (ih (by rw [memories]; exact steady))

theorem Writes.projections {ls : List (MemoryId × Changes σ)} (writes : Writes lib now s ls s') :
    s'.derived.projections = s.derived.projections := by
  induction writes with
  | nil => rfl
  | update head _ ih => exact ih.trans (versionedUpdate_projections head)
  | aside _ derived _ ih => rw [ih,derived]

/-! ### Applied decisions -/

theorem Archived.quiet {gone : List MemoryId} (archived : Archived lib gone now s s')
    (tasks : ∀ k ∈ gone, ∃ m ∈ s.memories.find? k, m.memoryType = .task) : Quiet s s' := by
  refine ⟨fun k => ?_,by rw [archived.derived]⟩
  rw [Store.profiled,Store.profiled,archived.find?]
  cases found : s.memories.find? k with
  | none => rfl
  | some m =>
    simp only [Option.map_some,Option.bind_some]
    split
    · rename_i member
      obtain ⟨n,there,task⟩ := tasks k member
      obtain rfl := Option.some.inj (found.symm.trans there)
      simp [Memory.profile,task]
    · rfl

theorem archiveTerminalTaskDuplicates_quiet {target : MemoryId} {c : Candidate σ} {decisionId : DecisionId} {note : NoteId}
    {gone : List MemoryId} (ok : archiveTerminalTaskDuplicates lib target c decisionId note now s = .ok (gone,s')) :
    Quiet s s' := by
  obtain ⟨archived,tasks⟩ := archiveTerminalTaskDuplicates_ok ok
  refine archived.quiet (fun k member => ?_)
  obtain ⟨_,m,found,task,_⟩ := tasks k member
  exact ⟨m,found,task⟩

theorem supportTarget_quiet (found : s.memories.find? t.id = some t) (ok : supportTarget lib call d t s = .ok (result,ids,s')) :
    Quiet s s' := by
  obtain ⟨⟨gone,v⟩,archived,last⟩ := bind_ok.mp ok
  cases last
  have supported (added : Bool) (v : Store σ) (row : Memory σ) (memories : v.memories = s.memories)
      (derived : v.derived = s.derived) (same : row.id = t.id) (profile : row.profile = t.profile) :
      Quiet s (if added then { v with memories := v.memories.put row } else v) := by
    cases added with
    | false => exact .of_eq memories derived
    | true =>
      refine ⟨fun k => ?_,congrArg Derived.projections derived⟩
      have here : v.memories.find? row.id = some t := by rw [same,memories]; exact found
      have put : (v.memories.put row).find? k = if k = row.id then some row else v.memories.find? k :=
        v.memories.find?_put_of here k
      refine (congrArg (·.bind Memory.profile) put).trans ?_
      split
      · rename_i named
        rw [Store.profiled,named,← memories,here]
        exact profile
      · rw [Store.profiled,memories]
  split at archived
  · have rest := archiveTerminalTaskDuplicates_quiet archived
    refine Quiet.trans ?_ rest
    exact supported _ (addSource t.id call.noteId .supportedBy s).2 _ rfl rfl rfl rfl
  · cases archived
    exact supported _ (addSource t.id call.noteId .supportedBy s).2 _ rfl rfl rfl rfl

theorem mutateTarget_quiet (ok : mutateTarget lib call d t s = .ok (result,ids,s')) : Quiet s s' := by
  obtain ⟨u,update,rest⟩ := bind_ok.mp ok
  obtain ⟨⟨gone,v⟩,archived,last⟩ := bind_ok.mp rest
  cases last
  have updated := Quiet.update (c := call.mutation lib d t) update (fun _ _ _ status sets => by simp [ApplyCall.mutation] at sets)
  have first : Quiet s u := by
    refine Quiet.trans ?_ updated
    exact .of_eq rfl rfl
  split at archived
  · exact first.trans (archiveTerminalTaskDuplicates_quiet archived)
  · cases archived
    exact first

/-- A row is inserted, and its facet counts it if it is active. -/
structure Entered (row : Memory σ) (s s' : Store σ) : Prop where
  profiled : ∀ k, s'.profiled k = if k = row.id then row.profile else s.profiled k
  found : s'.memories.find? row.id = some row
  projections : s'.derived.projections = s.derived.projections

section
variable {row : Memory σ} {note : NoteId} {relation : SourceRelation}

theorem Inserted.entered (inserted : Inserted lib row note relation s s') : Entered row s s' := by
  refine ⟨fun k => ?_,(inserted.find? row.id).trans (if_pos rfl),?_⟩
  · rw [Store.profiled,inserted.find?]
    split <;> rfl
  · rw [inserted.derived,schedule_projections]

theorem Inserted.unprofiled (inserted : Inserted lib row note relation s s') : s.profiled row.id = none := by
  rw [Store.profiled,inserted.fresh]
  rfl

theorem Entered.quiet (entered : Entered row s s') (unprofiled : s.profiled row.id = none) (outside : row.profile = none) :
    Quiet s s' := by
  refine ⟨fun k => ?_,entered.projections⟩
  rw [entered.profiled]
  split
  · rename_i same
    rw [outside,same,unprofiled]
  · rfl

end

theorem row_profile {c : Candidate σ} {spaceId : SpaceId} {status : MemoryStatus} (out : status ≠ .active ∨ c.memoryType ≠ .semantic) :
    (c.row lib id spaceId status now).profile = none := by
  refine if_neg ?_
  rintro ⟨semantic,active⟩
  rcases out with inactive | other
  · exact inactive active
  · exact other semantic

theorem replaceTarget_entered (ok : replaceTarget lib call d t s = .ok (result,ids,s')) :
    ∃ u, (∀ k, u.profiled k = if k = t.id then none else s.profiled k) ∧ u.derived.projections = s.derived.projections ∧
      u.profiled call.newId = none ∧
      Entered (call.candidate.row lib call.newId call.spaceId (if d.recommendedAction = .supersede then .active else .conflicted)
        call.now) u s' ∧ result.memoryId = some call.newId ∧ result.action = d.recommendedAction := by
  obtain ⟨u,update,rest⟩ := bind_ok.mp ok
  obtain ⟨v,inserted,last⟩ := bind_ok.mp rest
  cases last
  obtain ⟨m,there,_,profiled⟩ := versionedUpdate_profiled update
  have inserted := insertMemory_ok inserted
  have entered := inserted.entered
  refine ⟨u,fun k => (profiled k).trans ?_,(versionedUpdate_projections update).trans rfl,inserted.unprofiled,⟨?_,?_,?_⟩,rfl,rfl⟩
  · split
    · refine if_neg ?_
      rintro ⟨_,active⟩
      rw [changed_status,Option.getD_some] at active
      split at active <;> cases active
    · rfl
  · exact entered.profiled
  · exact entered.found
  · exact entered.projections

/-- Every profile that gains or loses a memory is marked. -/
structure Tracked (s s' : Store σ) : Prop where
  onward : Onward s.derived.projections s'.derived.projections
  covered : ∀ id, s'.profiled id = s.profiled id ∨ ∀ k, s.profiled id = some k ∨ s'.profiled id = some k →
    Ahead k s.derived.projections s'.derived.projections

theorem Quiet.tracked (quiet : Quiet s s') : Tracked s s' :=
  ⟨by rw [quiet.projections]; exact .refl _,fun id => .inl (quiet.profiled id)⟩

theorem Entered.tracked {row : Memory σ} {v : Store σ} (entered : Entered row u v) (unprofiled : u.profiled row.id = none)
    (before : u.derived.projections = s.derived.projections)
    (left : ∀ k, u.profiled k = s.profiled k ∨ u.profiled k = none ∧ s.profiled k = row.profile)
    (memories : s'.memories = v.memories) (onward : Onward v.derived.projections s'.derived.projections)
    (marked : ∀ k, row.profile = some k → Ahead k v.derived.projections s'.derived.projections) : Tracked s s' := by
  have same : v.derived.projections = s.derived.projections := entered.projections.trans before
  have profiled (id : MemoryId) : s'.profiled id = if id = row.id then row.profile else u.profiled id := by
    rw [Store.profiled,memories]
    exact entered.profiled id
  rw [same] at onward marked
  refine ⟨onward,fun id => ?_⟩
  rw [profiled]
  by_cases here : id = row.id
  · rw [if_pos here]
    refine .inr (fun k counts => marked k ?_)
    rcases counts with was | is
    · rcases left id with kept | ⟨_,swapped⟩
      · rw [here,unprofiled,← here,was] at kept
        cases kept
      · exact swapped.symm.trans was
    · exact is
  · rw [if_neg here]
    rcases left id with kept | ⟨gone,swapped⟩
    · exact .inl kept
    · refine .inr (fun k counts => marked k ?_)
      rcases counts with was | is
      · exact swapped.symm.trans was
      · rw [gone] at is
        cases is

theorem markAffected_onward {c : Candidate σ} : Onward s.derived.projections (markAffected lib c result s).derived.projections := by
  unfold markAffected
  dsimp only
  cases (if (c.memoryType = .semantic && result.action ≠ .pendingReview) = true then result.memoryId.bind s.memories.find? else none) with
  | none => exact .refl _
  | some m => exact mark_onward

theorem markAffected_ahead {c : Candidate σ} {k : SpaceId × String} (enabled : lib.profileProjection)
    (semantic : c.memoryType = .semantic) (applied : result.action ≠ .pendingReview) (named : result.memoryId = some id)
    (found : s.memories.find? id = some m) (profile : m.profile = some k) :
    Ahead k s.derived.projections (markAffected lib c result s).derived.projections := by
  have affected : markAffected lib c result s = s.markDirty lib m := by
    simp [markAffected,Store.markDirty,semantic,applied,named,found]
  rw [affected]
  exact mark_ahead enabled profile

theorem settled_replaces (replaces : (call.settled lib (some t)).recommendedAction = .supersede ∨
    (call.settled lib (some t)).recommendedAction = .conflict) :
    ¬call.decision.stale t ∧ call.settled lib (some t) = call.decision := by
  simp only [ApplyCall.settled,Option.elim_some,Decision.settled] at replaces ⊢
  split at replaces
  · split at replaces <;> simp at replaces
  · rename_i current
    exact ⟨current,if_neg current⟩

theorem Entered.affected {status : MemoryStatus} {v : Store σ}
    (entered : Entered (call.candidate.row lib call.newId call.spaceId status call.now) u v)
    (unprofiled : u.profiled call.newId = none) (before : u.derived.projections = s.derived.projections)
    (left : ∀ k, u.profiled k = s.profiled k ∨
      u.profiled k = none ∧ s.profiled k = (call.candidate.row lib call.newId call.spaceId status call.now).profile)
    (enabled : lib.profileProjection) (named : result.memoryId = some call.newId)
    (applied : status = .active → result.action ≠ .pendingReview) : Tracked s (markAffected lib call.candidate result v) := by
  refine entered.tracked unprofiled before left rfl markAffected_onward (fun k profile => ?_)
  have counts : call.candidate.memoryType = .semantic ∧ status = .active := by
    unfold Memory.profile at profile
    split at profile
    · assumption
    · cases profile
  exact markAffected_ahead enabled counts.1 (applied counts.2) named entered.found profile

theorem replaceTarget_tracked (found : s.memories.find? t.id = some t) (enabled : lib.profileProjection)
    (ok : replaceTarget lib call d t s = .ok (result,ids,u)) (replaces : d.recommendedAction = .supersede ∨ d.recommendedAction = .conflict)
    (still : t.profile ≠ none → d.recommendedAction = .supersede ∧
      (call.candidate.row lib call.newId call.spaceId .active call.now).profile = t.profile) :
    Tracked s (markAffected lib call.candidate result u) := by
  obtain ⟨v,profiled,before,unprofiled,entered,named,action⟩ := replaceTarget_entered ok
  have there : s.profiled t.id = t.profile := by
    rw [Store.profiled,found]
    rfl
  refine entered.affected unprofiled before (fun k => ?_) enabled named (fun _ => ?_)
  · rw [profiled]
    split
    · rename_i here
      rw [here,there]
      by_cases counts : t.profile = none
      · exact .inl counts.symm
      · obtain ⟨supersedes,same⟩ := still counts
        rw [if_pos supersedes]
        exact .inr ⟨rfl,same.symm⟩
    · exact .inl rfl
  · rw [action]
    rcases replaces with same | same <;> simp [same]

theorem applyInSession_tracked (enabled : lib.profileProjection) (still : call.still lib s)
    (ok : applyInSession lib call s = .ok (result,s')) : Tracked s s' := by
  rcases applyInSession_ok.mp ok with ⟨_,_,_,rfl⟩ | ⟨none,target,chosen,passed,ids,u,done,saved⟩
  · exact (Quiet.refl _).tracked
  have found := (target_ok chosen).2
  obtain ⟨decisions,rfl⟩ := saveDecision_frame saved
  have quiet (kept : Quiet s u) : Tracked s (markAffected lib call.candidate result u) :=
    ⟨by rw [← kept.projections]; exact markAffected_onward,fun id => .inl (kept.profiled id)⟩
  suffices tracked : Tracked s (markAffected lib call.candidate result u) from ⟨tracked.onward,tracked.covered⟩
  have replaced (t : Memory σ) (here : target = some t) (ok : replaceTarget lib call (call.settled lib target) t s = .ok (result,ids,u))
      (replaces : (call.settled lib target).recommendedAction = .supersede ∨ (call.settled lib target).recommendedAction = .conflict) :
      Tracked s (markAffected lib call.candidate result u) := by
    subst here
    obtain ⟨current,same⟩ := settled_replaces replaces
    refine replaceTarget_tracked (found t rfl).2 enabled ok replaces (fun counts => ?_)
    rw [same] at replaces ⊢
    exact still none t (by rw [chosen]; rfl) counts current replaces
  unfold perform at done
  split at done
  · cases done
    exact quiet (.refl _)
  · rename_i action
    obtain ⟨inserted,same,_,_,_⟩ := insertDecided_ok done
    have named : result.memoryId = some call.newId := by
      obtain ⟨_,_,last⟩ := bind_ok.mp done
      cases last
      rfl
    refine inserted.entered.affected inserted.unprofiled rfl (fun _ => .inl rfl) enabled named (fun _ => ?_)
    rw [same,action]
    decide
  · obtain ⟨inserted,_,_,_,_⟩ := insertDecided_ok done
    exact quiet (inserted.entered.quiet inserted.unprofiled (row_profile (.inl (by decide))))
  · exact quiet (supportTarget_quiet (found _ rfl).2 done)
  · exact quiet (mutateTarget_quiet done)
  · exact quiet (mutateTarget_quiet done)
  · exact quiet (mutateTarget_quiet done)
  · rename_i t action
    exact replaced t rfl done (.inl action)
  · rename_i t action
    exact replaced t rfl done (.inr action)
  · cases done

/-! ### Commands -/

theorem recordFailure_quiet {e : Error} : Quiet s (recordFailure lib call e s) := by
  unfold recordFailure
  cases saved : saveDecision call.spaceId call.noteId (call.attempted lib s) .failed [] (some e.typeName) call.now s with
  | error _ => exact .refl s
  | ok u =>
    obtain ⟨decisions,rfl⟩ := saveDecision_frame saved
    exact .of_eq rfl rfl

theorem apply_tracked (enabled : lib.profileProjection) (still : call.still lib s) :
    Tracked s (applyMemoryDecision lib call s).2 := by
  unfold applyMemoryDecision
  cases applied : applyInSession lib call s with
  | ok p => exact applyInSession_tracked enabled still applied
  | error e =>
    dsimp only
    split
    · exact (Quiet.refl s).tracked
    · exact recordFailure_quiet.tracked

theorem markDirtyId_profiled (k : MemoryId) : (s.markDirtyId lib id).profiled k = s.profiled k := rfl

theorem markDirtyId_onward : Onward s.derived.projections (s.markDirtyId lib id).derived.projections := by
  unfold Store.markDirtyId
  cases s.memories.find? id with
  | none => exact .refl _
  | some m => exact mark_onward

theorem markDirtyId_ahead {k : SpaceId × String} (enabled : lib.profileProjection) (profiled : s.profiled id = some k) :
    Ahead k s.derived.projections (s.markDirtyId lib id).derived.projections := by
  obtain ⟨m,found,profile⟩ := Option.bind_eq_some_iff.mp profiled
  rw [Store.markDirtyId,found]
  exact mark_ahead enabled profile

theorem updateMemory_tracked {c : Changes σ} {reason : Option String} {note : Option NoteId} (enabled : lib.profileProjection)
    (still : s.profiled id ≠ none → ∀ status ∈ c.status, status = .active)
    (ok : updateMemory lib id c reason note now s = .ok s') : Tracked s s' := by
  unfold updateMemory at ok
  split at ok
  · cases ok
    exact (Quiet.refl _).tracked
  · obtain ⟨u,update,last⟩ := bind_ok.mp ok
    cases last
    obtain ⟨m,found,after,profiled⟩ := versionedUpdate_profiled update
    have before : u.derived.projections = s.derived.projections := versionedUpdate_projections update
    have was : s.profiled id = m.profile := by rw [Store.profiled,found]; rfl
    have kept : m.profile ≠ none → (m.changed lib c now).profile = m.profile := fun counts => by
      have active : m.status = .active := by
        by_contra other
        exact counts (if_neg (fun both => other both.2))
      refine profile_congr rfl rfl rfl (fun _ => ?_)
      cases status : c.status with
      | none => simp [status]
      | some new =>
        have sets := still (by rw [was]; exact counts) new (by simp [status])
        simp [status,sets,active]
    refine ⟨by rw [← before]; exact markDirtyId_onward,fun k => ?_⟩
    rw [markDirtyId_profiled,profiled]
    split
    · rename_i here
      rw [here,was]
      by_cases counts : m.profile = none
      · refine .inr (fun f counted => ?_)
        rcases counted with old | new
        · rw [counts] at old
          cases old
        · rw [← before]
          exact markDirtyId_ahead enabled (by rw [profiled,if_pos rfl]; exact new)
      · exact .inl (kept counts)
    · exact .inl rfl

theorem addSourceCommand_tracked {note : NoteId} {relation : SourceRelation} :
    Tracked s (addSourceCommand lib id note relation s) := by
  unfold addSourceCommand
  split
  · exact (Quiet.refl s).tracked
  · dsimp only
    split
    · exact ⟨mark_onward,fun _ => .inl rfl⟩
    · have beside : Quiet s (addSource id note relation s).2 := .of_eq rfl rfl
      exact beside.tracked

theorem insertMemoryCommand_tracked {spaceId : SpaceId} {c : Candidate σ} {note : NoteId} {relation : SourceRelation}
    {status : MemoryStatus} (enabled : lib.profileProjection)
    (ok : insertMemoryCommand lib id spaceId c note relation status now s = .ok s') : Tracked s s' := by
  obtain ⟨u,inserts,last⟩ := bind_ok.mp ok
  cases last
  have inserted := insertMemory_ok inserts
  exact inserted.entered.tracked inserted.unprofiled rfl (fun _ => .inl rfl) rfl mark_onward
    (fun k profile => mark_ahead enabled profile)

theorem inactive_of_profile (outside : m.profile = none) (semantic : m.memoryType = .semantic) : m.status ≠ .active := by
  intro active
  rw [Memory.profile,if_pos ⟨semantic,active⟩] at outside
  cases outside

theorem steady_of_unprofiled {c : Changes σ} {status : MemoryStatus} (outside : s.profiled id = none)
    (sets : c.status = some status) (inactive : status ≠ .active) : ∀ m ∈ s.memories.find? id, c.steady m := by
  intro m found semantic new given
  rw [sets] at given
  obtain rfl := Option.some.inj given
  rw [Store.profiled,found] at outside
  exact iff_of_false inactive (inactive_of_profile outside semantic)

theorem steady_of_active {c : Changes σ} (active : ∀ m ∈ s.memories.find? id, m.memoryType = .semantic → m.status = .active)
    (sets : c.status = some .active) : ∀ m ∈ s.memories.find? id, c.steady m := by
  intro m found semantic new given
  rw [sets] at given
  obtain rfl := Option.some.inj given
  exact iff_of_true rfl (active m found semantic)

theorem purgeMemory_tracked (outside : s.profiled id = none) : Tracked s (purgeMemory id s) := by
  refine Quiet.tracked ⟨fun k => ?_,rfl⟩
  by_cases here : k = id
  · rw [here,outside,Store.profiled]
    have gone : (s.memories.filter (·.id ≠ id)).find? id = none := by
      simp [Table.find?_eq_none]
    exact congrArg (·.bind Memory.profile) gone
  · have kept : (s.memories.filter (·.id ≠ id)).find? k = s.memories.find? k :=
      Table.find?_filter (fun m same => by simpa [same] using here)
    exact congrArg (·.bind Memory.profile) kept

theorem unprofiled_of_pending (waits : (s.pending? id).isSome) : s.profiled id = none := by
  obtain ⟨m,found⟩ := Option.isSome_iff_exists.mp waits
  obtain ⟨found,status⟩ := Option.filter_eq_some_iff.mp found
  rw [Store.profiled,found]
  have inactive : m.status = .pendingReview := by simpa using status
  exact if_neg (fun both => by rw [inactive] at both; cases both.2)

theorem approved_steady {pending : Memory σ} {r : DecisionRow} (waits : s.pending? id = some pending)
    (still : r.still pending s) : ∀ l ∈ r.updates lib pending now s, ∀ m ∈ s.memories.find? l.1, l.2.steady m := by
  have found : s.memories.find? pending.id = some pending := by
    obtain ⟨found,_⟩ := Option.filter_eq_some_iff.mp waits
    rwa [(Table.find?_eq_some.mp found).2]
  have outside : s.profiled pending.id = none := by
    have same : pending.id = id := (Table.find?_eq_some.mp (Option.filter_eq_some_iff.mp waits).1).2
    rw [same]
    exact unprofiled_of_pending (by rw [waits]; rfl)
  have unmoved {c : Changes σ} (other : pending.memoryType ≠ .semantic) : ∀ m ∈ s.memories.find? pending.id, c.steady m := by
    intro m here semantic
    obtain rfl := Option.some.inj (found.symm.trans here)
    exact absurd semantic other
  have target {t : Memory σ} (there : r.target s = some t) (gone : t.profile = none) : s.profiled t.id = none := by
    obtain ⟨k,_,there⟩ := Option.bind_eq_some_iff.mp there
    rw [Store.profiled,(Table.find?_eq_some.mp there).2,there]
    exact gone
  have mutated {t : Memory σ} {isTaskUpdate : Bool} {m : Memory σ} : (approvedMutation lib pending t isTaskUpdate now).steady m := by
    intro _ status sets
    simp [approvedMutation] at sets
  have archived : ∀ m ∈ s.memories.find? pending.id, ({ status := some .archived } : Changes σ).steady m :=
    steady_of_unprofiled outside rfl (by decide)
  unfold DecisionRow.updates
  split
  · rename_i relation
    rw [List.forall_mem_singleton]
    exact unmoved (still.1 (.inl relation))
  · rw [List.forall_mem_cons,List.forall_mem_singleton]
    exact ⟨fun _ _ => mutated,archived⟩
  · rw [List.forall_mem_cons,List.forall_mem_singleton]
    exact ⟨fun _ _ => mutated,archived⟩
  · rename_i t relation there
    rw [List.forall_mem_cons,List.forall_mem_singleton]
    exact ⟨steady_of_unprofiled (target there (still.2 (.inl relation) t there)) rfl (by decide),
      unmoved (still.1 (.inr relation))⟩
  · rename_i t relation there
    rw [List.forall_mem_cons,List.forall_mem_singleton]
    exact ⟨steady_of_unprofiled (target there (still.2 (.inr relation) t there)) rfl (by decide),
      steady_of_unprofiled outside rfl (by decide)⟩
  · exact fun l member => absurd member List.not_mem_nil

theorem perform_projections {target : Option (Memory σ)} (found : ∀ t ∈ target, s.memories.find? t.id = some t)
    (ok : perform lib call d target s = .ok (result,ids,u)) : u.derived.projections = s.derived.projections := by
  unfold perform at ok
  split at ok
  · cases ok
    rfl
  · exact (insertDecided_ok ok).1.entered.projections
  · exact (insertDecided_ok ok).1.entered.projections
  · exact (supportTarget_quiet (found _ rfl) ok).projections
  · exact (mutateTarget_quiet ok).projections
  · exact (mutateTarget_quiet ok).projections
  · exact (mutateTarget_quiet ok).projections
  · obtain ⟨v,_,before,_,entered,_⟩ := replaceTarget_entered ok
    exact entered.projections.trans before
  · obtain ⟨v,_,before,_,entered,_⟩ := replaceTarget_entered ok
    exact entered.projections.trans before
  · cases ok

theorem apply_onward : Onward s.derived.projections (applyMemoryDecision lib call s).2.derived.projections := by
  unfold applyMemoryDecision
  cases applied : applyInSession lib call s with
  | ok p =>
    rcases applyInSession_ok.mp applied with ⟨_,_,_,same⟩ | ⟨_,target,chosen,_,ids,u,done,saved⟩
    · exact same ▸ Onward.refl _
    · obtain ⟨decisions,same⟩ := saveDecision_frame saved
      have kept := perform_projections (fun t named => ((target_ok chosen).2 t named).2) done
      change Onward s.derived.projections p.2.derived.projections
      rw [same,← kept]
      exact markAffected_onward
  | error e =>
    dsimp only
    split
    · exact .refl _
    · exact recordFailure_quiet.tracked.onward

theorem execute_onward {c : Command σ} (ok : execute lib s c = .ok s') : Onward s.derived.projections s'.derived.projections := by
  have untouched (same : s'.derived.projections = s.derived.projections) : Onward s.derived.projections s'.derived.projections := by
    rw [same]
    exact .refl _
  have updated {c : Changes σ} {reason : Option String} {note : Option NoteId} {id : MemoryId} {now : Time}
      (ok : updateMemory lib id c reason note now s = .ok s') : Onward s.derived.projections s'.derived.projections := by
    unfold updateMemory at ok
    split at ok
    · cases ok
      exact .refl _
    · obtain ⟨u,update,last⟩ := bind_ok.mp ok
      cases last
      rw [← versionedUpdate_projections update]
      exact markDirtyId_onward
  cases c with
  | apply call =>
    cases ok
    exact apply_onward
  | insert =>
    obtain ⟨u,inserts,last⟩ := bind_ok.mp ok
    cases last
    rw [← (insertMemory_ok inserts).entered.projections]
    exact mark_onward
  | addSource =>
    cases ok
    exact addSourceCommand_tracked.onward
  | update => exact updated ok
  | correct =>
    rcases correctMemory_writes ok with rfl | ⟨_,writes⟩
    · exact .refl _
    · exact untouched writes.projections
  | softDelete => exact updated ok
  | expire =>
    obtain ⟨ls,writes,_⟩ := expireDueMemories_writes ok
    exact untouched writes.projections
  | resolve =>
    rcases resolveMemoryConflict_writes ok with rfl | writes
    · exact .refl _
    · exact untouched writes.projections
  | purge =>
    cases ok
    exact .refl _
  | approve =>
    obtain ⟨p,approves,last⟩ := bind_ok.mp ok
    cases last
    rcases approvePendingMemory_writes approves with same | ⟨_,_,_,_,writes⟩
    · exact untouched (by rw [same])
    · exact untouched writes.projections
  | reject =>
    rcases rejectPendingMemory_writes ok with rfl | ⟨_,writes⟩
    · exact .refl _
    · exact untouched writes.projections
  | edit =>
    obtain ⟨p,edits,last⟩ := bind_ok.mp ok
    cases last
    rcases editPendingMemory_writes edits with same | ⟨_,_,writes⟩
    · exact untouched (by rw [same])
    · exact untouched writes.projections

theorem execute_tracked {c : Command σ} (enabled : lib.profileProjection) (still : c.still lib s) (ok : execute lib s c = .ok s') :
    Tracked s s' := by
  cases c with
  | apply call =>
    cases ok
    exact apply_tracked enabled still
  | insert => exact insertMemoryCommand_tracked enabled ok
  | addSource =>
    cases ok
    exact addSourceCommand_tracked
  | update => exact updateMemory_tracked enabled still ok
  | correct id content taskStatus now =>
    rcases correctMemory_writes ok with rfl | ⟨resolved,writes⟩
    · exact (Quiet.refl _).tracked
    · refine (writes.quiet (fun l member => ?_)).tracked
      rw [List.mem_singleton.mp member]
      exact steady_of_active still rfl
  | softDelete => exact updateMemory_tracked enabled (fun counts => absurd still counts) ok
  | expire ids now =>
    obtain ⟨ls,writes,labels⟩ := expireDueMemories_writes ok
    refine (writes.quiet (fun l member => ?_)).tracked
    obtain ⟨listed,_,expired⟩ := labels l member
    exact steady_of_unprofiled (still l.1 listed) expired (by decide)
  | resolve id resolution now =>
    rcases resolveMemoryConflict_writes ok with rfl | writes
    · exact (Quiet.refl _).tracked
    · refine (writes.quiet (fun l member => ?_)).tracked
      rw [List.mem_singleton.mp member]
      cases resolution with
      | keep => exact steady_of_active still rfl
      | merge content => exact steady_of_active still rfl
      | archive => exact steady_of_unprofiled still rfl (by decide)
  | purge id =>
    cases ok
    exact purgeMemory_tracked still
  | approve id now =>
    obtain ⟨p,approves,last⟩ := bind_ok.mp ok
    cases last
    rcases approvePendingMemory_writes approves with same | ⟨pending,r,waits,reviewed,writes⟩
    · rw [same]
      exact (Quiet.refl s).tracked
    · exact (writes.quiet (approved_steady waits (still pending waits r reviewed))).tracked
  | reject id now =>
    rcases rejectPendingMemory_writes ok with rfl | ⟨waits,writes⟩
    · exact (Quiet.refl _).tracked
    · refine (writes.quiet (fun l member => ?_)).tracked
      rw [List.mem_singleton.mp member]
      exact steady_of_unprofiled (unprofiled_of_pending waits) rfl (by decide)
  | edit id content now =>
    obtain ⟨p,edits,last⟩ := bind_ok.mp ok
    cases last
    rcases editPendingMemory_writes edits with same | ⟨waits,taskStatus,writes⟩
    · rw [same]
      exact (Quiet.refl s).tracked
    · refine (writes.quiet (fun l member => ?_)).tracked
      rw [List.mem_singleton.mp member]
      exact steady_of_unprofiled (unprofiled_of_pending waits) rfl (by decide)

end Suixinji.Memories
