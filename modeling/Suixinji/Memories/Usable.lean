import Suixinji.Memories.Embeddings
import Suixinji.Memories.Approval
import Suixinji.Memories.Waiting

/-! Every active memory has a usable vector, or will have one, as long as no finished
task is in the way and no claim is lost. -/
namespace Suixinji.Memories
open Relational Checked Transition

variable {σ : Type} {lib : Library σ} {s s' u : Store σ} {d d' : Derived} {m t : Memory σ} {id : MemoryId} {h : ContentHash}
  {runs : List EmbeddingRun} {now : Time} {w w' : Embeddings σ} {call : ApplyCall σ}

/-! ### Vectors of a hash -/

section
variable {v : MemoryVector}

theorem hash_of_ready (ready : v.readyFor h) : v.contentHash = h := by
  simp only [MemoryVector.readyFor,Bool.and_eq_true,decide_eq_true_eq] at ready
  exact ready.1.2

theorem hash_of_processes (processes : v.processes h) : v.contentHash = h := by
  simp only [MemoryVector.processes,Bool.and_eq_true,decide_eq_true_eq] at processes
  exact processes.2

theorem hash_of_tended (tended : v.tended h) : v.contentHash = h := by
  simp only [MemoryVector.tended,Bool.or_eq_true,Bool.and_eq_true,decide_eq_true_eq] at tended
  exact tended.elim And.right hash_of_ready

end

/-! ### Scheduling -/

def Derived.agrees (d d' : Derived) (id : MemoryId) : Prop :=
  d'.vectors.find? id = d.vectors.find? id ∧ ∀ h, d'.tasks.find? (id,h) = d.tasks.find? (id,h)

theorem serves_congr (vectors : d'.vectors.find? id = d.vectors.find? id) (tasks : d'.tasks.find? (id,h) = d.tasks.find? (id,h)) :
    d'.serves id h runs ↔ d.serves id h runs := by
  simp only [Derived.serves,Derived.ready,Derived.opens,Derived.claimable,Derived.untended,vectors,tasks]

theorem Derived.agrees.serves (agrees : d.agrees d' id) : d'.serves id h runs ↔ d.serves id h runs :=
  serves_congr agrees.1 (agrees.2 h)

theorem schedule_agrees (other : id ≠ m.id) : d.agrees (scheduleMemoryEmbedding lib m d) id := by
  unfold scheduleMemoryEmbedding
  dsimp only
  split
  · exact ⟨rfl,fun _ => rfl⟩
  · refine ⟨(Table.find?_upsert _ _ _).trans (if_neg other),fun h => (Table.find?_insertNew _ _ _).trans (if_neg ?_)⟩
    exact fun same => other (congrArg Prod.fst same)

theorem schedule_due (enabled : lib.vectorLifecycle) (unready : ¬d.ready m.id (memoryContentHash lib m)) :
    (scheduleMemoryEmbedding lib m d).vectors.find? m.id =
        some { memoryId := m.id,contentHash := memoryContentHash lib m,status := .pending } ∧
      (scheduleMemoryEmbedding lib m d).tasks.find? (m.id,memoryContentHash lib m) =
        some ((d.tasks.find? (m.id,memoryContentHash lib m)).getD ⟨m.id,memoryContentHash lib m,false⟩) := by
  have due : ¬(!lib.vectorLifecycle || (d.vectors.find? m.id).any (·.readyFor (memoryContentHash lib m))) = true :=
    fun skipped => unready ((Option.any_eq_true ..).mp (by simpa [enabled] using skipped))
  rw [scheduleMemoryEmbedding,if_neg due]
  exact ⟨(Table.find?_upsert _ _ _).trans (if_pos rfl),(Table.find?_insertNew _ _ _).trans (if_pos rfl)⟩

theorem mark_agrees : d.agrees (markSemanticProfileDirty lib m d) id := by
  unfold markSemanticProfileDirty
  split <;> exact ⟨rfl,fun _ => rfl⟩

theorem schedule_serves (enabled : lib.vectorLifecycle) (free : d.schedulable m.id (memoryContentHash lib m)) :
    (scheduleMemoryEmbedding lib m d).serves m.id (memoryContentHash lib m) runs := by
  by_cases ready : d.ready m.id (memoryContentHash lib m)
  · have skipped : (!lib.vectorLifecycle || (d.vectors.find? m.id).any (·.readyFor (memoryContentHash lib m))) = true := by
      simpa [enabled] using (Option.any_eq_true ..).mpr ready
    rw [scheduleMemoryEmbedding,if_pos skipped]
    exact .inl ready
  · obtain ⟨vector,task⟩ := schedule_due enabled ready
    refine .inr (.inl ⟨⟨_,task,?_⟩,.inl (fun v found => ?_)⟩)
    · cases found : d.tasks.find? (m.id,memoryContentHash lib m) with
      | none => rfl
      | some t => exact free.resolve_left ready t found
    · obtain rfl := Option.some.inj (vector.symm.trans found)
      simp [MemoryVector.processes]

theorem Derived.serves.schedulable (serves : d.serves id h runs) : d.schedulable id h := by
  rcases serves with ready | ⟨⟨t,found,unfinished⟩,_⟩ | ⟨none,_⟩
  · exact .inl ready
  · refine .inr (fun t' found' => ?_)
    obtain rfl := Option.some.inj (found.symm.trans found')
    exact unfinished
  · exact .inr (fun t found => by rw [none] at found; cases found)

theorem backfillEmbedding_serves (enabled : lib.vectorLifecycle) (serves : d.serves id h runs)
    (own : m.id = id → memoryContentHash lib m = h) : (backfillEmbedding lib d m).serves id h runs := by
  unfold backfillEmbedding
  split
  · exact serves
  · by_cases same : m.id = id
    · subst same
      obtain rfl := own rfl
      exact schedule_serves enabled serves.schedulable
    · exact (schedule_agrees (Ne.symm same)).serves.mpr serves

theorem backfillEmbedding_untended (enabled : lib.vectorLifecycle) (untended : d.untended m.id (memoryContentHash lib m)) :
    (backfillEmbedding lib d m).serves m.id (memoryContentHash lib m) runs ∧
      ¬(backfillEmbedding lib d m).untended m.id (memoryContentHash lib m) := by
  have serves : d.serves m.id (memoryContentHash lib m) runs := .inr (.inr untended)
  refine ⟨backfillEmbedding_serves enabled serves (fun _ => rfl),fun still => ?_⟩
  have passes : ¬(d.vectors.find? m.id).any (·.tended (memoryContentHash lib m)) := by
    rw [Option.any_eq_true]
    rintro ⟨v,found,tended⟩
    exact untended.2 v found tended
  have unready : ¬d.ready m.id (memoryContentHash lib m) := by
    rintro ⟨v,found,ready⟩
    exact untended.2 v found (by simp [MemoryVector.tended,ready])
  have absent := still.1
  rw [backfillEmbedding,if_neg passes,(schedule_due enabled unready).2] at absent
  cases absent

/-! ### What is usable -/

/-- The task of a hash claims the vector of an active memory whose text has it, unless the
vector is ready or being processed. -/
theorem claim_isSome (enabled : lib.vectorLifecycle) (found : s.memories.find? m.id = some m) (active : m.status = .active) :
    (claimMemoryVector lib m.id h s).isSome ↔ h = memoryContentHash lib m ∧
      ¬s.derived.ready m.id (memoryContentHash lib m) ∧ s.derived.claimable m.id (memoryContentHash lib m) := by
  rw [claimMemoryVector,found,Option.filter_some,if_pos (by simpa using active)]
  simp only [Derived.ready,Derived.claimable]
  cases vector : s.derived.vectors.find? m.id with
  | none => simp [enabled,MemoryVector.readyFor,MemoryVector.processes]
  | some v => simp [enabled,not_or,and_assoc]

theorem tended_iff (enabled : lib.vectorLifecycle) (found : w.store.memories.find? m.id = some m) (active : m.status = .active) :
    w.tended lib m ↔ w.store.derived.ready m.id (memoryContentHash lib m) ∨
      w.store.derived.opens m.id (memoryContentHash lib m) ∧
        (w.store.derived.claimable m.id (memoryContentHash lib m) ∨ held m.id (memoryContentHash lib m) w.runs) := by
  by_cases ready : w.store.derived.ready m.id (memoryContentHash lib m)
  · exact iff_of_true (.inl ready) (.inl ready)
  refine or_congr Iff.rfl ?_
  constructor
  · rintro ⟨t,inside,unfinished,key,attended⟩
    refine ⟨⟨t,Table.find?_eq_some.mpr ⟨inside,key⟩,unfinished⟩,?_⟩
    have memory : t.memoryId = m.id := congrArg Prod.fst key
    rw [memory,claim_isSome enabled found active,key] at attended
    exact attended.imp (fun claims => claims.2.2) id
  · rintro ⟨⟨t,there,unfinished⟩,attended⟩
    obtain ⟨inside,key⟩ := Table.find?_eq_some.mp there
    have memory : t.memoryId = m.id := congrArg Prod.fst key
    have hash : t.contentHash = memoryContentHash lib m := congrArg Prod.snd key
    refine ⟨t,inside,unfinished,key,?_⟩
    rw [memory,claim_isSome enabled found active,key]
    exact attended.imp (fun claimable => ⟨hash,ready,claimable⟩) id

theorem backfilled (member : m ∈ s.memories) (active : m.status = .active) :
    (scheduleMemoryVectorBackfill lib .active [m.id] s).derived = backfillEmbedding lib s.derived m := by
  have single : s.memories.rows.filter (fun n => n.status = .active && n.id ∈ [m.id]) = [m] := by
    refine Table.filter_rows member (fun n inside => ?_)
    simp only [List.mem_singleton,Bool.and_eq_true,decide_eq_true_eq]
    constructor
    · exact And.right
    · intro same
      rw [s.memories.unique inside member same]
      exact ⟨active,rfl⟩
  rw [scheduleMemoryVectorBackfill,single]
  rfl

theorem usable_iff (enabled : lib.vectorLifecycle) (member : m ∈ w.store.memories) (active : m.status = .active) :
    w.usable lib m ↔ w.store.derived.serves m.id (memoryContentHash lib m) w.runs := by
  have found := Table.find?_mem member
  have after : Embeddings.tended lib { w with store := scheduleMemoryVectorBackfill lib .active [m.id] w.store } m ↔
      (backfillEmbedding lib w.store.derived m).ready m.id (memoryContentHash lib m) ∨
        (backfillEmbedding lib w.store.derived m).opens m.id (memoryContentHash lib m) ∧
          ((backfillEmbedding lib w.store.derived m).claimable m.id (memoryContentHash lib m) ∨
            held m.id (memoryContentHash lib m) w.runs) := by
    rw [tended_iff enabled (by exact found) active]
    rw [show (scheduleMemoryVectorBackfill lib .active [m.id] w.store).derived = _ from backfilled member active]
  rw [Embeddings.usable,tended_iff enabled found active,after]
  constructor
  · rintro ((ready | opens) | scheduled)
    · exact .inl ready
    · exact .inr (.inl opens)
    · by_cases tended : (w.store.derived.vectors.find? m.id).any (·.tended (memoryContentHash lib m))
      · rw [backfillEmbedding,if_pos tended] at scheduled
        exact scheduled.imp id .inl
      · -- the row was scheduled: a task that is there now was there before, or its key was free
        have passes : ∀ v ∈ w.store.derived.vectors.find? m.id, ¬v.tended (memoryContentHash lib m) := fun v there holds =>
          tended ((Option.any_eq_true ..).mpr ⟨v,there,holds⟩)
        have unready : ¬w.store.derived.ready m.id (memoryContentHash lib m) := by
          rintro ⟨v,there,ready⟩
          exact passes v there (by simp [MemoryVector.tended,ready])
        obtain ⟨vector,created⟩ := schedule_due enabled unready
        rw [backfillEmbedding,if_neg tended] at scheduled
        rcases scheduled with ⟨v,there,ready⟩ | ⟨⟨t',there,unfinished⟩,_⟩
        · obtain rfl := Option.some.inj (vector.symm.trans there)
          simp [MemoryVector.readyFor] at ready
        · obtain rfl := Option.some.inj (created.symm.trans there)
          cases task : w.store.derived.tasks.find? (m.id,memoryContentHash lib m) with
          | none => exact .inr (.inr ⟨task,passes⟩)
          | some t =>
            rw [task] at unfinished
            exact .inr (.inl ⟨⟨t,task,unfinished⟩,.inl (fun v there processes =>
              passes v there (by simp_all [MemoryVector.tended,MemoryVector.processes]))⟩)
  · rintro (ready | opens | untended)
    · exact .inl (.inl ready)
    · exact .inl (.inr opens)
    · obtain ⟨served,tended⟩ : (backfillEmbedding lib w.store.derived m).serves m.id (memoryContentHash lib m) w.runs ∧
          ¬(backfillEmbedding lib w.store.derived m).untended m.id (memoryContentHash lib m) :=
        backfillEmbedding_untended enabled untended
      exact .inr (served.imp id (fun rest => rest.resolve_right tended))

/-! ### Memories -/

def Lively (lib : Library σ) (s : Store σ) (runs : List EmbeddingRun) : Prop :=
  ∀ m ∈ s.memories, m.status = .active → s.derived.serves m.id (memoryContentHash lib m) runs

section
variable (lively : Lively lib s runs)
include lively

theorem Lively.congr (memories : s'.memories = s.memories) (derived : s'.derived = s.derived) : Lively lib s' runs := by
  intro m member active
  rw [derived]
  exact lively m (memories ▸ member) active

theorem Lively.put {row : Memory σ} (memories : s'.memories = s.memories.put row)
    (others : ∀ k, k ≠ row.id → s.derived.agrees s'.derived k)
    (own : row.status = .active → s'.derived.serves row.id (memoryContentHash lib row) runs) : Lively lib s' runs := by
  intro m member active
  rw [memories,Table.mem_put] at member
  rcases member with ⟨member,other⟩ | ⟨rfl,_⟩
  · exact (others m.id other).serves.mpr (lively m member active)
  · exact own active

theorem Lively.update {c : Changes σ} {reason : Option String} {note : Option NoteId} {notes : List NoteId}
    (enabled : lib.vectorLifecycle) (worded : c.content = none → c.subject = none ∧ c.objectValue = none)
    (ok : versionedUpdate lib id c reason note now s notes = .ok s') (admits : Embeddings.admits lib ⟨s,runs⟩ (id,c)) :
    Lively lib s' runs := by
  obtain ⟨m,found,_,rfl⟩ := versionedUpdate_ok.mp ok
  obtain ⟨member,rfl⟩ := Table.find?_eq_some.mp found
  have admitted := admits m found
  by_cases written : c.content.isSome
  · refine lively.put rfl (fun k other => ?_) (fun active => ?_)
    · rw [rewrite_derived written]
      exact schedule_agrees (m := m.changed lib c now) other
    · rw [rewrite_derived written]
      have free := admitted active
      rw [if_pos written] at free
      exact schedule_serves (m := m.changed lib c now) enabled free
  · have kept : (s.rewrite lib m c reason note notes now).derived = s.derived := if_neg written
    have silent : c.content = none := by simpa using written
    refine lively.put rfl (fun k _ => ?_) (fun active => ?_)
    · rw [kept]
      exact ⟨rfl,fun _ => rfl⟩
    · have same : memoryContentHash lib (m.changed lib c now) = memoryContentHash lib m := by
        obtain ⟨subject,objectValue⟩ := worded silent
        simp [memoryContentHash,Memory.changed,silent,subject,objectValue]
      rw [kept,same]
      have was := admitted active
      rw [if_neg written] at was
      exact was.elim (lively m member) id

theorem Lively.retired {c : Changes σ} {reason : Option String} {note : Option NoteId} {notes : List NoteId}
    (silent : c.content = none) (inactive : ∃ status ∈ c.status, status ≠ .active)
    (ok : versionedUpdate lib id c reason note now s notes = .ok s') : Lively lib s' runs ∧ s'.derived = s.derived := by
  obtain ⟨m,found,_,rfl⟩ := versionedUpdate_ok.mp ok
  have kept : (s.rewrite lib m c reason note notes now).derived = s.derived := if_neg (by simp [silent])
  refine ⟨lively.put rfl (fun k _ => ?_) (fun active => ?_),kept⟩
  · rw [kept]
    exact ⟨rfl,fun _ => rfl⟩
  · obtain ⟨status,sets,other⟩ := inactive
    rw [Option.mem_def] at sets
    rw [changed_status,sets] at active
    exact absurd active other

end

theorem Writes.lively {ls : List (MemoryId × Changes σ)} (writes : Writes lib now s ls s') (lively : Lively lib s runs)
    (retires : ∀ l ∈ ls, l.2.content = none ∧ ∃ status ∈ l.2.status, status ≠ .active) : Lively lib s' runs := by
  induction writes with
  | nil => exact lively
  | @update s t u id c ls reason note notes head _ ih =>
    obtain ⟨silent,inactive⟩ := retires (id,c) (by simp)
    exact ih (lively.retired silent inactive head).1 (fun l later => retires l (by simp [later]))
  | aside memories derived _ ih => exact ih (lively.congr memories derived) retires

theorem Writes.lively_first {l : MemoryId × Changes σ} {ls : List (MemoryId × Changes σ)} (writes : Writes lib now s (l::ls) s')
    (lively : Lively lib s runs) (enabled : lib.vectorLifecycle)
    (worded : l.2.content = none → l.2.subject = none ∧ l.2.objectValue = none) (admits : Embeddings.admits lib ⟨s,runs⟩ l)
    (retires : ∀ l ∈ ls, l.2.content = none ∧ ∃ status ∈ l.2.status, status ≠ .active) : Lively lib s' runs := by
  obtain ⟨t,u,reason,note,notes,memories,derived,head,tail⟩ := writes.first
  have admitted : Embeddings.admits lib ⟨t,runs⟩ l := by
    simp only [Embeddings.admits,memories,derived]
    exact admits
  exact tail.lively ((lively.congr memories derived).update enabled worded head admitted) retires

theorem Archived.lively {gone : List MemoryId} (archived : Archived lib gone now s s') (lively : Lively lib s runs) :
    Lively lib s' runs := by
  intro m member active
  have found := archived.find? m.id
  rw [Table.find?_mem member] at found
  obtain ⟨n,there,same⟩ := Option.map_eq_some_iff.mp found.symm
  rw [archived.derived]
  split at same
  · rw [← same] at active
    cases active
  · subst same
    exact lively n (Table.find?_eq_some.mp there).1 active

theorem Inserted.lively {row : Memory σ} {note : NoteId} {relation : SourceRelation} (inserted : Inserted lib row note relation s s')
    (lively : Lively lib s runs) (enabled : lib.vectorLifecycle)
    (free : row.status = .active → s.derived.schedulable row.id (memoryContentHash lib row)) : Lively lib s' runs := by
  intro m member active
  rw [inserted.derived]
  rcases inserted.mem.mp member with old | rfl
  · have other : m.id ≠ row.id := (Table.insert_eq_some.mp inserted.memories).1 m old
    exact (schedule_agrees other).serves.mpr (lively m old active)
  · exact schedule_serves enabled (free active)

/-! ### Applied decisions -/

section
variable {e : Decision} {result : Result} {ids : List MemoryId} (lively : Lively lib s runs)
include lively

theorem supportTarget_lively (found : s.memories.find? t.id = some t) (ok : supportTarget lib call e t s = .ok (result,ids,s')) :
    Lively lib s' runs := by
  obtain ⟨⟨gone,v⟩,archived,last⟩ := bind_ok.mp ok
  cases last
  have supported (added : Bool) (v : Store σ) (row : Memory σ) (memories : v.memories = s.memories) (derived : v.derived = s.derived)
      (same : row.id = t.id) (status : row.status = t.status) (hash : memoryContentHash lib row = memoryContentHash lib t) :
      Lively lib (if added then { v with memories := v.memories.put row } else v) runs := by
    cases added with
    | false => exact lively.congr memories derived
    | true =>
      refine (lively.congr memories derived).put rfl (fun _ _ => ⟨rfl,fun _ => rfl⟩) (fun active => ?_)
      rw [hash,same]
      change v.derived.serves t.id _ runs
      rw [derived]
      exact lively t (Table.find?_eq_some.mp found).1 (status.symm.trans active)
  split at archived
  · have rest := (archiveTerminalTaskDuplicates_ok archived).1
    exact rest.lively (supported _ (addSource t.id call.noteId .supportedBy s).2 _ rfl rfl rfl rfl rfl)
  · cases archived
    exact supported _ (addSource t.id call.noteId .supportedBy s).2 _ rfl rfl rfl rfl rfl

theorem mutateTarget_lively (enabled : lib.vectorLifecycle) (admits : Embeddings.admits lib ⟨s,runs⟩ (t.id,call.mutation lib e t))
    (ok : mutateTarget lib call e t s = .ok (result,ids,s')) : Lively lib s' runs := by
  obtain ⟨u,update,rest⟩ := bind_ok.mp ok
  obtain ⟨⟨gone,v⟩,archived,last⟩ := bind_ok.mp rest
  cases last
  have sourced : Lively lib (addSource t.id call.noteId (if e.recommendedAction = .merge then .supportedBy else .updatedBy) s).2 runs :=
    lively.congr rfl rfl
  have first : Lively lib u runs := sourced.update (c := call.mutation lib e t) enabled nofun update admits
  split at archived
  · exact (archiveTerminalTaskDuplicates_ok archived).1.lively first
  · cases archived
    exact first

theorem replaceTarget_lively (enabled : lib.vectorLifecycle)
    (free : s.derived.schedulable call.newId
      (memoryContentHash lib (call.candidate.row lib call.newId call.spaceId .active call.now)))
    (ok : replaceTarget lib call e t s = .ok (result,ids,s')) : Lively lib s' runs := by
  obtain ⟨u,update,rest⟩ := bind_ok.mp ok
  obtain ⟨v,inserted,last⟩ := bind_ok.mp rest
  cases last
  have sourced : Lively lib (addSource t.id call.noteId .contradictedBy s).2 runs := lively.congr rfl rfl
  obtain ⟨first,kept⟩ := sourced.retired rfl ⟨_,rfl,by split <;> decide⟩ update
  have same : u.derived = s.derived := kept
  have second : Lively lib v runs := by
    refine (insertMemory_ok inserted).lively first enabled (fun _ => ?_)
    rw [same]
    exact free
  exact second.congr rfl rfl

theorem recordFailure_lively {error : Error} : Lively lib (recordFailure lib call error s) runs := by
  unfold recordFailure
  cases saved : saveDecision call.spaceId call.noteId (call.attempted lib s) .failed [] (some error.typeName) call.now s with
  | error _ => exact lively
  | ok u =>
    obtain ⟨decisions,rfl⟩ := saveDecision_frame saved
    exact lively.congr rfl rfl

theorem markAffected_lively {c : Candidate σ} : Lively lib (markAffected lib c result s) runs := by
  intro m member active
  have agrees : s.derived.agrees (markAffected lib c result s).derived m.id := by
    unfold markAffected
    dsimp only
    cases (if (c.memoryType = .semantic && result.action ≠ .pendingReview) = true then result.memoryId.bind s.memories.find? else none) with
    | none => exact ⟨rfl,fun _ => rfl⟩
    | some m => exact mark_agrees
  exact agrees.serves.mpr (lively m member active)

omit lively in
theorem mem_edits (none : s.prior call.spaceId call.candidate.candidateId = none) (chosen : call.target s = .ok (some t))
    (mutates : (call.settled lib (some t)).recommendedAction = .merge ∨ (call.settled lib (some t)).recommendedAction = .update ∨
      (call.settled lib (some t)).recommendedAction = .updateTask) :
    (t.id,call.mutation lib (call.settled lib (some t)) t) ∈ call.edits lib s := by
  rcases mutates with action | action | action <;> simp [ApplyCall.edits,none,chosen,action]

theorem applyInSession_lively (enabled : lib.vectorLifecycle) (admits : ∀ l ∈ call.edits lib s, Embeddings.admits lib ⟨s,runs⟩ l)
    (free : s.derived.schedulable call.newId
      (memoryContentHash lib (call.candidate.row lib call.newId call.spaceId .active call.now)))
    (ok : applyInSession lib call s = .ok (result,s')) : Lively lib s' runs := by
  rcases applyInSession_ok.mp ok with ⟨_,_,_,rfl⟩ | ⟨none,target,chosen,passed,ids,u,done,saved⟩
  · exact lively
  obtain ⟨decisions,rfl⟩ := saveDecision_frame saved
  suffices performed : Lively lib u runs from (markAffected_lively performed).congr rfl rfl
  have found := (target_ok chosen).2
  unfold perform at done
  split at done
  · cases done
    exact lively
  · exact (insertDecided_ok done).1.lively lively enabled (fun _ => free)
  · exact (insertDecided_ok done).1.lively lively enabled (fun active => by cases active)
  · exact supportTarget_lively lively (found _ rfl).2 done
  · rename_i t action
    exact mutateTarget_lively lively enabled (admits _ (mem_edits none chosen (.inl action))) done
  · rename_i t action
    exact mutateTarget_lively lively enabled (admits _ (mem_edits none chosen (.inr (.inl action)))) done
  · rename_i t action
    exact mutateTarget_lively lively enabled (admits _ (mem_edits none chosen (.inr (.inr action)))) done
  · exact replaceTarget_lively lively enabled free done
  · exact replaceTarget_lively lively enabled free done
  · cases done

end

/-! ### Commands -/

theorem Lively.marked (lively : Lively lib s runs) (memories : s'.memories = s.memories)
    (agrees : ∀ id, s.derived.agrees s'.derived id) : Lively lib s' runs := by
  intro m member active
  exact (agrees m.id).serves.mpr (lively m (memories ▸ member) active)

theorem updateMemory_lively {c : Changes σ} {reason : Option String} {note : Option NoteId} (lively : Lively lib s runs)
    (enabled : lib.vectorLifecycle) (worded : c.content = none → c.subject = none ∧ c.objectValue = none)
    (admits : Embeddings.admits lib ⟨s,runs⟩ (id,c)) (ok : updateMemory lib id c reason note now s = .ok s') :
    Lively lib s' runs := by
  unfold updateMemory at ok
  split at ok
  · cases ok
    exact lively
  · obtain ⟨u,update,last⟩ := bind_ok.mp ok
    cases last
    have updated := lively.update enabled worded update admits
    refine updated.marked rfl (fun k => ?_)
    unfold Store.markDirtyId
    cases u.memories.find? id with
    | none => exact ⟨rfl,fun _ => rfl⟩
    | some m => exact mark_agrees

theorem purgeMemory_lively (lively : Lively lib s runs) : Lively lib (purgeMemory id s) runs := by
  intro m member active
  obtain ⟨member,other⟩ := Table.mem_filter.mp member
  have apart : m.id ≠ id := by simpa using other
  have agrees : s.derived.agrees (purgeMemory id s).derived m.id := by
    refine ⟨?_,fun _ => rfl⟩
    change (s.derived.vectors.filter (·.memoryId ≠ id)).find? m.id = s.derived.vectors.find? m.id
    exact Table.find?_filter (fun v same => by simpa [same] using apart)
  exact agrees.serves.mpr (lively m member active)

theorem approve_lively {pending : Memory σ} {r : DecisionRow} (lively : Lively lib s runs) (enabled : lib.vectorLifecycle)
    (waits : s.pending? id = some pending) (admits : ∀ l ∈ r.updates lib pending now s, Embeddings.admits lib ⟨s,runs⟩ l)
    (writes : Writes lib now s (r.updates lib pending now s) s') : Lively lib s' runs := by
  obtain ⟨found,status⟩ := Option.filter_eq_some_iff.mp waits
  have inactive : pending.status = .pendingReview := by simpa using status
  have named : pending.id = id := (Table.find?_eq_some.mp found).2
  have archived : ∀ l ∈ [(pending.id,({ status := some .archived } : Changes σ))], l.2.content = none ∧
      ∃ status ∈ l.2.status, status ≠ .active := by
    rw [List.forall_mem_singleton]
    exact ⟨rfl,_,rfl,by decide⟩
  have replaced {t : Memory σ} {c c' : Changes σ} (silent : c.content = none)
      (retires : ∃ status ∈ c.status, status ≠ .active) (worded : c'.content = none ∧ c'.subject = none ∧ c'.objectValue = none)
      (unworded : c.subject = none ∧ c.objectValue = none)
      (admits : Embeddings.admits lib ⟨s,runs⟩ (pending.id,c')) (writes : Writes lib now s [(t.id,c),(pending.id,c')] s') :
      Lively lib s' runs := by
    obtain ⟨v,u,reason,note,notes,memories,derived,head,tail⟩ := writes.first
    obtain ⟨first,kept⟩ := (lively.congr memories derived).retired silent retires head
    obtain ⟨m,there,_,written⟩ := versionedUpdate_ok.mp head
    refine tail.lively_first first enabled (fun _ => worded.2) ?_ (fun l member => absurd member List.not_mem_nil)
    intro n here active
    rw [if_neg (by simp [worded.1])]
    have before := admits pending (by rw [Option.mem_def,named]; exact found)
    rw [if_neg (by simp [worded.1]),inactive] at before
    -- the memory that waited still has its text, also where it is the target itself
    have same : memoryContentHash lib n = memoryContentHash lib pending ∧ n.id = pending.id ∧
        (c'.status.getD pending.status = .active ∨ n.status = .active) := by
      rw [Option.mem_def,written,rewrite_memories,find?_changed there,memories] at here
      split at here
      · rename_i self
        obtain rfl := Option.some.inj here
        have target : m = pending := by
          rw [memories,← self] at there
          simp only [named,found] at there
          exact (Option.some.inj there).symm
        subst target
        refine ⟨by simp [memoryContentHash,Memory.changed,silent,unworded.1,unworded.2],rfl,?_⟩
        cases sets : c'.status with
        | none => exact .inr (by simpa [sets] using active)
        | some new => exact .inl (by simpa [sets] using active)
      · rw [named,found] at here
        obtain rfl := Option.some.inj here
        exact ⟨rfl,rfl,.inl active⟩
    obtain ⟨hash,id,activated⟩ := same
    rcases activated with activated | already
    · rw [inactive] at activated
      have serves := (before activated).resolve_left (by decide)
      refine .inr ?_
      change u.derived.serves n.id _ runs
      rw [kept,derived,hash,id]
      exact serves
    · exact .inl already
  revert admits writes
  unfold DecisionRow.updates
  split
  · intro admits writes
    exact writes.lively_first lively enabled (fun _ => ⟨rfl,rfl⟩) (admits _ List.mem_cons_self)
      (fun l member => absurd member List.not_mem_nil)
  · intro admits writes
    exact writes.lively_first lively enabled (fun _ => ⟨rfl,rfl⟩) (admits _ List.mem_cons_self) archived
  · intro admits writes
    exact writes.lively_first lively enabled (fun _ => ⟨rfl,rfl⟩) (admits _ List.mem_cons_self) archived
  · intro admits writes
    exact replaced rfl ⟨_,rfl,by decide⟩ ⟨rfl,rfl,rfl⟩ ⟨rfl,rfl⟩ (admits _ (List.mem_cons_of_mem _ List.mem_cons_self)) writes
  · intro admits writes
    exact replaced rfl ⟨_,rfl,by decide⟩ ⟨rfl,rfl,rfl⟩ ⟨rfl,rfl⟩ (admits _ (List.mem_cons_of_mem _ List.mem_cons_self)) writes
  · intro _ writes
    exact writes.lively lively (fun l member => absurd member List.not_mem_nil)

theorem admits_congr {id : MemoryId} {c c' : Changes σ} (status : c.status = c'.status) (content : c.content = c'.content)
    (subject : c.subject = c'.subject) (objectValue : c.objectValue = c'.objectValue) (admits : w.admits lib (id,c)) :
    w.admits lib (id,c') := by
  intro m found active
  have same : m.rehashed lib c' = m.rehashed lib c := by
    simp [Memory.rehashed,memoryContentHash,Memory.changed,content,subject,objectValue]
  have before := admits m found (by simpa only [status] using active)
  rw [same]
  simpa only [content] using before

theorem execute_lively {c : Command σ} (lively : Lively lib s runs) (enabled : lib.vectorLifecycle) (worded : c.worded)
    (steady : Embeddings.steady lib ⟨s,runs⟩ (.command c)) (ok : execute lib s c = .ok s') : Lively lib s' runs := by
  obtain ⟨admits,free⟩ := steady
  cases c with
  | apply call =>
    cases ok
    unfold applyMemoryDecision
    cases applied : applyInSession lib call s with
    | ok p => exact applyInSession_lively lively enabled admits (free _ List.mem_cons_self rfl) applied
    | error e =>
      dsimp only
      split
      · exact lively
      · exact recordFailure_lively lively
  | insert =>
    obtain ⟨u,inserts,last⟩ := bind_ok.mp ok
    cases last
    refine Lively.marked (s := u) ?_ rfl (fun _ => mark_agrees)
    exact (insertMemory_ok inserts).lively lively enabled (free _ List.mem_cons_self)
  | addSource id note relation =>
    cases ok
    unfold addSourceCommand
    split
    · exact lively
    · dsimp only
      split
      · exact lively.marked rfl (fun _ => mark_agrees)
      · exact lively.congr rfl rfl
  | update id c => exact updateMemory_lively lively enabled (fun _ => worded) (admits _ List.mem_cons_self) ok
  | correct =>
    rcases correctMemory_writes ok with rfl | ⟨resolved,writes⟩
    · exact lively
    · have admitted := admits _ List.mem_cons_self
      exact writes.lively_first lively enabled (fun _ => ⟨rfl,rfl⟩) (admits_congr rfl rfl rfl rfl admitted)
        (fun l member => absurd member List.not_mem_nil)
  | softDelete =>
    refine updateMemory_lively lively enabled (fun _ => ⟨rfl,rfl⟩) ?_ ok
    intro m _ active
    cases active
  | expire =>
    obtain ⟨ls,writes,labels⟩ := expireDueMemories_writes ok
    exact writes.lively lively (fun l member => ⟨(labels l member).2.1,_,(labels l member).2.2,by decide⟩)
  | resolve id resolution =>
    rcases resolveMemoryConflict_writes ok with rfl | writes
    · exact lively
    · cases resolution with
      | keep =>
        exact writes.lively_first lively enabled (fun _ => ⟨rfl,rfl⟩) (admits _ List.mem_cons_self)
          (fun l member => absurd member List.not_mem_nil)
      | merge content =>
        exact writes.lively_first lively enabled (fun _ => ⟨rfl,rfl⟩) (admits _ List.mem_cons_self)
          (fun l member => absurd member List.not_mem_nil)
      | archive => exact writes.lively lively (by simp [Resolution.changes])
  | purge =>
    cases ok
    exact purgeMemory_lively lively
  | approve id now =>
    obtain ⟨p,approves,last⟩ := bind_ok.mp ok
    cases last
    rcases approvePendingMemory_writes approves with same | ⟨pending,r,waits,reviewed,writes⟩
    · rw [same]
      exact lively
    · refine approve_lively lively enabled waits ?_ writes
      simpa [Command.edits,waits,reviewed] using admits
  | reject =>
    rcases rejectPendingMemory_writes ok with rfl | ⟨_,writes⟩
    · exact lively
    · exact writes.lively lively (by simp)
  | edit =>
    obtain ⟨p,edits,last⟩ := bind_ok.mp ok
    cases last
    rcases editPendingMemory_writes edits with same | ⟨_,taskStatus,writes⟩
    · rw [same]
      exact lively
    · refine writes.lively_first lively enabled (fun _ => ⟨rfl,rfl⟩) ?_ (fun l member => absurd member List.not_mem_nil)
      intro m _ active
      cases active

/-! ### Runs of tasks -/

theorem Derived.serves.mono {runs' : List EmbeddingRun} (serves : d.serves id h runs) (more : held id h runs → held id h runs') :
    d.serves id h runs' := by
  rcases serves with ready | ⟨opens,claimable | holds⟩ | untended
  · exact .inl ready
  · exact .inr (.inl ⟨opens,.inl claimable⟩)
  · exact .inr (.inl ⟨opens,.inr (more holds)⟩)
  · exact .inr (.inr untended)

theorem held_append {r : EmbeddingRun} (holds : held id h runs) : held id h (runs ++ [r]) := by
  obtain ⟨r',member,key,holds⟩ := holds
  exact ⟨r',List.mem_append_left _ member,key,holds⟩

/-- A run that lets go of its claim leaves the claims of other hashes. -/
theorem held_set {i : Nat} {r : EmbeddingRun} (listed : runs[i]? = some r) (other : r.key ≠ (id,h)) (holds : held id h runs) :
    held id h (runs.set i { r with holds := false }) := by
  obtain ⟨r',member,key,holds⟩ := holds
  obtain ⟨j,there⟩ := List.mem_iff_getElem?.mp member
  have apart : i ≠ j := by
    rintro rfl
    obtain rfl := Option.some.inj (listed.symm.trans there)
    exact other key
  exact ⟨r',List.mem_iff_getElem?.mpr ⟨j,by rw [List.getElem?_set_ne apart,there]⟩,key,holds⟩

theorem held_erase {i : Nat} {r : EmbeddingRun} (listed : runs[i]? = some r) (free : r.holds = false) (holds : held id h runs) :
    held id h (runs.eraseIdx i) := by
  obtain ⟨r',member,key,holds⟩ := holds
  obtain ⟨j,there⟩ := List.mem_iff_getElem?.mp member
  refine ⟨r',List.mem_eraseIdx_iff_getElem?.mpr ⟨j,?_,there⟩,key,holds⟩
  rintro rfl
  obtain rfl := Option.some.inj (listed.symm.trans there)
  rw [free] at holds
  cases holds

theorem find?_onVector {p : MemoryVector → Bool} {f : MemoryVector → MemoryVector} {hf : ∀ v, (f v).memoryId = v.memoryId}
    (k : MemoryId) : (s.onVector id p f hf).derived.vectors.find? k =
      (s.derived.vectors.find? k).map (fun v => if v.memoryId = id && p v then f v else v) :=
  Table.find?_updateWhere _ _ f hf k

/-- A statement on the vectors of one hash leaves what is served of other hashes and other
memories, and so does a run of that hash that lets go. -/
theorem onVector_serves {key : MemoryId × ContentHash} {p : MemoryVector → Bool} {f : MemoryVector → MemoryVector}
    {hf : ∀ v, (f v).memoryId = v.memoryId} {runs' : List EmbeddingRun} (own : ∀ v, p v → v.contentHash = key.2)
    (kept : ∀ v, (f v).contentHash = v.contentHash) (more : held id h runs → held id h runs')
    (other : key ≠ (id,h)) (serves : s.derived.serves id h runs) : (s.onVector key.1 p f hf).derived.serves id h runs' := by
  refine Derived.serves.mono ?_ more
  have moved (v : MemoryVector) (there : s.derived.vectors.find? id = some v) (hash : v.contentHash = h) :
      (if v.memoryId = key.1 && p v then f v else v) = v := by
    refine if_neg ?_
    rw [Bool.and_eq_true,decide_eq_true_eq]
    rintro ⟨named,chosen⟩
    exact other (Prod.ext (named.symm.trans (Table.find?_eq_some.mp there).2) ((own v chosen).symm.trans hash))
  have hashed (v : MemoryVector) : (if v.memoryId = key.1 && p v then f v else v).contentHash = v.contentHash := by
    split
    · exact kept v
    · rfl
  rcases serves with ⟨v,there,ready⟩ | ⟨opens,attended⟩ | ⟨none,untended⟩
  · refine .inl ⟨v,(find?_onVector id).trans ?_,ready⟩
    rw [there,Option.map_some,moved v there (hash_of_ready ready)]
  · refine .inr (.inl ⟨opens,attended.imp (fun claimable => ?_) (fun holds => holds)⟩)
    intro v' there' processes
    obtain ⟨v,there,rfl⟩ := Option.map_eq_some_iff.mp ((find?_onVector id).symm.trans there')
    rw [moved v there ((hashed v).symm.trans (hash_of_processes processes))] at processes
    exact claimable v there processes
  · refine .inr (.inr ⟨none,fun v' there' tended => ?_⟩)
    obtain ⟨v,there,rfl⟩ := Option.map_eq_some_iff.mp ((find?_onVector id).symm.trans there')
    rw [moved v there ((hashed v).symm.trans (hash_of_tended tended))] at tended
    exact untended v there tended

theorem complete_serves {key : MemoryId × ContentHash} {l : List EmbeddingRun} (serves : s.derived.serves key.1 key.2 runs) :
    (completeMemoryVector key.1 key.2 s).derived.serves key.1 key.2 l := by
  by_cases processing : ∃ v ∈ s.derived.vectors.find? key.1, v.processes key.2
  · obtain ⟨v,there,processes⟩ := processing
    refine .inl ⟨{ v with status := .ready,embedded := true },(find?_onVector key.1).trans ?_,?_⟩
    · rw [there,Option.map_some,if_pos (by simp [(Table.find?_eq_some.mp there).2,processes])]
    · simp [MemoryVector.readyFor,hash_of_processes processes]
  · have claimable : s.derived.claimable key.1 key.2 := fun v there processes => processing ⟨v,there,processes⟩
    have same : (completeMemoryVector key.1 key.2 s).derived.vectors.find? key.1 = s.derived.vectors.find? key.1 := by
      refine (find?_onVector key.1).trans ?_
      cases there : s.derived.vectors.find? key.1 with
      | none => rfl
      | some v => rw [Option.map_some,if_neg (by simp [claimable v there])]
    have agrees : s.derived.agrees (completeMemoryVector key.1 key.2 s).derived key.1 := ⟨same,fun _ => rfl⟩
    refine agrees.serves.mpr ?_
    rcases serves with ready | ⟨opens,_⟩ | untended
    · exact .inl ready
    · exact .inr (.inl ⟨opens,.inl claimable⟩)
    · exact .inr (.inr untended)

theorem fail_serves {key : MemoryId × ContentHash} {l : List EmbeddingRun} (serves : s.derived.serves key.1 key.2 runs)
    (opens : (∀ v ∈ s.derived.vectors.find? key.1, v.contentHash ≠ key.2) ∨ s.derived.opens key.1 key.2) :
    (failMemoryVector key.1 key.2 s).derived.serves key.1 key.2 l := by
  have claimable : (failMemoryVector key.1 key.2 s).derived.claimable key.1 key.2 := by
    intro v' there' processes
    obtain ⟨v,there,rfl⟩ := Option.map_eq_some_iff.mp ((find?_onVector key.1).symm.trans there')
    split at processes
    · simp [MemoryVector.processes] at processes
    · rename_i missed
      exact missed (by simp [(Table.find?_eq_some.mp there).2,hash_of_processes processes])
  rcases opens with elsewhere | opens
  · have same : (failMemoryVector key.1 key.2 s).derived.vectors.find? key.1 = s.derived.vectors.find? key.1 := by
      refine (find?_onVector key.1).trans ?_
      cases there : s.derived.vectors.find? key.1 with
      | none => rfl
      | some v => rw [Option.map_some,if_neg (by simp [elsewhere v there])]
    have agrees : s.derived.agrees (failMemoryVector key.1 key.2 s).derived key.1 := ⟨same,fun _ => rfl⟩
    rcases serves with ready | ⟨opens,_⟩ | untended
    · exact agrees.serves.mpr (.inl ready)
    · exact .inr (.inl ⟨opens,.inl claimable⟩)
    · exact agrees.serves.mpr (.inr (.inr untended))
  · exact .inr (.inl ⟨opens,.inl claimable⟩)

theorem claim_lively {key : MemoryId × ContentHash} (lively : Lively lib s runs) (opens : s.derived.opens key.1 key.2)
    (claimed : claimMemoryVector lib key.1 key.2 s = some s') : Lively lib s' (runs ++ [⟨key,true⟩]) := by
  unfold claimMemoryVector at claimed
  split at claimed
  · cases claimed
  · rename_i m found
    obtain ⟨found,_⟩ := Option.filter_eq_some_iff.mp found
    obtain ⟨member,named⟩ := Table.find?_eq_some.mp found
    dsimp only at claimed
    split at claimed
    · cases claimed
    · rename_i due
      obtain rfl := Option.some.inj claimed
      have hash : key.2 = memoryContentHash lib m := by
        by_contra other
        simp [other] at due
      intro n inside active
      by_cases same : n.id = key.1
      · obtain rfl : n = m := s.memories.unique inside member (same.trans named.symm)
        rw [← hash,same]
        exact .inr (.inl ⟨opens,.inr ⟨⟨key,true⟩,by simp,rfl,rfl⟩⟩)
      · refine Derived.serves.mono ?_ held_append
        have agrees : s.derived.agrees { s.derived with vectors := s.derived.vectors.upsert {
            ((s.derived.vectors.find? key.1).getD { memoryId := key.1,contentHash := memoryContentHash lib m,status := .pending }) with
            status := .processing,contentHash := memoryContentHash lib m
            attemptCount := ((s.derived.vectors.find? key.1).getD
              { memoryId := key.1,contentHash := memoryContentHash lib m,status := .pending }).attemptCount + 1 } } n.id := by
          refine ⟨(Table.find?_upsert _ _ _).trans (if_neg ?_),fun _ => rfl⟩
          cases there : s.derived.vectors.find? key.1 with
          | none => exact same
          | some v => exact fun here => same (here.trans (Table.find?_eq_some.mp there).2)
        exact agrees.serves.mpr (lively n inside active)

theorem finish_serves {key : MemoryId × ContentHash} {runs' : List EmbeddingRun} (serves : d.serves id h runs)
    (more : held id h runs → held id h runs') (ready : key = (id,h) → d.ready id h) :
    Derived.serves { d with tasks := d.tasks.updateWhere (fun t => t.key = key) (fun t => { t with finished := true }) }
      id h runs' := by
  by_cases own : key = (id,h)
  · exact .inl (ready own)
  · have kept : (d.tasks.updateWhere (fun t => t.key = key) (fun t => { t with finished := true })).find? (id,h) =
        d.tasks.find? (id,h) := by
      refine (Table.find?_updateWhere d.tasks _ (fun t => { t with finished := true }) (fun _ => rfl) (id,h)).trans ?_
      cases there : d.tasks.find? (id,h) with
      | none => rfl
      | some t =>
        have apart : t.key ≠ key := by
          rw [(Table.find?_eq_some.mp there).2]
          exact Ne.symm own
        rw [Option.map_some,if_neg (by simpa using apart)]
    have same : Derived.serves { d with tasks := d.tasks.updateWhere (fun t => t.key = key) (fun t => { t with finished := true }) }
        id h runs ↔ d.serves id h runs := serves_congr rfl kept
    exact (same.mpr serves).mono more

theorem drop_serves {runs' : List EmbeddingRun} (serves : d.serves id h runs)
    (safe : d.claimable id h ∨ d.ready id h ∨ held id h runs') : d.serves id h runs' := by
  rcases serves with ready | ⟨opens,_⟩ | untended
  · exact .inl ready
  · rcases safe with claimable | ready | holds
    · exact .inr (.inl ⟨opens,.inl claimable⟩)
    · exact .inl ready
    · exact .inr (.inl ⟨opens,.inr holds⟩)
  · exact .inr (.inr untended)

theorem held_eraseIdx {i : Nat} {r : EmbeddingRun} (listed : runs[i]? = some r) (other : r.key ≠ (id,h)) (holds : held id h runs) :
    held id h (runs.eraseIdx i) := by
  obtain ⟨r',member,key,holds⟩ := holds
  obtain ⟨j,there⟩ := List.mem_iff_getElem?.mp member
  refine ⟨r',List.mem_eraseIdx_iff_getElem?.mpr ⟨j,?_,there⟩,key,holds⟩
  rintro rfl
  obtain rfl := Option.some.inj (listed.symm.trans there)
  exact other key

theorem backfill_lively {status : MemoryStatus} {due : List MemoryId} (lively : Lively lib s runs) (enabled : lib.vectorLifecycle) :
    Lively lib (scheduleMemoryVectorBackfill lib status due s) runs := by
  intro m member active
  have rows : ∀ n ∈ s.memories.rows.filter (fun n => n.status = status && n.id ∈ due), n ∈ s.memories :=
    fun n chosen => (List.mem_filter.mp chosen).1
  have serves := lively m member active
  change ((s.memories.rows.filter _).foldl (backfillEmbedding lib) s.derived).serves m.id _ runs
  generalize s.memories.rows.filter (fun n => n.status = status && n.id ∈ due) = chosen at rows
  generalize s.derived = d at serves
  induction chosen generalizing d with
  | nil => exact serves
  | cons n chosen ih =>
    refine ih (fun n' later => rows n' (List.mem_cons_of_mem _ later)) _ ?_
    refine backfillEmbedding_serves enabled serves (fun same => ?_)
    rw [s.memories.unique (rows n List.mem_cons_self) member same]

theorem lively_step {e : EmbeddingEvent σ} (enabled : lib.vectorLifecycle) (lively : Lively lib w.store w.runs)
    (worded : ∀ c, e = .command c → c.worded) (steady : w.steady lib e) (step : Embeddings.Step lib w e w') :
    Lively lib w'.store w'.runs := by
  cases e with
  | command c =>
    obtain ⟨s',ok,rfl⟩ := Option.map_eq_some_iff.mp step
    exact execute_lively lively enabled (worded c rfl) steady (ok_of_toOption ok)
  | start key =>
    change (if _ then _ else _) = some w' at step
    split at step
    · rename_i opens
      obtain rfl := Option.some.inj step
      cases claimed : claimMemoryVector lib key.1 key.2 w.store with
      | none => exact fun m member active => (lively m member active).mono held_append
      | some s' => exact claim_lively lively opens claimed
    · cases step
  | complete i =>
    obtain ⟨r,listed,rfl⟩ := Option.map_eq_some_iff.mp step
    obtain ⟨listed,_⟩ := Option.filter_eq_some_iff.mp listed
    intro m member active
    by_cases own : r.key = (m.id,memoryContentHash lib m)
    · have serves : w.store.derived.serves r.key.1 r.key.2 w.runs := by
        rw [own]
        exact lively m member active
      simpa only [own] using complete_serves (l := w.runs.set i { r with holds := false }) serves
    · exact onVector_serves (fun v => hash_of_processes) (fun _ => rfl) (held_set listed own) own (lively m member active)
  | fail i =>
    obtain ⟨r,listed,rfl⟩ := Option.map_eq_some_iff.mp step
    obtain ⟨listed,_⟩ := Option.filter_eq_some_iff.mp listed
    intro m member active
    by_cases own : r.key = (m.id,memoryContentHash lib m)
    · have serves : w.store.derived.serves r.key.1 r.key.2 w.runs := by
        rw [own]
        exact lively m member active
      have found : w.store.memories.find? r.key.1 = some m := by
        rw [own]
        exact Table.find?_mem member
      have opens := steady r listed m found active (by rw [own])
      simpa only [own] using fail_serves (l := w.runs.set i { r with holds := false }) serves opens
    · exact onVector_serves (fun v same => by simpa using same) (fun _ => rfl) (held_set listed own) own (lively m member active)
  | finish i =>
    obtain ⟨r,listed,rfl⟩ := Option.map_eq_some_iff.mp step
    obtain ⟨listed,free⟩ := Option.filter_eq_some_iff.mp listed
    intro m member active
    refine finish_serves (lively m member active) (held_erase listed (by simpa using free)) (fun own => ?_)
    have found : w.store.memories.find? r.key.1 = some m := by
      rw [own]
      exact Table.find?_mem member
    simpa only [own] using steady r listed m found active (by rw [own])
  | drop i =>
    cases step
    intro m member active
    cases listed : w.runs[i]? with
    | none =>
      have same : w.runs.eraseIdx i = w.runs := List.eraseIdx_of_length_le (List.getElem?_eq_none_iff.mp listed)
      change w.store.derived.serves _ _ (w.runs.eraseIdx i)
      rw [same]
      exact lively m member active
    | some r =>
      by_cases own : r.key = (m.id,memoryContentHash lib m)
      · have found : w.store.memories.find? r.key.1 = some m := by
          rw [own]
          exact Table.find?_mem member
        have safe := steady r listed m found active (by rw [own])
        simp only [own] at safe
        exact drop_serves (lively m member active) safe
      · exact (lively m member active).mono (held_eraseIdx listed own)
  | backfill status ids =>
    cases step
    exact backfill_lively lively enabled

/-! ### Runs -/

/-- Where no finished task is in the way and no claim is lost, every active memory has a
ready vector, a task for it, or a backfill that would schedule one. -/
theorem vectors_usable {events : List (EmbeddingEvent σ)} (enabled : lib.vectorLifecycle)
    (usable : ∀ m ∈ s.memories, m.status = .active → Embeddings.usable lib { store := s } m)
    (worded : ∀ c, .command c ∈ events → c.worded)
    (run : Run (Guarded (Embeddings.steady lib) (Embeddings.Step lib)) { store := s } events w) :
    ∀ m ∈ w.store.memories, m.status = .active → w.usable lib m := by
  suffices lively : Lively lib w.store w.runs from fun m member active =>
    (usable_iff enabled member active).mpr (lively m member active)
  have initial : Lively lib s [] := fun m member active =>
    (usable_iff (w := { store := s }) enabled member active).mp (usable m member active)
  generalize start : ({ store := s } : Embeddings σ) = u at run
  have initial : Lively lib u.store u.runs := by
    rw [← start]
    exact initial
  clear start usable
  induction run with
  | nil => exact initial
  | @cons u e v events _ head _ ih =>
    refine ih (fun c later => worded c (List.mem_cons_of_mem _ later)) ?_
    exact lively_step enabled initial (fun c here => worded c (here ▸ List.mem_cons_self)) head.1 head.2

/-- The task of the text of `teaMemory`. -/
def teaTask : MemoryId × ContentHash := (1,memoryContentHash (.plain Unit) (teaMemory.row (.plain Unit) 1 0 .active 0))

def teaEmbedded : List (EmbeddingEvent Unit) :=
  [.command (.insert 1 0 teaMemory 1 .active 0),.start teaTask,.complete 0,.finish 0]

/-- Its text is changed, and changed back. -/
def teaRestored : List (EmbeddingEvent Unit) := teaEmbedded ++
  [.command (.update 1 { content := some "coffee" } none none 1),.command (.update 1 { content := some "tea" } none none 2)]

def Embeddings.after (w : Embeddings Unit) (events : List (EmbeddingEvent Unit)) : Embeddings Unit :=
  (events.foldlM (Embeddings.next (.plain Unit)) w).getD w

/-- The text that comes back finds its task finished, and its vector pending. -/
theorem restored_text_unusable :
    ¬∀ (lib : Library Unit) (events : List (EmbeddingEvent Unit)) (w : Embeddings Unit), lib.vectorLifecycle →
      (∀ c, .command c ∈ events → c.worded) → Run (Embeddings.Step lib) { store := .empty Unit } events w →
      ∀ m ∈ w.store.memories, m.status = .active → w.usable lib m := by
  intro usable
  have free : Run (Guarded (fun _ _ => True) (Embeddings.Step (.plain Unit))) { store := .empty Unit } teaRestored
      (Embeddings.after { store := .empty Unit } teaRestored) := .of_guarded (by decide +kernel)
  have run : Run (Embeddings.Step (.plain Unit)) { store := .empty Unit } teaRestored
      (Embeddings.after { store := .empty Unit } teaRestored) := free.imp (fun _ _ _ step => step.2)
  have worded : ∀ c, .command c ∈ teaRestored → c.worded := by
    simp [teaRestored,teaEmbedded,Command.worded]
  have stuck : ¬∀ m ∈ (Embeddings.after { store := .empty Unit } teaRestored).store.memories.rows, m.status = .active →
      (Embeddings.after { store := .empty Unit } teaRestored).usable (.plain Unit) m := by decide +kernel
  exact stuck (usable _ _ _ rfl worded run)

theorem vectors_usable_embedded :
    (Embeddings.after { store := .empty Unit } teaEmbedded).store.memories.rows.map Memory.status = [.active] ∧
      ∀ m ∈ (Embeddings.after { store := .empty Unit } teaEmbedded).store.memories, m.status = .active →
        (Embeddings.after { store := .empty Unit } teaEmbedded).usable (.plain Unit) m :=
  ⟨by decide +kernel,vectors_usable rfl (fun m inside => absurd inside (Table.not_mem_empty m))
    (by simp [teaEmbedded,Command.worded]) (.of_guarded (by decide +kernel))⟩

end Suixinji.Memories
