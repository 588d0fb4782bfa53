import Suixinji.Local.Process
import Mathlib.Data.List.Nodup

/-! No accepted message is lost as long as the process dies between writes. -/
namespace Suixinji.Local
open Suixinji.Transition

def Thread.copies (t : Thread) : List WalRecord := t.batch ++ (t.job.map Job.record).toList

def Same (r q : WalRecord) : Prop := q.id = r.id ∧ q.messageId = r.messageId

/-- What the log says, against what has been done. -/
structure Log (w : World) (records : List WalRecord) : Prop where
  ids : (records.map WalRecord.id).Nodup
  messages : (records.map WalRecord.messageId).Nodup
  noted : ∀ r ∈ records, r.status = .processed → r.messageId ∈ w.notes
  kept : ∀ r ∈ w.accepted, ∃ q ∈ records, Same r q ∧ (q.text = r.text ∨ q.id ∈ w.blocked)
  copies : ∀ t ∈ w.threads, ∀ r ∈ t.copies, ∃ q ∈ records, Same r q

structure Orderly (w : World) (t : Thread) : Prop where
  marks : ∀ job, t.job = some job → job.stage = .mark → job.record.messageId ∈ w.notes
  apart : (t.batch.map WalRecord.messageId).Nodup
  unseen : ∀ r ∈ t.batch, r.messageId ∉ t.seen

/-- The log, as it is or as it will be when the write is over, and as it was before. -/
structure Sound (w : World) : Prop where
  orderly : ∀ t ∈ w.threads, Orderly w t
  log : ∃ records, Log w records ∧ w.file ++ ((w.writer.map Writer.rest).getD []) = render records ∧
    ∀ q, w.writer = some q → ∀ r, q.accepts = some r → r ∈ records
  before : ∀ q, w.writer = some q → ∃ records, Log w records ∧ q.before = render records

variable {w w' : World} {records : List WalRecord}

theorem Log.mono (log : Log w records) (notes : ∀ m ∈ w.notes, m ∈ w'.notes) (blocked : ∀ id ∈ w.blocked, id ∈ w'.blocked)
    (accepted : ∀ r ∈ w'.accepted, r ∈ w.accepted ∨ r ∈ records)
    (copies : ∀ t ∈ w'.threads, ∀ r ∈ t.copies, (∃ u ∈ w.threads, r ∈ u.copies) ∨ r ∈ records ∨ r ∈ w.accepted) :
    Log w' records where
  ids := log.ids
  messages := log.messages
  noted r inside done := notes _ (log.noted r inside done)
  kept r inside := by
    rcases accepted r inside with old | new
    · obtain ⟨q,there,same,text⟩ := log.kept r old
      exact ⟨q,there,same,text.imp_right (blocked q.id)⟩
    · exact ⟨r,new,⟨rfl,rfl⟩,.inl rfl⟩
  copies t inside r copy := by
    rcases copies t inside r copy with ⟨u,old,kept⟩ | here | done
    · exact log.copies u old r kept
    · exact ⟨r,here,rfl,rfl⟩
    · obtain ⟨q,there,same,_⟩ := log.kept r done
      exact ⟨q,there,same⟩

theorem Log.same (log : Log w records) (notes : w'.notes = w.notes) (blocked : w'.blocked = w.blocked)
    (accepted : w'.accepted = w.accepted) (threads : ∀ t ∈ w'.threads, t ∈ w.threads) : Log w' records :=
  log.mono (by simp [notes]) (by simp [blocked]) (fun r inside => .inl (accepted ▸ inside))
    (fun t inside r copy => .inl ⟨t,threads t inside,copy⟩)

theorem Log.unique (log : Log w records) {r q : WalRecord} (hr : r ∈ records) (hq : q ∈ records) (same : r.id = q.id) : r = q :=
  List.inj_on_of_nodup_map log.ids hr hq same

theorem Log.change (log : Log w records) (f : WalRecord → WalRecord) (id : ∀ r, (f r).id = r.id)
    (message : ∀ r, (f r).messageId = r.messageId) (noted : ∀ r ∈ records, (f r).status = .processed → r.messageId ∈ w.notes)
    (text : ∀ r, (f r).text = r.text ∨ r.id ∈ w.blocked) : Log w (records.map f) where
  ids := by rw [List.map_map,Function.comp_def]; simpa only [id] using log.ids
  messages := by rw [List.map_map,Function.comp_def]; simpa only [message] using log.messages
  noted r' inside done := by
    obtain ⟨r,there,rfl⟩ := List.mem_map.mp inside
    rw [message]
    exact noted r there done
  kept r inside := by
    obtain ⟨q,there,same,kept⟩ := log.kept r inside
    refine ⟨f q,List.mem_map_of_mem there,⟨(id q).trans same.1,(message q).trans same.2⟩,?_⟩
    rw [id]
    rcases text q with unchanged | blocked
    · rwa [unchanged]
    · exact .inr blocked
  copies t inside r copy := by
    obtain ⟨q,there,same⟩ := log.copies t inside r copy
    exact ⟨f q,List.mem_map_of_mem there,(id q).trans same.1,(message q).trans same.2⟩

theorem Log.processed (log : Log w records) {r : WalRecord} (known : ∃ q ∈ records, Same r q) (noted : r.messageId ∈ w.notes) :
    Log w (processed r.id records) := by
  refine log.change _ (fun q => ?_) (fun q => ?_) (fun q inside done => ?_) (fun q => .inl ?_)
  · split <;> rfl
  · split <;> rfl
  · split at done
    · rename_i own
      obtain ⟨q',there,same⟩ := known
      obtain rfl := log.unique inside there (own.trans same.1.symm)
      rwa [same.2]
    · exact log.noted q inside done
  · split <;> rfl

theorem Log.blocked (log : Log w records) {id category : String} {preserve : Bool} (listed : id ∈ w.blocked) :
    Log w (sensitiveBlocked id category preserve records) := by
  refine log.change _ (fun q => ?_) (fun q => ?_) (fun q inside done => ?_) (fun q => ?_)
  · split <;> rfl
  · split <;> rfl
  · split at done
    · cases preserve <;> cases done
    · exact log.noted q inside done
  · split
    · rename_i own
      exact .inr (own ▸ listed)
    · exact .inl rfl

theorem Log.append (log : Log w records) {r : WalRecord} (id : ∀ q ∈ records, q.id ≠ r.id)
    (message : ∀ q ∈ records, q.messageId ≠ r.messageId) (fresh : r.status ≠ .processed) : Log w (records ++ [r]) where
  ids := by
    rw [List.map_append,List.nodup_append]
    refine ⟨log.ids,by simp,?_⟩
    rintro _ inside _ last rfl
    obtain ⟨q,there,same⟩ := List.mem_map.mp inside
    exact id q there (same.trans (List.mem_singleton.mp last))
  messages := by
    rw [List.map_append,List.nodup_append]
    refine ⟨log.messages,by simp,?_⟩
    rintro _ inside _ last rfl
    obtain ⟨q,there,same⟩ := List.mem_map.mp inside
    exact message q there (same.trans (List.mem_singleton.mp last))
  noted q inside done := by
    rcases List.mem_append.mp inside with old | new
    · exact log.noted q old done
    · rw [List.mem_singleton.mp new] at done
      exact absurd done fresh
  kept q inside := by
    obtain ⟨p,there,rest⟩ := log.kept q inside
    exact ⟨p,List.mem_append_left _ there,rest⟩
  copies t inside q copy := by
    obtain ⟨p,there,same⟩ := log.copies t inside q copy
    exact ⟨p,List.mem_append_left _ there,same⟩

theorem Sound.load (sound : Sound w) {records : List WalRecord} (loaded : w.load = some records) :
    w.writer = none ∧ Log w records ∧ w.file = render records := by
  unfold World.load at loaded
  split at loaded
  · cases loaded
  · rename_i free
    have none : w.writer = none := by simpa using free
    obtain ⟨there,log,file,_⟩ := sound.log
    rw [none] at file
    simp only [Option.map_none,Option.getD_none,List.append_nil] at file
    rw [file,loadRecords_render] at loaded
    cases loaded
    exact ⟨none,log,file⟩

/-! ### Threads -/

theorem Orderly.notes {t : Thread} (orderly : Orderly w t) (notes : ∀ m ∈ w.notes, m ∈ w'.notes) : Orderly w' t :=
  ⟨fun job here marking => notes _ (orderly.marks job here marking),orderly.apart,orderly.unseen⟩

theorem Sound.thread (sound : Sound w) {i : Nat} {t t' : Thread} (found : w.threads[i]? = some t)
    (threads : w'.threads = w.threads.set i t') (file : w'.file = w.file) (writer : w'.writer = w.writer)
    (accepted : w'.accepted = w.accepted) (blocked : w'.blocked = w.blocked) (notes : ∀ m ∈ w.notes, m ∈ w'.notes)
    (orderly : Orderly w' t') (copies : ∀ r ∈ t'.copies, r ∈ t.copies) : Sound w' := by
  have member : t ∈ w.threads := List.mem_of_getElem? found
  have old : ∀ u ∈ w'.threads, u ∈ w.threads ∨ u = t' := by
    rw [threads]
    exact fun u => List.mem_or_eq_of_mem_set
  have mono : ∀ records, Log w records → Log w' records := fun records log =>
    log.mono notes (by simp [blocked]) (fun r inside => .inl (accepted ▸ inside)) (fun u inside r copy => by
      rcases old u inside with there | rfl
      · exact .inl ⟨u,there,copy⟩
      · exact .inl ⟨t,member,copies r copy⟩)
  refine ⟨fun u inside => ?_,?_,?_⟩
  · rcases old u inside with there | rfl
    · exact (sound.orderly u there).notes notes
    · exact orderly
  · obtain ⟨records,log,text,accepts⟩ := sound.log
    exact ⟨records,mono records log,by rw [file,writer]; exact text,by rw [writer]; exact accepts⟩
  · rw [writer]
    intro q writing
    obtain ⟨records,log,text⟩ := sound.before q writing
    exact ⟨records,mono records log,text⟩

theorem Sound.job (sound : Sound w) {i : Nat} {t : Thread} {job : Job} {job' : Option Job} (found : w.threads[i]? = some t)
    (here : t.job = some job) (record : ∀ j, job' = some j → j.record = job.record)
    (threads : w'.threads = w.threads.set i {t with job := job'}) (file : w'.file = w.file) (writer : w'.writer = w.writer)
    (accepted : w'.accepted = w.accepted) (blocked : w'.blocked = w.blocked) (notes : ∀ m ∈ w.notes, m ∈ w'.notes)
    (marks : ∀ j, job' = some j → j.stage = .mark → job.record.messageId ∈ w'.notes) : Sound w' := by
  have orderly := sound.orderly t (List.mem_of_getElem? found)
  refine sound.thread found threads file writer accepted blocked notes ⟨fun j same marking => ?_,orderly.apart,orderly.unseen⟩ ?_
  · rw [record j same]
    exact marks j same marking
  · intro r copy
    rcases List.mem_append.mp copy with batch | own
    · exact List.mem_append_left _ batch
    · refine List.mem_append_right _ ?_
      cases job' with
      | none => cases own
      | some j =>
        rw [here]
        simpa [record j rfl] using own

theorem copies_take {t : Thread} {r : WalRecord} {batch : List WalRecord} (here : t.batch = r::batch) (seen : List String)
    (stage : Stage) : ∀ q ∈ (Thread.mk batch seen (some {record := r,stage})).copies, q ∈ t.copies := by
  intro q copy
  refine List.mem_append_left _ ?_
  rw [here]
  rcases List.mem_append.mp copy with inside | own
  · exact List.mem_cons_of_mem _ inside
  · simp only [Option.map_some,Option.toList_some,List.mem_singleton] at own
    rw [own]
    exact List.mem_cons_self

/-! ### One step -/

theorem sound_append {assess : String → Option String} {m : Incoming} (sound : Sound w)
    (step : Step assess w (.append m) w') : Sound w' := by
  obtain ⟨records,loaded,step⟩ := Option.bind_eq_some_iff.mp step
  obtain ⟨free,log,file⟩ := sound.load loaded
  split at step
  · cases step
  rename_i fresh
  split at step
  · cases step
    exact sound
  rename_i absent
  cases step
  have pending : m.record.status ≠ .processed := by
    cases m <;> simp [Incoming.record,createPendingRecord,createBlockedSensitiveRecord]
  have grown : Log w (records ++ [m.record]) := by
    refine log.append (fun q inside same => ?_) (fun q inside same => ?_) pending
    · exact fresh (List.any_eq_true.mpr ⟨q,inside,by simpa using same⟩)
    · exact absent (List.any_eq_true.mpr ⟨q,inside,by simpa using same⟩)
  refine ⟨fun t inside => (sound.orderly t inside).notes (fun _ => id),⟨records ++ [m.record],?_,?_,?_⟩,?_⟩
  · exact grown.same rfl rfl rfl (fun _ => id)
  · rw [render_append,file]
    simp [render]
  · rintro q ⟨⟩ r ⟨⟩
    simp
  · rintro q ⟨⟩
    exact ⟨records,log.same rfl rfl rfl (fun _ => id),file⟩

theorem sound_put {assess : String → Option String} {n : Nat} (sound : Sound w) (step : Step assess w (.put n) w') : Sound w' := by
  obtain ⟨q,writing,step⟩ := Option.bind_eq_some_iff.mp step
  cases step
  refine ⟨fun t inside => (sound.orderly t inside).notes (fun _ => id),?_,?_⟩
  · obtain ⟨records,log,text,accepts⟩ := sound.log
    refine ⟨records,log.same rfl rfl rfl (fun _ => id),?_,?_⟩
    · rw [writing] at text
      simpa using text
    · rintro q' ⟨⟩ r here
      exact accepts q writing r here
  · rintro q' ⟨⟩
    obtain ⟨records,log,text⟩ := sound.before q writing
    exact ⟨records,log.same rfl rfl rfl (fun _ => id),text⟩

theorem sound_close {assess : String → Option String} (sound : Sound w) (step : Step assess w .close w') : Sound w' := by
  obtain ⟨q,writing,step⟩ := Option.bind_eq_some_iff.mp step
  split at step
  swap
  · cases step
  rename_i done
  cases step
  have threads : ∀ t ∈ (w.close q).threads, ∃ u ∈ w.threads, t = u ∨ t = {u with job := none} := by
    intro t inside
    obtain ⟨i,bound,rfl⟩ := List.mem_mapIdx.mp inside
    refine ⟨w.threads[i],List.getElem_mem bound,?_⟩
    split
    · exact .inr rfl
    · exact .inl rfl
  have copies : ∀ u : Thread, ∀ r ∈ ({u with job := none} : Thread).copies, r ∈ u.copies := fun u r copy => by
    simp only [Thread.copies,Option.map_none,Option.toList_none,List.append_nil] at copy
    exact List.mem_append_left _ copy
  obtain ⟨records,log,text,accepts⟩ := sound.log
  refine ⟨fun t inside => ?_,⟨records,?_,?_,nofun⟩,nofun⟩
  · obtain ⟨u,there,rfl | rfl⟩ := threads t inside
    · exact (sound.orderly _ there).notes (fun _ => id)
    · have orderly := sound.orderly u there
      exact ⟨fun _ busy => absurd busy (Option.some_ne_none _).symm,orderly.apart,orderly.unseen⟩
  · refine log.mono (fun _ => id) (fun _ => id) (fun r inside => ?_) (fun t inside r copy => ?_)
    · refine (List.mem_append.mp inside).imp_right (fun new => accepts q writing r ?_)
      simpa using new
    · obtain ⟨u,there,rfl | rfl⟩ := threads t inside
      · exact .inl ⟨_,there,copy⟩
      · exact .inl ⟨u,there,copies u r copy⟩
  · rw [writing] at text
    simpa [World.close,done] using text

theorem sound_pending {assess : String → Option String} (sound : Sound w) (step : Step assess w .pending w') : Sound w' := by
  obtain ⟨records,loaded,step⟩ := Option.bind_eq_some_iff.mp step
  obtain ⟨free,log,file⟩ := sound.load loaded
  cases step
  refine ⟨fun t inside => ?_,⟨records,?_,?_,?_⟩,?_⟩
  · rcases List.mem_append.mp inside with old | new
    · exact (sound.orderly t old).notes (fun _ => id)
    · rw [List.mem_singleton.mp new]
      exact ⟨fun _ busy => absurd busy (Option.some_ne_none _).symm,log.messages.sublist (List.filter_sublist.map _),fun _ _ => List.not_mem_nil⟩
  · refine log.mono (fun _ => id) (fun _ => id) (fun r inside => .inl inside) (fun t inside r copy => ?_)
    rcases List.mem_append.mp inside with old | new
    · exact .inl ⟨t,old,copy⟩
    · rw [List.mem_singleton.mp new] at copy
      simp only [Thread.copies,Option.map_none,Option.toList_none,List.append_nil] at copy
      exact .inr (.inl (List.mem_filter.mp copy).1)
  · simpa [free] using file
  · simp [free]
  · simp [free]

theorem sound_process {assess : String → Option String} {r : WalRecord} {deferred : Bool} (sound : Sound w)
    (step : Step assess w (.process r deferred) w') : Sound w' := by
  change (if r ∈ w.accepted then _ else none) = some w' at step
  split at step
  swap
  · cases step
  rename_i accepted
  cases step
  have mono : ∀ records, Log w records → Log {w with
      threads := w.threads ++ [{job := some {record := r,deferWalCompletion := deferred}}]} records := fun records log => by
    refine log.mono (fun _ => id) (fun _ => id) (fun r inside => .inl inside) (fun t inside q copy => ?_)
    rcases List.mem_append.mp inside with old | new
    · exact .inl ⟨t,old,copy⟩
    · rw [List.mem_singleton.mp new] at copy
      simp only [Thread.copies,Option.map_some,Option.toList_some,List.nil_append,List.mem_singleton] at copy
      exact .inr (.inr (copy ▸ accepted))
  refine ⟨fun t inside => ?_,?_,fun q writing => ?_⟩
  · rcases List.mem_append.mp inside with old | new
    · exact (sound.orderly t old).notes (fun _ => id)
    · rw [List.mem_singleton.mp new]
      refine ⟨?_,by simp,by simp⟩
      rintro job ⟨⟩ marking
      cases marking
  · obtain ⟨records,log,rest⟩ := sound.log
    exact ⟨records,mono records log,rest⟩
  · obtain ⟨records,log,text⟩ := sound.before q writing
    exact ⟨records,mono records log,text⟩

theorem sound_take {assess : String → Option String} {i : Nat} (sound : Sound w) (step : Step assess w (.take i) w') : Sound w' := by
  obtain ⟨t,found,step⟩ := Option.bind_eq_some_iff.mp step
  have orderly := sound.orderly t (List.mem_of_getElem? found)
  split at step
  swap
  · cases step
  rename_i r batch idle here
  have apart := orderly.apart
  rw [here,List.map_cons,List.nodup_cons] at apart
  -- the messages of a batch are distinct, so the branch for a repeated one is not taken
  rw [if_neg (orderly.unseen r (by rw [here]; exact List.mem_cons_self))] at step
  cases step
  refine sound.thread found rfl rfl rfl rfl rfl (fun _ => id) ⟨?_,apart.2,?_⟩ (copies_take here _ _)
  · rintro job ⟨⟩ marking
    cases marking
  · intro q inside seen
    have old : q.messageId ∉ t.seen := orderly.unseen q (by rw [here]; exact List.mem_cons_of_mem _ inside)
    split at seen
    · exact old seen
    · rcases List.mem_append.mp seen with before | own
      · exact old before
      · exact apart.1 (List.mem_map.mpr ⟨q,inside,List.mem_singleton.mp own⟩)

theorem sound_assess {assess : String → Option String} {i : Nat} (sound : Sound w) (step : Step assess w (.assess i) w') : Sound w' := by
  obtain ⟨t,found,step⟩ := Option.bind_eq_some_iff.mp step
  obtain ⟨job,here,step⟩ := Option.bind_eq_some_iff.mp step
  split at step
  swap
  · cases step
  cases step
  refine sound.job found here ?_ rfl rfl rfl rfl rfl (fun _ => id) ?_
  · rintro j ⟨⟩
    rfl
  · rintro j ⟨⟩ marking
    cases verdict : assess job.record.text <;> simp [verdict] at marking

theorem sound_look {assess : String → Option String} {i : Nat} (sound : Sound w) (step : Step assess w (.look i) w') : Sound w' := by
  obtain ⟨t,found,step⟩ := Option.bind_eq_some_iff.mp step
  obtain ⟨job,here,step⟩ := Option.bind_eq_some_iff.mp step
  split at step
  swap
  · cases step
  split at step
  · rename_i noted
    cases step
    refine sound.job found here ?_ rfl rfl rfl rfl rfl (fun _ => id) (fun _ _ _ => noted)
    intro j same
    split at same <;> cases same
    rfl
  · cases step
    refine sound.job found here ?_ rfl rfl rfl rfl rfl (fun _ => id) ?_
    · rintro j ⟨⟩
      rfl
    · rintro j ⟨⟩ marking
      cases marking

theorem sound_save {assess : String → Option String} {i : Nat} (sound : Sound w) (step : Step assess w (.save i) w') : Sound w' := by
  obtain ⟨t,found,step⟩ := Option.bind_eq_some_iff.mp step
  obtain ⟨job,here,step⟩ := Option.bind_eq_some_iff.mp step
  split at step
  swap
  · cases step
  cases step
  refine sound.job found here ?_ rfl rfl rfl rfl rfl ?_ ?_
  · intro j same
    split at same <;> cases same
    rfl
  · intro m inside
    simp only
    split
    · exact inside
    · exact List.mem_append_left _ inside
  · intro j _ _
    simp only
    split
    · assumption
    · simp

theorem Sound.rewrite {i : Nat} (sound : Sound w) (file : w.file = render records) (log : Log w records)
    {after : List WalRecord} (frame : w'.threads = w.threads ∧ w'.notes = w.notes ∧ w'.accepted = w.accepted)
    (blocked : ∀ id ∈ w.blocked, id ∈ w'.blocked) (opened : w'.file = [] ∧ w'.writer = some ⟨w.file,render after,none,some i⟩)
    (written : Log w' after) : Sound w' := by
  obtain ⟨threads,notes,accepted⟩ := frame
  obtain ⟨empty,writer⟩ := opened
  refine ⟨fun t inside => (sound.orderly t (threads ▸ inside)).notes (by simp [notes]),⟨after,written,?_,?_⟩,?_⟩
  · rw [empty,writer]
    simp
  · rw [writer]
    rintro q ⟨⟩ r ⟨⟩
  · rw [writer]
    rintro q ⟨⟩
    exact ⟨records,log.mono (by simp [notes]) blocked (fun r inside => .inl (accepted ▸ inside))
      (fun t inside r copy => .inl ⟨t,threads ▸ inside,copy⟩),file⟩

theorem sound_mark {assess : String → Option String} {i : Nat} (sound : Sound w) (step : Step assess w (.mark i) w') : Sound w' := by
  obtain ⟨t,found,step⟩ := Option.bind_eq_some_iff.mp step
  obtain ⟨job,here,step⟩ := Option.bind_eq_some_iff.mp step
  obtain ⟨records,loaded,step⟩ := Option.bind_eq_some_iff.mp step
  obtain ⟨free,log,file⟩ := sound.load loaded
  split at step
  swap
  · cases step
  rename_i marking
  cases step
  have member := List.mem_of_getElem? found
  have known := log.copies t member job.record (by simp [Thread.copies,here])
  have written := log.processed known ((sound.orderly t member).marks job here marking)
  exact sound.rewrite file log ⟨rfl,rfl,rfl⟩ (fun _ => id) ⟨rfl,rfl⟩ (written.same rfl rfl rfl (fun _ => id))

theorem sound_block {assess : String → Option String} {i : Nat} (sound : Sound w) (step : Step assess w (.block i) w') : Sound w' := by
  obtain ⟨t,found,step⟩ := Option.bind_eq_some_iff.mp step
  obtain ⟨job,here,step⟩ := Option.bind_eq_some_iff.mp step
  obtain ⟨records,loaded,step⟩ := Option.bind_eq_some_iff.mp step
  obtain ⟨free,log,file⟩ := sound.load loaded
  split at step
  swap
  · cases step
  rename_i category blocking
  cases step
  have listed : Log {w.rewrite i (sensitiveBlocked job.record.id category job.deferWalCompletion records) with
      blocked := w.blocked ++ [job.record.id]} records :=
    log.mono (fun _ => id) (fun _ => List.mem_append_left _) (fun r inside => .inl inside) (fun t inside r copy => .inl ⟨t,inside,copy⟩)
  exact sound.rewrite file log ⟨rfl,rfl,rfl⟩ (fun _ => List.mem_append_left _) ⟨rfl,rfl⟩
    (listed.blocked (List.mem_append_right _ (List.mem_singleton.mpr rfl)))

theorem sound_fail {assess : String → Option String} {i : Nat} (sound : Sound w) (step : Step assess w (.fail i) w') : Sound w' := by
  obtain ⟨t,found,step⟩ := Option.bind_eq_some_iff.mp step
  split at step
  · cases step
  cases step
  have orderly := sound.orderly t (List.mem_of_getElem? found)
  refine sound.thread found rfl rfl rfl rfl rfl (fun _ => id) ⟨fun _ busy => absurd busy (Option.some_ne_none _).symm,orderly.apart,orderly.unseen⟩ (fun r copy => ?_)
  simp only [Thread.copies,Option.map_none,Option.toList_none,List.append_nil] at copy
  exact List.mem_append_left _ copy

theorem sound_crash {assess : String → Option String} (sound : Sound w) (calm : Calm w .crash)
    (step : Step assess w .crash w') : Sound w' := by
  cases step
  have mono : ∀ records, Log w records → Log {w with writer := none,threads := []} records := fun records log =>
    log.same rfl rfl rfl (fun t inside => absurd inside List.not_mem_nil)
  refine ⟨fun t inside => absurd inside List.not_mem_nil,?_,fun _ writes => absurd writes (Option.some_ne_none _).symm⟩
  cases writing : w.writer with
  | none =>
    obtain ⟨records,log,text,_⟩ := sound.log
    refine ⟨records,mono records log,?_,fun _ writes => absurd writes (Option.some_ne_none _).symm⟩
    rw [writing] at text
    exact text
  | some q =>
    rcases calm q writing with done | untouched
    · obtain ⟨records,log,text,_⟩ := sound.log
      refine ⟨records,mono records log,?_,fun _ writes => absurd writes (Option.some_ne_none _).symm⟩
      rw [writing] at text
      simpa [done] using text
    · obtain ⟨records,log,text⟩ := sound.before q writing
      refine ⟨records,mono records log,?_,fun _ writes => absurd writes (Option.some_ne_none _).symm⟩
      rw [← text,← untouched]
      simp

theorem sound_step {assess : String → Option String} {e : Event} (sound : Sound w) (calm : Calm w e)
    (step : Step assess w e w') : Sound w' := by
  cases e with
  | append m => exact sound_append sound step
  | put n => exact sound_put sound step
  | close => exact sound_close sound step
  | pending => exact sound_pending sound step
  | process r deferred => exact sound_process sound step
  | take i => exact sound_take sound step
  | assess i => exact sound_assess sound step
  | look i => exact sound_look sound step
  | save i => exact sound_save sound step
  | mark i => exact sound_mark sound step
  | block i => exact sound_block sound step
  | fail i => exact sound_fail sound step
  | crash => exact sound_crash sound calm step

theorem Sound.durable (sound : Sound w) : Durable w := by
  intro free
  obtain ⟨records,log,text,_⟩ := sound.log
  rw [free] at text
  simp only [Option.map_none,Option.getD_none,List.append_nil] at text
  refine ⟨records,by rw [text,loadRecords_render],fun r inside => ?_,log.noted⟩
  obtain ⟨q,there,same,kept⟩ := log.kept r inside
  exact ⟨q,there,same.2,kept⟩

/-- In every run in which the process dies only between writes, the log loads, keeps
each accepted message and calls nothing processed that has no note. -/
theorem durable_run (assess : String → Option String) (events : List Event) (w : World)
    (run : Run (Guarded Calm (Step assess)) {} events w) : Durable w := by
  have start : Sound {} := by
    have quiet (q : Writer) : none ≠ some q := (Option.some_ne_none q).symm
    refine ⟨fun t inside => absurd inside List.not_mem_nil,⟨[],⟨by simp,by simp,fun r inside => absurd inside List.not_mem_nil,
      fun r inside => absurd inside List.not_mem_nil,fun t inside => absurd inside List.not_mem_nil⟩,rfl,
      fun q writes => absurd writes (quiet q)⟩,fun q writes => absurd writes (quiet q)⟩
  exact (run.invariant Sound (fun _ _ _ sound step => sound_step sound step.1 step.2) start).durable

/-! ### The process dies in a write -/

variable (m : Incoming)

/-- The first character of the first line is written. -/
def torn : List Event := [.append m,.put 1,.crash]

/-- The message is accepted, its note saved, and the file opened to mark the record. -/
def archived : List Event :=
  [.append m,.put (line m.record).length,.close,.process m.record false,.assess 0,.look 0,.save 0,.mark 0]

/-- The message is accepted, with a thread at work on it. -/
def working (notes : List String) (stage : Stage) : World where
  file := line m.record
  notes := notes
  threads := [{job := some {record := m.record,stage}}]
  accepted := [m.record]

/-- What the run leads to. -/
def marking : World := (working m [m.record.messageId] .mark).rewrite 0 (processed m.record.id [m.record])

theorem archived_run : Run (Guarded Calm (Step (fun _ => none))) {} (archived m) (marking m) := by
  have put : Step (fun _ => none) {writer := some {before := [],rest := line m.record,accepts := some m.record}}
      (.put (line m.record).length)
      {file := line m.record,writer := some {before := [],rest := [],accepts := some m.record}} := by
    simp [Step,next]
  have process : Step (fun _ => none) {file := line m.record,accepted := [m.record]} (.process m.record false)
      (working m [] .assess) := by
    simp [Step,next,working]
  have mark : Step (fun _ => none) (working m [m.record.messageId] .mark) (.mark 0) (marking m) := by
    have whole : line m.record = render [m.record] := by simp [render]
    have loaded : (working m [m.record.messageId] .mark).load = some [m.record] := by
      simp only [working,World.load,whole,loadRecords_render]
      rfl
    have thread : (working m [m.record.messageId] .mark).threads[0]? = some {job := some {record := m.record,stage := .mark}} := rfl
    simp only [Step,next,Option.bind_eq_bind,thread,Option.bind_some,loaded,if_true]
    rfl
  exact .cons ⟨trivial,rfl⟩ (.cons ⟨trivial,put⟩ (.cons ⟨trivial,rfl⟩ (.cons ⟨trivial,process⟩ (.cons ⟨trivial,rfl⟩
    (.cons ⟨trivial,rfl⟩ (.cons ⟨trivial,rfl⟩ (.single ⟨trivial,mark⟩)))))))

def milk : Incoming := .pending {uuid := "u1",messageId := "m1",spaceId := "s",now := "2026-07-01T08:00:00+08:00"} "买牛奶"

theorem lost :
    (∃ w, Run (Step (fun _ => none)) {} (torn milk) w ∧ w.writer = none ∧ loadRecords w.file = none) ∧
      ∃ w, Run (Step (fun _ => none)) {} (archived milk ++ [.crash]) w ∧ milk.record ∈ w.accepted ∧ w.blocked = [] ∧
        loadRecords w.file = some [] ∧ ¬Durable w := by
  refine ⟨⟨{file := ['{']},.cons rfl (.cons rfl (.single rfl)),rfl,by rfl⟩,
    {marking milk with writer := none,threads := []},?_,List.mem_singleton.mpr rfl,rfl,rfl,?_⟩
  · exact ((archived_run milk).imp (fun _ _ _ step => step.2)).append (.single rfl)
  · intro durable
    obtain ⟨records,loaded,kept,_⟩ := durable rfl
    cases loaded
    obtain ⟨q,inside,_⟩ := kept milk.record (List.mem_singleton.mpr rfl)
    cases inside

/-- The file has been written over before the process dies. -/
theorem durable_archived :
    ∃ w, Run (Step (fun _ => none)) {} (archived milk ++ [.put (render (processed milk.record.id [milk.record])).length,.crash]) w ∧
      milk.record ∈ w.accepted ∧ Durable w := by
  let written : World := {marking milk with
    file := render (processed milk.record.id [milk.record])
    writer := some {before := line milk.record,rest := [],thread := some 0}}
  have put : Guarded Calm (Step (fun _ => none)) (marking milk) (.put (render (processed milk.record.id [milk.record])).length) written := by
    refine ⟨trivial,?_⟩
    simp [Step,next,marking,World.rewrite,working,written]
  have whole : Calm written .crash := by
    rintro q ⟨⟩
    exact .inl rfl
  have run := (archived_run milk).append (.cons put (.single ⟨whole,rfl⟩))
  exact ⟨_,run.imp (fun _ _ _ step => step.2),List.mem_singleton.mpr rfl,durable_run (fun _ => none) _ _ run⟩

end Suixinji.Local
