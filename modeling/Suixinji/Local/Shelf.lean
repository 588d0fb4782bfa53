import Suixinji.Local.Notes
import Suixinji.Local.Process
import Mathlib.Data.List.Nodup
import Mathlib.Data.List.Perm.Basic

/-! One note for each message: the index and the Markdown files of a space, with the
threads that save notes. Each write of a file is one step, and the process may die
between two of them. -/
namespace Suixinji.Local.Shelf
open Suixinji.Transition Suixinji.Local

inductive Stage where
  | look
  | save
  | done
  deriving DecidableEq

/-- A `process_record` on its way to `save_note`. -/
structure Saver where
  record : WalRecord
  stage : Stage := .look
  deriving DecidableEq

/-- The records that were appended to the log, the calls at work on them, the two
kinds of files, the call that has written its block and not yet its entry, and the
messages whose `save_note` has returned. -/
structure World where
  log : List WalRecord := []
  savers : List Saver := []
  markdown : List Block := []
  index : Index := []
  saving : Option Nat := none
  saved : List String := []
  deriving DecidableEq

inductive Event where
  | append (m : Incoming)
  | process (r : WalRecord)
  | look (i : Nat)
  | save (i : Nat)
  | index
  | update (noteId : String) (updates : List NoteField)
  | crash

def World.stage (w : World) (i : Nat) (s : Saver) (stage : Stage) : World := {w with savers := w.savers.set i {s with stage}}

/-- The lock of the space is held from the block to the entry. -/
def next (classify : String → Classification) (w : World) : Event → Option World
  | .append m =>
    -- `uuid4` does not repeat
    if w.saving.isSome ∨ w.log.any (fun r => r.id = m.record.id) then none
    else if messageExists w.log m.record.messageId then some w
    else some {w with log := w.log ++ [m.record]}
  | .process r => if r ∈ w.log then some {w with savers := w.savers ++ [{record := r}]} else none
  | .look i => do
    let s ← w.savers[i]?
    if s.stage = .look ∧ w.saving.isNone then
      some (w.stage i s (if noteExists w.index s.record.messageId then .done else .save))
    else none
  | .save i => do
    let s ← w.savers[i]?
    if s.stage = .save ∧ w.saving.isNone then
      if noteExists w.index s.record.messageId then some {w.stage i s .done with saved := w.saved ++ [s.record.messageId]}
      else some {w with markdown := w.markdown ++ [block (noteOf (classify s.record.text) s.record)],saving := some i}
    else none
  | .index => do
    let i ← w.saving
    let s ← w.savers[i]?
    some {w.stage i s .done with
      index := w.index ++ [noteOf (classify s.record.text) s.record]
      saving := none
      saved := w.saved ++ [s.record.messageId]}
  | .update noteId updates =>
    if w.saving.isSome then none else some {w with index := (updateNoteMetadata w.index noteId updates).getD w.index}
  | .crash => some {w with savers := [],saving := none}

def Step (classify : String → Classification) (w : World) (e : Event) (w' : World) : Prop := next classify w e = some w'

/-- One entry for each note saved, one block for each entry, and no others. -/
structure Shelved (w : World) : Prop where
  saved : ∀ m ∈ w.saved, (w.index.filter (fun n => n.messageId = m)).length = 1
  ids : (w.index.map NoteMetadata.id).Nodup
  messages : (w.index.map NoteMetadata.messageId).Nodup
  blocks : w.saving = none → ∀ n ∈ w.index, (w.markdown.filter (fun b => b.id = n.id)).length = 1
  entries : w.saving = none → ∀ b ∈ w.markdown, ∃ n ∈ w.index, n.id = b.id ∧ n.messageId = b.messageId

/-- The process does not die between the block and the entry of a note, and updates
leave the ids alone. -/
def Calm (w : World) : Event → Prop
  | .crash => w.saving = none
  | .update _ updates => Keeps updates
  | _ => True

/-- What tells a note, and its block, from others. -/
def NoteMetadata.key (n : NoteMetadata) : String × String := (n.id,n.messageId)

def Block.key (b : Block) : String × String := (b.id,b.messageId)

def WalRecord.key (r : WalRecord) : String × String := (r.id,r.messageId)

/-- The note whose block is written and whose entry is not. -/
def World.pending (w : World) : Option (String × String) := do
  let i ← w.saving
  let s ← w.savers[i]?
  some (WalRecord.key s.record)

structure Sound (w : World) : Prop where
  ids : (w.log.map WalRecord.id).Nodup
  messages : (w.log.map WalRecord.messageId).Nodup
  known : ∀ s ∈ w.savers, s.record ∈ w.log
  logged : ∀ n ∈ w.index, ∃ r ∈ w.log, WalRecord.key r = NoteMetadata.key n
  distinct : (w.index.map NoteMetadata.messageId).Nodup
  blocks : (w.markdown.map Block.key).Perm (w.index.map NoteMetadata.key ++ w.pending.toList)
  saving : ∀ i, w.saving = some i → ∃ s, w.savers[i]? = some s ∧ noteExists w.index s.record.messageId = false
  saved : ∀ m ∈ w.saved, noteExists w.index m

variable {classify : String → Classification} {w w' : World}

theorem noteExists_iff {index : Index} {m : String} : noteExists index m ↔ m ∈ index.map NoteMetadata.messageId := by
  simp [noteExists]

theorem Sound.unique (sound : Sound w) {r q : WalRecord} (hr : r ∈ w.log) (hq : q ∈ w.log) :
    (r.id = q.id → r = q) ∧ (r.messageId = q.messageId → r = q) :=
  ⟨List.inj_on_of_nodup_map sound.ids hr hq,List.inj_on_of_nodup_map sound.messages hr hq⟩

theorem Sound.entry_ids (sound : Sound w) : (w.index.map NoteMetadata.id).Nodup := by
  refine List.Nodup.map_on ?_ (List.Nodup.of_map _ sound.distinct)
  intro n hn m hm same
  obtain ⟨r,hr,key⟩ := sound.logged n hn
  obtain ⟨q,hq,key'⟩ := sound.logged m hm
  simp only [WalRecord.key,NoteMetadata.key,Prod.mk.injEq] at key key'
  obtain rfl := (sound.unique hr hq).1 (by rw [key.1,key'.1,same])
  exact List.inj_on_of_nodup_map sound.distinct hn hm (key.2.symm.trans key'.2)

theorem one_of_nodup {α κ : Type} [DecidableEq κ] {xs : List α} {f : α → κ} (distinct : (xs.map f).Nodup) {x : α} (inside : x ∈ xs) :
    (xs.filter (fun y => f y = f x)).length = 1 := by
  rw [← List.countP_eq_length_filter]
  have counted := List.count_eq_one_of_mem distinct (List.mem_map_of_mem inside)
  rw [List.count,List.countP_map] at counted
  rw [← counted]
  refine List.countP_congr (fun y _ => ?_)
  simp

theorem Sound.shelved (sound : Sound w) : Shelved w where
  saved m inside := by
    obtain ⟨n,there,rfl⟩ := List.mem_map.mp (noteExists_iff.mp (sound.saved m inside))
    exact one_of_nodup sound.distinct there
  ids := sound.entry_ids
  messages := sound.distinct
  blocks free n inside := by
    have blocks := sound.blocks
    rw [World.pending,free] at blocks
    simp only [Option.bind_eq_bind,Option.bind_none,Option.toList_none,List.append_nil] at blocks
    have ids : (w.markdown.map Block.id).Perm (w.index.map NoteMetadata.id) := by
      simpa only [List.map_map,Function.comp_def,Block.key,NoteMetadata.key] using blocks.map Prod.fst
    have counted := List.count_eq_one_of_mem sound.entry_ids (List.mem_map_of_mem inside)
    rw [← ids.count_eq,List.count,List.countP_map] at counted
    rw [← List.countP_eq_length_filter,← counted]
    exact List.countP_congr (fun b _ => by simp)
  entries free b inside := by
    have blocks := sound.blocks
    rw [World.pending,free] at blocks
    simp only [Option.bind_eq_bind,Option.bind_none,Option.toList_none,List.append_nil] at blocks
    obtain ⟨n,there,same⟩ := List.mem_map.mp (blocks.subset (List.mem_map_of_mem inside))
    exact ⟨n,there,congrArg Prod.fst same,congrArg Prod.snd same⟩

theorem mem_setStage {i : Nat} {s : Saver} {stage : Stage} (found : w.savers[i]? = some s) {t : Saver}
    (inside : t ∈ (w.stage i s stage).savers) : ∃ u ∈ w.savers, t.record = u.record := by
  rcases List.mem_or_eq_of_mem_set inside with old | rfl
  · exact ⟨t,old,rfl⟩
  · exact ⟨s,List.mem_of_getElem? found,rfl⟩

/-- Nobody is between the two writes, before and after. -/
theorem Sound.free (sound : Sound w) (free : w.saving = none) (free' : w'.saving = none) (log : w'.log = w.log)
    (savers : ∀ t ∈ w'.savers, ∃ u ∈ w.savers, t.record = u.record) (markdown : w'.markdown = w.markdown)
    (index : w'.index.map NoteMetadata.key = w.index.map NoteMetadata.key)
    (saved : ∀ m ∈ w'.saved, m ∈ w.saved ∨ noteExists w.index m) : Sound w' := by
  have messages : w'.index.map NoteMetadata.messageId = w.index.map NoteMetadata.messageId := by
    simpa only [List.map_map,Function.comp_def,NoteMetadata.key] using congrArg (List.map Prod.snd) index
  refine ⟨by rw [log]; exact sound.ids,by rw [log]; exact sound.messages,fun t inside => ?_,fun n inside => ?_,
    by rw [messages]; exact sound.distinct,?_,by rw [free']; nofun,fun m inside => ?_⟩
  · obtain ⟨u,old,same⟩ := savers t inside
    rw [same,log]
    exact sound.known u old
  · have key : NoteMetadata.key n ∈ w.index.map NoteMetadata.key := index ▸ List.mem_map_of_mem inside
    obtain ⟨m,old,same⟩ := List.mem_map.mp key
    rw [log,← same]
    exact sound.logged m old
  · have blocks := sound.blocks
    rw [World.pending,free] at blocks
    rw [World.pending,free',markdown,index]
    exact blocks
  · rw [noteExists_iff,messages,← noteExists_iff]
    exact (saved m inside).elim (sound.saved m) id

theorem sound_append {m : Incoming} (sound : Sound w) (step : Step classify w (.append m) w') : Sound w' := by
  change (if _ then _ else _) = some w' at step
  split at step
  · cases step
  rename_i fresh
  rw [not_or] at fresh
  change (if _ then _ else _) = some w' at step
  split at step
  · cases step
    exact sound
  rename_i absent
  cases step
  refine ⟨?_,?_,fun s inside => List.mem_append_left _ (sound.known s inside),fun n inside => ?_,sound.distinct,sound.blocks,
    sound.saving,sound.saved⟩
  · rw [List.map_append,List.nodup_append]
    refine ⟨sound.ids,by simp,?_⟩
    rintro _ inside _ last rfl
    obtain ⟨r,there,same⟩ := List.mem_map.mp inside
    refine fresh.2 (List.any_eq_true.mpr ⟨r,there,?_⟩)
    simpa using same.trans (List.mem_singleton.mp last)
  · rw [List.map_append,List.nodup_append]
    refine ⟨sound.messages,by simp,?_⟩
    rintro _ inside _ last rfl
    obtain ⟨r,there,same⟩ := List.mem_map.mp inside
    refine absent (List.any_eq_true.mpr ⟨r,there,?_⟩)
    simpa using same.trans (List.mem_singleton.mp last)
  · obtain ⟨r,there,same⟩ := sound.logged n inside
    exact ⟨r,List.mem_append_left _ there,same⟩

theorem sound_process {r : WalRecord} (sound : Sound w) (step : Step classify w (.process r) w') : Sound w' := by
  change (if _ then _ else _) = some w' at step
  split at step
  swap
  · cases step
  rename_i logged
  cases step
  refine ⟨sound.ids,sound.messages,fun s inside => ?_,sound.logged,sound.distinct,?_,fun i saving => ?_,sound.saved⟩
  · rcases List.mem_append.mp inside with old | new
    · exact sound.known s old
    · rw [List.mem_singleton.mp new]
      exact logged
  · have same : World.pending {w with savers := w.savers ++ [{record := r}]} = w.pending := by
      cases saving : w.saving with
      | none => simp [World.pending,saving]
      | some i =>
        obtain ⟨s,found,_⟩ := sound.saving i saving
        have bound := (List.getElem?_eq_some_iff.mp found).1
        simp [World.pending,saving,List.getElem?_append_left bound]
    rw [same]
    exact sound.blocks
  · obtain ⟨s,found,absent⟩ := sound.saving i saving
    exact ⟨s,by rw [List.getElem?_append_left (List.getElem?_eq_some_iff.mp found).1]; exact found,absent⟩

theorem sound_look {i : Nat} (sound : Sound w) (step : Step classify w (.look i) w') : Sound w' := by
  obtain ⟨s,found,step⟩ := Option.bind_eq_some_iff.mp step
  split at step
  swap
  · cases step
  rename_i looking
  cases step
  have free : w.saving = none := by simpa using looking.2
  exact sound.free free free rfl (fun t inside => mem_setStage found inside) rfl rfl (fun m inside => .inl inside)

theorem sound_save {i : Nat} (sound : Sound w) (step : Step classify w (.save i) w') : Sound w' := by
  obtain ⟨s,found,step⟩ := Option.bind_eq_some_iff.mp step
  split at step
  swap
  · cases step
  rename_i saving
  have free : w.saving = none := by simpa using saving.2
  split at step
  · rename_i there
    cases step
    refine sound.free free free rfl (fun t inside => mem_setStage found inside) rfl rfl (fun m inside => ?_)
    rcases List.mem_append.mp inside with old | new
    · exact .inl old
    · rw [List.mem_singleton.mp new]
      exact .inr there
  · rename_i absent
    cases step
    refine ⟨sound.ids,sound.messages,sound.known,sound.logged,sound.distinct,?_,?_,sound.saved⟩
    · have blocks := sound.blocks
      rw [World.pending,free] at blocks
      simp only [Option.bind_eq_bind,Option.bind_none,Option.toList_none,List.append_nil] at blocks
      simp only [World.pending,Option.bind_eq_bind,Option.bind_some,found,List.map_append,List.map_cons,List.map_nil,Option.toList_some]
      exact blocks.append_right _
    · rintro j ⟨⟩
      exact ⟨s,found,by simpa using absent⟩

theorem sound_index (sound : Sound w) (step : Step classify w .index w') : Sound w' := by
  obtain ⟨i,saving,step⟩ := Option.bind_eq_some_iff.mp step
  obtain ⟨s,found,step⟩ := Option.bind_eq_some_iff.mp step
  cases step
  obtain ⟨s',found',absent⟩ := sound.saving i saving
  rw [found] at found'
  cases found'
  have member := List.mem_of_getElem? found
  refine ⟨sound.ids,sound.messages,fun t inside => ?_,fun n inside => ?_,?_,?_,nofun,fun m inside => ?_⟩
  · obtain ⟨u,old,same⟩ := mem_setStage found inside
    rw [same]
    exact sound.known u old
  · rcases List.mem_append.mp inside with old | new
    · exact sound.logged n old
    · rw [List.mem_singleton.mp new]
      exact ⟨s.record,sound.known s member,rfl⟩
  · rw [List.map_append,List.nodup_append]
    refine ⟨sound.distinct,by simp,?_⟩
    rintro _ inside _ last rfl
    rw [← noteExists_iff] at inside
    rw [List.mem_singleton.mp last] at inside
    rw [show (noteOf (classify s.record.text) s.record).messageId = s.record.messageId from rfl,absent] at inside
    cases inside
  · have blocks := sound.blocks
    simp only [World.pending,Option.bind_eq_bind,saving,Option.bind_some,found,Option.toList_some] at blocks
    simp only [World.pending,World.stage,Option.bind_eq_bind,Option.bind_none,Option.toList_none,List.append_nil,List.map_append]
    exact blocks
  · have grown : ∀ m, noteExists w.index m → noteExists (w.index ++ [noteOf (classify s.record.text) s.record]) m := by
      intro m there
      rw [noteExists_iff] at there ⊢
      rw [List.map_append]
      exact List.mem_append_left _ there
    rcases List.mem_append.mp inside with old | new
    · exact grown m (sound.saved m old)
    · rw [List.mem_singleton.mp new,noteExists_iff,List.map_append]
      exact List.mem_append_right _ (List.mem_singleton.mpr rfl)

theorem sound_update {noteId : String} {updates : List NoteField} (sound : Sound w) (keeps : Keeps updates)
    (step : Step classify w (.update noteId updates) w') : Sound w' := by
  change (if _ then _ else _) = some w' at step
  split at step
  · cases step
  rename_i idle
  cases step
  have free : w.saving = none := by simpa using idle
  refine sound.free free free rfl (fun t inside => ⟨t,inside,rfl⟩) rfl ?_ (fun m inside => .inl inside)
  cases ok : updateNoteMetadata w.index noteId updates with
  | none => rfl
  | some index => exact updateNoteMetadata_keys keeps ok

theorem sound_step {e : Event} (sound : Sound w) (calm : Calm w e) (step : Step classify w e w') : Sound w' := by
  cases e with
  | append m => exact sound_append sound step
  | process r => exact sound_process sound step
  | look i => exact sound_look sound step
  | save i => exact sound_save sound step
  | index => exact sound_index sound step
  | update noteId updates => exact sound_update sound calm step
  | crash =>
    cases step
    exact sound.free calm rfl rfl (fun t inside => absurd inside List.not_mem_nil) rfl rfl (fun m inside => .inl inside)

/-- A block without its entry stays when the process dies. -/
theorem Sound.broken (sound : Sound w) (saving : w.saving ≠ none) (step : Step classify w .crash w') : ¬Shelved w' := by
  cases step
  intro shelved
  obtain ⟨i,held⟩ := Option.ne_none_iff_exists'.mp saving
  obtain ⟨s,found,absent⟩ := sound.saving i held
  have blocks := sound.blocks
  simp only [World.pending,Option.bind_eq_bind,held,Option.bind_some,found,Option.toList_some] at blocks
  obtain ⟨b,inside,key⟩ := List.mem_map.mp (blocks.symm.subset (List.mem_append_right _ (List.mem_singleton.mpr rfl)))
  obtain ⟨n,there,_,message⟩ := shelved.entries rfl b inside
  have listed : noteExists w.index s.record.messageId := by
    rw [noteExists_iff]
    exact List.mem_map.mpr ⟨n,there,message.trans (congrArg Prod.snd key)⟩
  rw [absent] at listed
  cases listed

/-- In every run in which the process does not die between the two writes of a note,
index and Markdown agree; and whenever it does, they do not. -/
theorem shelved_run (classify : String → Classification) (events : List Event) (w : World)
    (run : Run (Guarded Calm (Step classify)) {} events w) :
    Shelved w ∧ ∀ w', w.saving ≠ none → Step classify w .crash w' → ¬Shelved w' := by
  have start : Sound {} := ⟨by simp,by simp,nofun,nofun,by simp,.refl _,nofun,nofun⟩
  have sound := run.invariant Sound (fun _ _ _ sound step => sound_step sound step.1 step.2) start
  exact ⟨sound.shelved,fun w' saving step => sound.broken saving step⟩

def plain (text : String) : Classification := ⟨text,[],"other",text⟩

def milk : Incoming := .pending {uuid := "u1",messageId := "m1",spaceId := "s",now := "2026-07-01T08:00:00+08:00"} "买牛奶"

def again : List Event :=
  [.append milk,.process milk.record,.look 0,.save 0,.crash,.process milk.record,.look 0,.save 0,.index]

def World.after (w : World) (events : List Event) : World := (events.foldlM (next plain) w).getD w

theorem two_blocks :
    Run (Step plain) {} again (World.after {} again) ∧ (World.after {} again).saving = none ∧
      (∀ s ∈ (World.after {} again).savers, s.stage = .done) ∧
      (World.after {} again).index = [noteOf (plain "买牛奶") milk.record] ∧
      (World.after {} again).markdown = [block (noteOf (plain "买牛奶") milk.record),block (noteOf (plain "买牛奶") milk.record)] ∧
      ¬Shelved (World.after {} again) := by
  refine ⟨Run.of_isSome (by rfl),by rfl,by decide,by decide,by decide,?_⟩
  intro shelved
  have one := shelved.blocks (by rfl) (noteOf (plain "买牛奶") milk.record) (by decide)
  revert one
  decide

def once : List Event :=
  [.append milk,.process milk.record,.look 0,.save 0,.index,.update "u1" [.title "牛奶",.enrichmentStatus "ready"],.crash,
    .process milk.record,.look 0]

theorem shelved_once : Shelved (World.after {} once) ∧
    ∀ w', (World.after {} once).saving ≠ none → Step plain (World.after {} once) .crash w' → ¬Shelved w' := by
  have keeps : Keeps [.title "牛奶",.enrichmentStatus "ready"] := by
    intro u inside
    simp only [List.mem_cons,List.not_mem_nil,or_false] at inside
    rcases inside with rfl | rfl <;> simp
  refine shelved_run plain once _ ?_
  iterate 5 refine .cons ⟨trivial,rfl⟩ ?_
  exact .cons ⟨keeps,rfl⟩ (.cons ⟨rfl,rfl⟩ (.cons ⟨trivial,rfl⟩ (.single ⟨trivial,rfl⟩)))

end Suixinji.Local.Shelf
