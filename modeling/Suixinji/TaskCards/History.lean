import Suixinji.TaskCards.Lawful
import Suixinji.TaskCards.System

/-! From one version of a card to the next: what the message that wrote it may have changed. -/
namespace Suixinji.TaskCards
open Relational Checked Memories Transition

variable {t : Texts} {rt : Runtime} {w w' : World t} {s s' : Store Scope} {e : Entry t}

def Synced (s : Store Scope) : Prop :=
  ∀ m ∈ s.memories, m.memoryKeyVersion = .taskCardV2 → ∃ card, m.scope.taskCard = some card ∧ m.taskStatus = card.taskStatus

def Entry.Known (e : Entry t) (s : Store Scope) : Prop :=
  ∃ m ∈ s.memories, m.id = e.id ∧ (e.record.row.currentVersion < m.currentVersion ∨ normalized m = e.record.row)

def Flight.Sound (s : Store Scope) : Flight t → Prop
  | .reading _ _ seen => ∀ e ∈ seen, e.Known s
  | .chosen _ _ _ e => e.Known s
  | .ready value call _ => ∃ current : Option (Entry t), call.Writes value current ∧ ∀ e ∈ current, e.Known s

def World.Sound (w : World t) : Prop := ∀ f ∈ w.flights, f.Sound w.store

theorem lookUp_known {id : MemoryId} (found : lookUp t s id = some e) : e.Known s := by
  obtain ⟨m,there,read⟩ := Option.bind_eq_some_iff.mp found
  split at read
  · cases read
  · cases read
    exact ⟨m,(Table.find?_eq_some.mp there).1,rfl,.inr rfl⟩

theorem Entry.Known.version (known : e.Known s) {m : Memory Scope} (there : s.memories.find? e.id = some m) :
    e.record.row.currentVersion ≤ m.currentVersion := by
  obtain ⟨m',member,same,rest⟩ := known
  obtain ⟨inside,named⟩ := Table.find?_eq_some.mp there
  obtain rfl := s.memories.unique member inside (same.trans named.symm)
  rcases rest with later | same
  · exact later.le
  · exact (congrArg Memory.currentVersion same).ge

theorem Entry.Known.row (known : e.Known s) {m : Memory Scope} (there : s.memories.find? e.id = some m)
    (unmoved : m.currentVersion = e.record.row.currentVersion) : normalized m = e.record.row := by
  obtain ⟨m',member,same,rest⟩ := known
  obtain ⟨inside,named⟩ := Table.find?_eq_some.mp there
  obtain rfl := s.memories.unique member inside (same.trans named.symm)
  exact rest.resolve_left (by omega)

variable {value : TaskInput} {call : CardCall} {current : Option (Entry t)} {newId : MemoryId} {now : Time}

theorem CardCall.Commits.known {rt : Runtime} (commits : call.Commits rt.lib current newId now s s') {e' : Entry t}
    (known : e'.Known s) : e'.Known s' := by
  cases commits with
  | kept memories =>
    unfold Entry.Known
    rwa [memories]
  | inserted _ memories =>
    obtain ⟨m,member,same,rest⟩ := known
    exact ⟨m,(Table.mem_insert memories).mpr (.inl member),same,rest⟩
  | updated chosen there unmoved memories =>
    rename_i e m
    by_cases here : e'.id = e.id
    · have later := known.version (by rw [here]; exact there)
      refine ⟨call.written rt.lib newId now m,?_,?_,.inl (Nat.lt_succ_of_le later)⟩
      · rw [memories,Table.mem_put]
        exact .inr ⟨rfl,m,(Table.find?_eq_some.mp there).1,rfl⟩
      · exact (Table.find?_eq_some.mp there).2.trans here.symm
    · obtain ⟨m',member,same,rest⟩ := known
      refine ⟨m',?_,same,rest⟩
      rw [memories,Table.mem_put]
      refine .inl ⟨member,fun named => here ?_⟩
      exact same.symm.trans (named.trans (Table.find?_eq_some.mp there).2)

theorem Flight.Sound.kept {f : Flight t} (sound : f.Sound s) (kept : ∀ e : Entry t, e.Known s → e.Known s') : f.Sound s' := by
  cases f with
  | reading p n seen => exact fun e listed => kept e (sound e listed)
  | chosen spaceId op number e => exact kept e sound
  | ready value call again =>
    obtain ⟨current,writes,known⟩ := sound
    exact ⟨current,writes,fun e chosen => kept e (known e chosen)⟩

theorem World.Sound.replaced {i : Nat} {flights : List (Flight t)} (sound : w.Sound)
    (kept : ∀ e : Entry t, e.Known w.store → e.Known s) (new : ∀ f ∈ flights, f.Sound s) : (w.replaced i flights s).Sound := by
  intro f listed
  rcases List.mem_append.mp listed with first | later
  · rcases List.mem_append.mp first with before | here
    · exact (sound f (List.mem_of_mem_take before)).kept kept
    · exact new f here
  · exact (sound f (List.mem_of_mem_drop later)).kept kept

theorem mem_selected {available : List (Entry t)} {ranking : List MemoryId} (member : e ∈ selected available ranking) :
    e ∈ available := by
  obtain ⟨_,_,there⟩ := List.mem_filterMap.mp member
  exact List.mem_of_find?_eq_some there

theorem commits_of_ready (rt : Runtime) (newId : MemoryId) (now : Time) {again : Option (Prepared × Nat)} {i : Nat}
    (sound : w.Sound) (listed : w.flights[i]? = some (.ready value call again)) :
    ∃ current : Option (Entry t), call.Writes value current ∧ (∀ e ∈ current, e.Known w.store) ∧
      call.Commits rt.lib current newId now w.store (applyMemoryDecision rt.lib (call.apply newId now) w.store).2 := by
  obtain ⟨current,writes,known⟩ := sound _ (List.mem_of_getElem? listed)
  exact ⟨current,writes,known,writes.commits rfl⟩

theorem World.Sound.next {event : Event} (sound : w.Sound) (step : w.next rt event = some w') : w'.Sound := by
  have same (e : Entry t) (known : e.Known w.store) : e.Known w.store := known
  cases event with
  | start note candidateId row =>
    obtain ⟨p,_,rfl⟩ := Option.map_eq_some_iff.mp step
    intro f listed
    rcases List.mem_append.mp listed with before | new
    · exact sound f before
    · rw [List.mem_singleton.mp new]
      exact fun e seen => absurd seen List.not_mem_nil
  | look i id now =>
    simp only [World.next] at step
    split at step
    · rename_i p n seen e listed found
      split at step <;> cases step
      refine sound.replaced same (fun f new => ?_)
      rw [List.mem_singleton.mp new]
      intro e' inside
      rcases List.mem_append.mp inside with before | this
      · exact sound _ (List.mem_of_getElem? listed) e' before
      · rw [List.mem_singleton.mp this]
        exact lookUp_known found
    · cases step
  | decide i ranking answer =>
    simp only [World.next] at step
    split at step
    · rename_i p n seen listed
      split at step <;> cases step
      · rename_i call decided
        refine sound.replaced same (fun f new => ?_)
        rw [List.mem_singleton.mp new]
        obtain ⟨current,writes,found⟩ := attempt_writes decided
        exact ⟨current,writes,fun e chosen => sound _ (List.mem_of_getElem? listed) e (mem_selected (found e chosen))⟩
      · exact sound.replaced same (fun f new => absurd new List.not_mem_nil)
    · cases step
  | choose spaceId owner op item now =>
    obtain ⟨e,found,step⟩ := Option.bind_eq_some_iff.mp step
    split at step <;> cases step
    intro f listed
    rcases List.mem_append.mp listed with before | new
    · exact sound f before
    · rw [List.mem_singleton.mp new]
      exact lookUp_known found
  | complete i =>
    simp only [World.next] at step
    split at step
    · rename_i spaceId op number e listed
      split at step <;> cases step
      · rename_i value call said decided
        refine sound.replaced same (fun f new => ?_)
        rw [List.mem_singleton.mp new]
        obtain ⟨value',said',writes⟩ := completeOne_writes decided
        cases said.symm.trans said'
        refine ⟨some e,writes,fun e' chosen => ?_⟩
        rw [← Option.some.inj chosen]
        exact sound _ (List.mem_of_getElem? listed)
      · exact sound.replaced same (fun f new => absurd new List.not_mem_nil)
    · cases step
  | commit i newId now =>
    simp only [World.next] at step
    split at step
    · rename_i value call again listed
      cases step
      obtain ⟨current,_,_,commits⟩ := commits_of_ready rt newId now sound listed
      refine sound.replaced (fun e => commits.known) (fun f new => ?_)
      unfold retried at new
      split at new
      · rw [List.mem_singleton.mp new]
        exact fun e seen => absurd seen List.not_mem_nil
      · exact absurd new List.not_mem_nil
    · cases step
  | drop i =>
    simp only [World.next] at step
    split at step <;> cases step
    exact sound.replaced same (fun f new => absurd new List.not_mem_nil)

theorem next_store {event : Event} (step : w.next rt event = some w') :
    w'.store = w.store ∨ ∃ i newId now value call again, event = .commit i newId now ∧
      w.flights[i]? = some (.ready value call again) ∧
      w'.store = (applyMemoryDecision rt.lib (call.apply newId now) w.store).2 := by
  cases event with
  | start note candidateId row =>
    obtain ⟨p,_,rfl⟩ := Option.map_eq_some_iff.mp step
    exact .inl rfl
  | choose spaceId owner op item now =>
    obtain ⟨e,found,step⟩ := Option.bind_eq_some_iff.mp step
    split at step <;> cases step
    exact .inl rfl
  | commit i newId now =>
    simp only [World.next] at step
    split at step
    · rename_i value call again listed
      cases step
      exact .inr ⟨i,newId,now,value,call,again,rfl,listed,rfl⟩
    · cases step
  | look i id now =>
    simp only [World.next] at step
    split at step
    · split at step <;> cases step
      exact .inl rfl
    · cases step
  | decide i ranking answer =>
    simp only [World.next] at step
    split at step
    · split at step <;> cases step <;> exact .inl rfl
    · cases step
  | complete i =>
    simp only [World.next] at step
    split at step
    · split at step <;> cases step <;> exact .inl rfl
    · cases step
  | drop i =>
    simp only [World.next] at step
    split at step <;> cases step
    exact .inl rfl

/-- What one committed decision does to the row of a card. -/
structure Revised (value : TaskInput) (m m' : Memory Scope) : Prop where
  version : m'.currentVersion = m.currentVersion + 1
  current : m'.memoryKeyVersion = .taskCardV2
  lawful : ∃ before after, m.scope.taskCard = some before ∧ m'.scope.taskCard = some after ∧ Lawful value before after

theorem CardCall.Commits.synced {lib : Library Scope} (commits : call.Commits lib current newId now s s')
    (writes : call.Writes value current) (synced : Synced s) : Synced s' := by
  obtain ⟨card,there,status,_⟩ := writes.card
  intro m inside version
  cases commits with
  | kept memories =>
    rw [memories] at inside
    exact synced m inside version
  | inserted _ memories =>
    rcases (Table.mem_insert memories).mp inside with member | rfl
    · exact synced m member version
    · exact ⟨card,there,writes.normalized.trans status.symm⟩
  | updated chosen found unmoved memories =>
    rename_i e old
    subst chosen
    rw [memories,Table.mem_put] at inside
    rcases inside with ⟨member,_⟩ | ⟨rfl,_⟩
    · exact synced m member version
    · obtain ⟨_,_,scope,written⟩ := writes.written lib newId now old
      exact ⟨card,by rw [scope]; exact there,written.trans status.symm⟩

theorem CardCall.Commits.revised {lib : Library Scope} (commits : call.Commits lib current newId now s s')
    (writes : call.Writes value current) (known : ∀ e ∈ current, e.Known s) {m : Memory Scope} (member : m ∈ s.memories)
    (version : m.memoryKeyVersion = .taskCardV2) : ∃ m' ∈ s'.memories, m'.id = m.id ∧ (m' = m ∨ Revised value m m') := by
  cases commits with
  | kept memories => exact ⟨m,by rw [memories]; exact member,rfl,.inl rfl⟩
  | inserted _ memories => exact ⟨m,(Table.mem_insert memories).mpr (.inl member),rfl,.inl rfl⟩
  | updated chosen there unmoved memories =>
    rename_i e old
    subst chosen
    obtain ⟨inside,named⟩ := Table.find?_eq_some.mp there
    by_cases here : m.id = e.id
    · obtain rfl := s.memories.unique member inside (here.trans named.symm)
      obtain ⟨current,next,scope,_⟩ := writes.written lib newId now m
      obtain ⟨card,given,_,lawful⟩ := writes.card
      have row := (known e rfl).row there unmoved
      have before : m.scope.taskCard = some e.card := by
        have read := e.card_of_current (by rw [← row]; exact version)
        rwa [← row] at read
      refine ⟨call.written lib newId now m,?_,rfl,.inr ⟨next,current,e.card,card,before,?_,lawful e rfl⟩⟩
      · rw [memories,Table.mem_put]
        exact .inr ⟨rfl,m,member,rfl⟩
      · rw [scope]
        exact given
    · refine ⟨m,?_,rfl,.inl rfl⟩
      rw [memories,Table.mem_put]
      exact .inl ⟨member,fun same => here (same.trans named)⟩

theorem step_revised {event : Event} (sound : w.Sound) (synced : Synced w.store) (step : w.next rt event = some w') :
    Synced w'.store ∧ ∀ m ∈ w.store.memories, m.memoryKeyVersion = .taskCardV2 →
      ∃ m' ∈ w'.store.memories, m'.id = m.id ∧ (m' = m ∨ ∃ value ∈ w.writing event, Revised value m m') := by
  rcases next_store step with same | ⟨i,newId,now,value,call,again,rfl,listed,written⟩
  · rw [same]
    exact ⟨synced,fun m member _ => ⟨m,member,rfl,.inl rfl⟩⟩
  · obtain ⟨current,writes,known,commits⟩ := commits_of_ready rt newId now sound listed
    rw [← written] at commits
    refine ⟨commits.synced writes synced,fun m member version => ?_⟩
    obtain ⟨m',inside,same,rest⟩ := commits.revised writes known member version
    refine ⟨m',inside,same,rest.imp_right (fun revised => ⟨value,?_,revised⟩)⟩
    simp [World.writing,listed]

/-- In every run of messages and completions, a card goes from one version to the next as
the message that is written allows, and its row keeps the status of the card. -/
theorem card_history {start : World t} {events : List Event} {event : Event} (idle : start.flights = [])
    (synced : Synced start.store) (run : Run (fun w event w' => w.next rt event = some w') start events w)
    (step : w.next rt event = some w') :
    Synced w.store ∧ Synced w'.store ∧ ∀ m ∈ w.store.memories, m.memoryKeyVersion = .taskCardV2 →
      ∃ m' ∈ w'.store.memories, m'.id = m.id ∧ (m' = m ∨ ∃ value ∈ w.writing event, Revised value m m') := by
  have kept : w.Sound ∧ Synced w.store :=
    run.invariant (fun w => w.Sound ∧ Synced w.store)
      (fun w event w' ⟨sound,synced⟩ step => ⟨sound.next step,(step_revised sound synced step).1⟩)
      ⟨fun f listed => by rw [idle] at listed; exact absurd listed List.not_mem_nil,synced⟩
  obtain ⟨after,revised⟩ := step_revised kept.1 kept.2 step
  exact ⟨kept.2,after,revised⟩

/-- The texts functions on plain words without times. -/
def Texts.plain : Texts where
  stableId := fun values => "|".intercalate (values.map (·.getD "null"))
  casefold := id
  fromisoformat := fun _ => none
  dates := fun _ => []
  rounds := fun _ => []
  taskTimeFields := fun _ _ => .ok {}

def Runtime.plain : Runtime := ⟨.plain Scope,⟨fun space id => 1000 * space + id,fun note id => 100 * note + id,
  fun note id => 100 * note + id⟩,fun _ => true⟩

/-- The world after the steps; unchanged if one is not enabled. -/
def World.after (rt : Runtime) (w : World t) (events : List Event) : World t := (events.foldlM (World.next rt) w).getD w

def reportBegun : List Event :=
  [.start { id := 1,spaceId := 0,text := "report todo" } 1 (.ok { task := "report",taskStatus := .todo,evidenceSpan := "report" }),
    .decide 0 [] { action := .new },.commit 0 10 100,
    .start { id := 2,spaceId := 0,text := "report done" } 2
      (.ok { task := "report",taskStatus := .done,evidenceSpan := "report done",intent := .update,binary := Memories.done_writable,reopens := Intent.update_reopens }),
    .look 0 10 101,.decide 0 [10] { action := .update,targetId := some 10,description := some "handed in" }]

theorem card_history_reported :
    let begun := World.after .plain (t := .plain) ⟨.empty Scope,[]⟩ reportBegun
    let done := (begun.next .plain (.commit 0 11 102)).getD begun
    begun.store.memories.rows.map (fun m => (m.currentVersion,m.taskStatus)) = [(1,some .todo)] ∧
      done.store.memories.rows.map (fun m => (m.currentVersion,m.taskStatus)) = [(2,some .done)] ∧
      Synced begun.store ∧ Synced done.store ∧ ∀ m ∈ begun.store.memories, m.memoryKeyVersion = .taskCardV2 →
        ∃ m' ∈ done.store.memories, m'.id = m.id ∧ (m' = m ∨ ∃ value ∈ begun.writing (.commit 0 11 102), Revised value m m') := by
  intro begun done
  have begins : (reportBegun.foldlM (World.next .plain) (⟨.empty Scope,[]⟩ : World .plain)).isSome := by decide +kernel
  have enabled : (begun.next .plain (.commit 0 11 102)).isSome := by decide +kernel
  have synced : Synced (Store.empty Scope) := fun m inside => absurd inside (Table.not_mem_empty m)
  obtain ⟨w,step⟩ := Option.isSome_iff_exists.mp enabled
  have reached : done = w := by rw [show done = (begun.next .plain (.commit 0 11 102)).getD begun from rfl,step]; rfl
  exact ⟨by decide +kernel,by decide +kernel,card_history rfl synced (.of_isSome begins) (by rw [reached]; exact step)⟩

end Suixinji.TaskCards
