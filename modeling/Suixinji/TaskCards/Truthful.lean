import Suixinji.TaskCards.Commands
import Suixinji.TaskCards.History

/-! What the answer of a completion says of its tasks, over the runs of one message. -/
namespace Suixinji.TaskCards.Completion
open Relational Checked Memories Transition

variable {t : Texts} {rt : Runtime} {session : Session} {w w' : World} {s s' : Store Scope} {items : List Listed}

/-! ### What a run works on -/

def Report.told : Report → List Line
  | .stale _ => []
  | .lines ls => ls

/-- The answer is about these items: it has numbers of them, or a line for each. -/
def Report.covers (items : List Listed) : Report → Prop
  | .stale numbers => numbers.Sublist (items.map (·.number))
  | .lines ls => ls.map (·.item) = items

def Attempt.told : Attempt → List Line
  | .selecting _ _ => []
  | .working told _ | .ready told _ _ _ | .written told _ _ => told
  | .answering report => report.told

/-- The run works on these items, in their order. -/
def Attempt.covers (items : List Listed) : Attempt → Prop
  | .selecting read left => read.map (·.1) ++ left = items
  | .working told left => told.map (·.item) ++ left.map (·.1) = items
  | .ready told _ item left | .written told item left => told.map (·.item) ++ item::left.map (·.1) = items
  | .answering report => report.covers items

/-- A line that a run has written, or that the answer has. -/
def World.Tells (w : World) (line : Line) : Prop :=
  (∃ a ∈ w.attempt, line ∈ a.told) ∨ ∃ p ∈ w.operation, ∃ report ∈ p.report, line ∈ report.told

/-- The task and its card are done. -/
def Done (t : Texts) (s : Store Scope) (id : MemoryId) : Prop :=
  ∃ m, s.memories.find? id = some m ∧ finished t (readRecord s m) = some true

/-! ### What is known of a run -/

def Shown (entry : Listed × Record) : Prop :=
  entry.2.row.id = entry.1.id ∧ (entry.2.row.taskStatus = some .done ∨ entry.2.row.currentVersion = entry.1.version)

/-- The decision is about the version of the task that was shown, under the note of the command. -/
def Completes (t : Texts) (session : Session) (item : Listed) (call : CardCall) : Prop :=
  ∃ value, ∃ e : Entry t, call.Writes value (some e) ∧ e.id = item.id ∧ e.record.row.currentVersion = item.version ∧
    call.noteId = session.noteId

def Attempt.Sound (t : Texts) (session : Session) : Attempt → Prop
  | .selecting read _ => ∀ entry ∈ read, ∀ r ∈ entry.2, r.row.id = entry.1.id
  | .working _ left | .written _ _ left => ∀ entry ∈ left, Shown entry
  | .ready _ call item left => Completes t session item call ∧ ∀ entry ∈ left, Shown entry
  | .answering _ => True

/-- The run works on the items of the operation, and a line that it has newly written holds. -/
structure Attempt.Fits (t : Texts) (session : Session) (w : World) (a : Attempt) : Prop where
  sound : a.Sound t session
  covers : ∃ p ∈ w.operation, a.covers p.items.val
  told : ∀ line ∈ a.told, line.outcome = .marked → w.Tells line ∨ Done t w.store line.item.id

structure World.Sound (t : Texts) (session : Session) (w : World) : Prop where
  note : ∀ p ∈ w.operation, p.operation.noteId = session.noteId
  report : ∀ p ∈ w.operation, ∀ report ∈ p.report, report.covers p.items.val
  attempt : ∀ a ∈ w.attempt, a.Sound t session ∧ ∃ p ∈ w.operation, a.covers p.items.val
  once : (w.written.map (·.memoryId)).Nodup
  past : ∀ v ∈ w.written, ∃ p ∈ w.operation, ∃ item ∈ p.items.val, item.id = v.memoryId ∧ w.store.past item.id (item.version + 1)

/-- What a step of a run does: it keeps the items, logs the row it changes, and marks what is done. -/
structure Stepped (t : Texts) (session : Session) (w : World) (event : Event) (w' : World) : Prop where
  sound : w'.Sound t session
  kept : ∀ p ∈ w.operation, ∃ p' ∈ w'.operation, p'.operation = p.operation ∧ p'.items = p.items
  logged : (∀ command, event ≠ .other command) → ∀ id, w'.store.memories.find? id = w.store.memories.find? id ∨
    ∃ v, w'.written = w.written ++ [v] ∧ v.memoryId = id
  told : ∀ line, w'.Tells line → line.outcome = .marked → w.Tells line ∨ Done t w.store line.item.id

theorem World.Sound.turn {event : Event} {attempt : Option Attempt} (sound : w.Sound t session)
    (fits : ∀ a ∈ attempt, a.Fits t session w) : Stepped t session w event { w with attempt } where
  sound := { sound with attempt := fun a there => ⟨(fits a there).sound,(fits a there).covers⟩ }
  kept p there := ⟨p,there,rfl,rfl⟩
  logged _ _ := .inl rfl
  told line := by
    rintro (⟨a,there,listed⟩ | persisted) marked
    · exact (fits a there).told line listed marked
    · exact .inl (.inr persisted)

/-! ### Reading and judging -/

theorem not_stale {access : Record → Bool} {now : Time} {item : Listed} {record : Option Record}
    (passes : session.stale access now item record = false) :
    ∃ r, record = some r ∧ (r.row.taskStatus = some .done ∨ r.row.currentVersion = item.version) := by
  cases record with
  | none => cases passes
  | some r =>
    refine ⟨r,rfl,?_⟩
    rw [Session.stale,Bool.or_eq_false_iff,decide_eq_false_iff_not,not_and_or,not_not,not_not] at passes
    exact passes.2

/-- Where no item is stale the run goes on with all of them. -/
theorem map_filterMap_found {read : List (Listed × Option Record)} (found : ∀ entry ∈ read, entry.2.isSome) :
    (read.filterMap (fun entry => entry.2.map (entry.1,·))).map (·.1) = read.map (·.1) := by
  induction read with
  | nil => rfl
  | cons entry read ih =>
    obtain ⟨r,there⟩ := Option.isSome_iff_exists.mp (found entry List.mem_cons_self)
    have rest := ih (fun entry later => found entry (List.mem_cons_of_mem _ later))
    rw [List.filterMap_cons_some (b := (entry.1,r)) (by rw [there]; rfl),List.map_cons,List.map_cons,rest]

theorem fits_read {read : List (Listed × Option Record)} {item : Listed} {left : List Listed} (sound : w.Sound t session)
    (here : w.attempt = some (.selecting read (item::left))) :
    (Attempt.selecting (read ++ [(item,(w.store.memories.find? item.id).map (readRecord w.store))]) left).Fits t session w := by
  obtain ⟨rows,p,there,covers⟩ := sound.attempt _ here
  refine ⟨fun entry listed r found => ?_,⟨p,there,?_⟩,fun line none => absurd none List.not_mem_nil⟩
  · rcases List.mem_append.mp listed with before | new
    · exact rows entry before r found
    · cases List.mem_singleton.mp new
      obtain ⟨m,stored,rfl⟩ := Option.map_eq_some_iff.mp found
      exact (Table.find?_eq_some.mp stored).2
  · simpa [Attempt.covers] using covers

theorem fits_judge {read : List (Listed × Option Record)} {clock : MemoryId → Time} (sound : w.Sound t session)
    (here : w.attempt = some (.selecting read [])) :
    let stale := read.filter (fun entry => session.stale rt.access (clock entry.1.id) entry.1 entry.2)
    (if stale = [] then Attempt.working [] (read.filterMap (fun entry => entry.2.map (entry.1,·)))
      else .answering (.stale (stale.map (·.1.number)))).Fits t session w := by
  intro stale
  obtain ⟨rows,p,there,covers⟩ := sound.attempt _ here
  rw [Attempt.covers,List.append_nil] at covers
  split
  · rename_i none
    have passes : ∀ entry ∈ read, ∃ r, entry.2 = some r ∧ (r.row.taskStatus = some .done ∨ r.row.currentVersion = entry.1.version) :=
      fun entry listed => not_stale (Bool.not_eq_true _ ▸ List.filter_eq_nil_iff.mp none entry listed)
    refine ⟨fun entry listed => ?_,⟨p,there,?_⟩,fun line none => absurd none List.not_mem_nil⟩
    · obtain ⟨source,member,kept⟩ := List.mem_filterMap.mp listed
      obtain ⟨r,found,passes⟩ := passes source member
      rw [found] at kept
      cases kept
      exact ⟨rows source member r found,passes⟩
    · rw [Attempt.covers,List.map_nil,List.nil_append,map_filterMap_found,covers]
      intro entry listed
      obtain ⟨r,found,_⟩ := passes entry listed
      rw [found]
      rfl
  · refine ⟨trivial,⟨p,there,?_⟩,fun line none => absurd none List.not_mem_nil⟩
    rw [Attempt.covers,Report.covers,← covers,List.map_map]
    exact List.filter_sublist.map _

/-! ### Working -/

/-- The run goes on to the next task. -/
theorem fits_after {told : List Line} {item : Listed} {outcome : Outcome} {left : List (Listed × Record)}
    (covers : ∃ p ∈ w.operation, told.map (·.item) ++ item::left.map (·.1) = p.items.val) (rows : ∀ entry ∈ left, Shown entry)
    (tells : ∀ line ∈ told, w.Tells line) (holds : outcome = .marked → Done t w.store item.id) :
    (Attempt.after told item outcome left).Fits t session w := by
  obtain ⟨p,there,covers⟩ := covers
  refine ⟨rows,⟨p,there,?_⟩,fun line listed marked => ?_⟩
  · simpa [Attempt.after,Attempt.covers] using covers
  · rcases List.mem_append.mp listed with before | new
    · exact .inl (tells line before)
    · cases List.mem_singleton.mp new
      exact .inr (holds marked)

theorem fits_failed {told : List Line} {item : Listed} {left : List (Listed × Record)} {error : Error}
    (covers : ∃ p ∈ w.operation, told.map (·.item) ++ item::left.map (·.1) = p.items.val) (rows : ∀ entry ∈ left, Shown entry)
    (tells : ∀ line ∈ told, w.Tells line) : ∀ a ∈ Attempt.failed told item left error, a.Fits t session w := by
  intro a failed
  obtain ⟨reason,_,rfl⟩ := Option.map_eq_some_iff.mp failed
  exact fits_after covers rows tells nofun

theorem readEntry_record {r : Record} {e : Entry t} (read : readEntry t r = some e) : e.record = r := by
  unfold readEntry at read
  split at read
  · cases read
  · cases read
    rfl

theorem completes_of_completeOne {entry : Listed × Record} {op : Operation} {e : Entry t} {call : CardCall}
    (shown : Shown entry) (opened : entry.2.row.taskStatus ≠ some .done) (read : readEntry t entry.2 = some e)
    (noted : op.noteId = session.noteId) (ok : completeOne rt.ids session.spaceId op entry.1.number e = .ok call) :
    Completes t session entry.1 call := by
  obtain ⟨value,_,writes⟩ := completeOne_writes ok
  have same := readEntry_record read
  refine ⟨value,e,writes,?_,?_,?_⟩
  · rw [Entry.id,same,shown.1]
  · rw [same]
    exact shown.2.resolve_left opened
  · obtain ⟨_,_,ok⟩ := bind_ok.mp ok
    obtain ⟨_,_,ok⟩ := bind_ok.mp ok
    obtain ⟨_,_,ok⟩ := bind_ok.mp ok
    obtain ⟨_,_,ok⟩ := bind_ok.mp ok
    cases ok
    exact noted

theorem fits_work {told : List Line} {entry : Listed × Record} {left : List (Listed × Record)} {p : Persisted} (sound : w.Sound t session)
    (begun : p ∈ w.operation) (here : w.attempt = some (.working told (entry::left))) (opened : entry.2.row.taskStatus ≠ some .done) :
    ∀ a ∈ (readEntry t entry.2).bind (fun e =>
      match completeOne rt.ids session.spaceId p.operation entry.1.number e with
      | .ok call => some (.ready told call entry.1 left)
      | .error error => Attempt.failed told entry.1 left error), a.Fits t session w := by
  intro a chosen
  obtain ⟨rows,covers⟩ := sound.attempt _ here
  have tells : ∀ line ∈ told, w.Tells line := fun line listed => .inl ⟨_,here,listed⟩
  have later : ∀ entry ∈ left, Shown entry := fun entry listed => rows entry (List.mem_cons_of_mem _ listed)
  obtain ⟨e,read,chosen⟩ := Option.bind_eq_some_iff.mp chosen
  split at chosen
  · rename_i call decided
    cases chosen
    exact ⟨⟨completes_of_completeOne (rows entry List.mem_cons_self) opened read (sound.note p begun) decided,later⟩,covers,
      fun line listed _ => .inl (tells line listed)⟩
  · exact fits_failed covers later tells a chosen

/-! ### Writing -/

/-- The next version of the item, written under the note of the command. -/
structure Completed (session : Session) (item : Listed) (s s' : Store Scope) : Prop where
  row : ∃ m row, s.memories.find? item.id = some m ∧ m.currentVersion = item.version ∧ row.id = item.id ∧
    row.currentVersion = item.version + 1 ∧ s'.memories = s.memories.put row
  version : ∃ v, s'.versions = s.versions ++ [v] ∧ v.memoryId = item.id ∧ v.sourceNoteId = some session.noteId

theorem Completes.commit {item : Listed} {call : CardCall} {newId : MemoryId} {now : Time} {r : Except Error Result}
    (completes : Completes t session item call) (ok : applyMemoryDecision rt.lib (call.apply newId now) s = (r,s')) :
    s'.memories = s.memories ∧ s'.versions = s.versions ∨ Completed session item s s' := by
  obtain ⟨value,e,writes,named,version,noted⟩ := completes
  rcases writes.carried ok with same | ⟨target,result,ids,u,decisions,done,left,_,known⟩
  · exact .inl same
  · obtain ⟨m,rfl,there,unmoved⟩ := known e rfl
    obtain ⟨memories,v,versions,about,source⟩ := writes.updated done there
    refine .inr ⟨⟨m,call.written rt.lib newId now m,?_,unmoved.trans version,?_,?_,by rw [left]; exact memories⟩,v,?_,?_,?_⟩
    · rwa [← named]
    · exact (Table.find?_eq_some.mp there).2.trans named
    · rw [(writes.written rt.lib newId now m).2.1,unmoved,version]
    · rw [left]
      exact versions
    · exact about.trans named
    · rw [source,noted]

theorem Completed.past {item : Listed} (completed : Completed session item s s') : s'.past item.id (item.version + 1) := by
  obtain ⟨m,row,there,_,named,version,memories⟩ := completed.row
  intro m' found
  rw [Option.mem_def,memories,s.memories.find?_put_of (r := row) (by rw [named]; exact there),if_pos named.symm] at found
  cases found
  exact version.ge

theorem Completed.past_other {item : Listed} {id : MemoryId} {n : Nat} (completed : Completed session item s s') (past : s.past id n) :
    s'.past id n := by
  obtain ⟨m,row,there,shown,named,version,memories⟩ := completed.row
  exact past.put row (by rw [named]; exact there) (by omega) memories

def Session.logged (session : Session) (s s' : Store Scope) : List Version :=
  (s'.versions.drop s.versions.length).filter (·.sourceNoteId = some session.noteId)

theorem logged_of_same (same : s'.versions = s.versions) : session.logged s s' = [] := by
  rw [Session.logged,same,List.drop_length,List.filter_nil]

theorem Completed.logged {item : Listed} (completed : Completed session item s s') :
    ∃ v, session.logged s s' = [v] ∧ v.memoryId = item.id := by
  obtain ⟨v,versions,about,source⟩ := completed.version
  refine ⟨v,?_,about⟩
  rw [Session.logged,versions,List.drop_left,List.filter_cons_of_pos (by simpa using source),List.filter_nil]

/-- What a transaction does, whatever the run goes on with. -/
theorem stepped_commit {told : List Line} {item : Listed} {call : CardCall} {left : List (Listed × Record)} {newId : MemoryId}
    {now : Time} {r : Except Error Result} {attempt : Option Attempt} (sound : w.Sound t session)
    (here : w.attempt = some (.ready told call item left))
    (ok : applyMemoryDecision rt.lib (call.apply newId now) w.store = (r,s')) (fits : ∀ a ∈ attempt, a.Fits t session w) :
    Stepped t session w (.commit newId now) { w with store := s',written := w.written ++ session.logged w.store s',attempt } := by
  obtain ⟨⟨completes,_⟩,p,begun,covers⟩ := sound.attempt _ here
  have kept : ∀ p ∈ w.operation, ∃ p' ∈ w.operation, p'.operation = p.operation ∧ p'.items = p.items :=
    fun p there => ⟨p,there,rfl,rfl⟩
  have told : ∀ line, World.Tells { w with store := s',written := w.written ++ session.logged w.store s',attempt } line →
      line.outcome = .marked → w.Tells line ∨ Done t w.store line.item.id := by
    rintro line (⟨a,there,listed⟩ | persisted) marked
    · exact (fits a there).told line listed marked
    · exact .inl (.inr persisted)
  have runs : ∀ a ∈ attempt, a.Sound t session ∧ ∃ p ∈ w.operation, a.covers p.items.val :=
    fun a there => ⟨(fits a there).sound,(fits a there).covers⟩
  rcases completes.commit ok with ⟨memories,versions⟩ | completed
  · refine ⟨⟨sound.note,sound.report,runs,?_,?_⟩,kept,fun _ id => .inl (by rw [memories]),told⟩
    · rw [logged_of_same versions,List.append_nil]
      exact sound.once
    · intro v logged
      rw [logged_of_same versions,List.append_nil] at logged
      obtain ⟨p,there,item,listed,about,past⟩ := sound.past v logged
      exact ⟨p,there,item,listed,about,past.congr memories⟩
  · obtain ⟨v,logged,about⟩ := completed.logged
    have listed : item ∈ p.items.val := by
      rw [← covers]
      exact List.mem_append_right _ List.mem_cons_self
    obtain ⟨m,row,there,shown,named,_,memories⟩ := completed.row
    refine ⟨⟨sound.note,sound.report,runs,?_,?_⟩,kept,fun _ id => ?_,told⟩
    · -- A task that the command has written is past the version it was shown at.
      rw [logged,List.map_append,List.nodup_append]
      refine ⟨sound.once,List.nodup_singleton _,fun id before id' last same => ?_⟩
      obtain ⟨v',member,rfl⟩ := List.mem_map.mp before
      obtain ⟨p',there',item',listed',about',past⟩ := sound.past v' member
      obtain rfl := Option.some.inj (there'.symm.trans begun)
      rw [List.map_singleton,List.mem_singleton] at last
      obtain rfl := List.inj_on_of_nodup_map p'.items.property listed' listed (about'.trans (same.trans (last.trans about)))
      have := past m there
      omega
    · intro v' inside
      rw [logged] at inside
      rcases List.mem_append.mp inside with before | new
      · obtain ⟨p',there',item',listed',about',past⟩ := sound.past v' before
        exact ⟨p',there',item',listed',about',completed.past_other past⟩
      · rw [List.mem_singleton.mp new]
        exact ⟨p,begun,item,listed,about.symm,completed.past⟩
    · by_cases same : id = item.id
      · exact .inr ⟨v,by rw [logged],about.trans same.symm⟩
      · refine .inl ?_
        rw [memories,w.store.memories.find?_put_of (r := row) (by rw [named]; exact there),if_neg (by rw [named]; exact same)]

/-- What others do takes no task back to the version it was shown at. -/
theorem stepped_other {command : Command Scope} (sound : w.Sound t session) (ok : execute rt.lib w.store command = .ok s')
    (new : ¬∃ p ∈ w.operation, ∃ item ∈ p.items.val, command.draws = some item.id) :
    Stepped t session w (.other command) { w with store := s' } where
  sound := { sound with
    past := fun v logged => by
      obtain ⟨p,there,item,listed,about,past⟩ := sound.past v logged
      exact ⟨p,there,item,listed,about,execute_past (fun draws => new ⟨p,there,item,listed,draws⟩) past ok⟩ }
  kept p there := ⟨p,there,rfl,rfl⟩
  logged other := absurd rfl (other command)
  told _ tells _ := .inl tells

/-! ### Beginning and answering -/

theorem operation_of_selection {selection : Selection} {text createdAt : String} {p : Persisted}
    (chosen : selection.operation t session text createdAt = some p) : p.operation.noteId = session.noteId ∧ p.report = none := by
  cases selection with
  | numbered latest numbers =>
    obtain ⟨snapshot,_,chosen⟩ := Option.bind_eq_some_iff.mp chosen
    obtain ⟨items,_,chosen⟩ := Option.bind_eq_some_iff.mp chosen
    cases chosen
    exact ⟨rfl,rfl⟩
  | named snapshotId records targets reason =>
    obtain ⟨items,_,chosen⟩ := Option.bind_eq_some_iff.mp chosen
    cases chosen
    exact ⟨rfl,rfl⟩

theorem World.Sound.unwritten (sound : w.Sound t session) (fresh : w.operation = none) : w.written = [] := by
  refine List.eq_nil_iff_forall_not_mem.mpr (fun v logged => ?_)
  obtain ⟨p,there,_⟩ := sound.past v logged
  cases fresh.symm.trans there

theorem stepped_begin {event : Event} {p : Persisted} (sound : w.Sound t session) (fresh : w.operation = none)
    (noted : p.operation.noteId = session.noteId) (unanswered : p.report = none) :
    Stepped t session w event { w with operation := some p,attempt := some (.selecting [] p.items.val) } where
  sound := {
    note := fun p' there => Option.some.inj there ▸ noted
    report := fun p' there report reported => by
      cases there
      cases unanswered.symm.trans reported
    attempt := fun a there => by
      cases there
      exact ⟨fun entry none => absurd none List.not_mem_nil,p,rfl,rfl⟩
    once := sound.once
    past := fun v logged => by
      change v ∈ w.written at logged
      rw [sound.unwritten fresh] at logged
      cases logged }
  kept p' there := by cases fresh.symm.trans there
  logged _ _ := .inl rfl
  told line := by
    rintro (⟨a,there,listed⟩ | ⟨p',there,report,reported,_⟩) _
    · cases there
      cases listed
    · cases there
      cases unanswered.symm.trans reported

theorem stepped_answer {event : Event} {p : Persisted} {report : Report} (sound : w.Sound t session) (begun : w.operation = some p)
    (here : w.attempt = some (.answering report)) :
    Stepped t session w event { w with operation := some { p with report := some report },attempt := none } := by
  have same : ∀ p' ∈ w.operation, p' = p := fun p' there => Option.some.inj (there.symm.trans begun)
  refine ⟨⟨fun p' there => ?_,fun p' there report' reported => ?_,fun a there => ?_,sound.once,fun v logged => ?_⟩,
    fun p' there => ?_,fun _ _ => .inl rfl,?_⟩
  · cases there
    exact sound.note p begun
  · cases there
    cases reported
    obtain ⟨_,p',there,covers⟩ := sound.attempt _ here
    exact same p' there ▸ covers
  · cases there
  · obtain ⟨p',there,rest⟩ := sound.past v logged
    exact ⟨_,rfl,same p' there ▸ rest⟩
  · exact ⟨_,rfl,by rw [same p' there],by rw [same p' there]⟩
  · rintro line (⟨a,there,_⟩ | ⟨p',there,report',reported,listed⟩) _
    · cases there
    · cases there
      cases reported
      exact .inl (.inl ⟨_,here,listed⟩)

/-! ### Steps -/

theorem stepped_next {event : Event} (sound : w.Sound t session) (step : w.next t rt session event = some w') :
    Stepped t session w event w' := by
  cases event with
  | start selection text createdAt =>
    simp only [World.next] at step
    split at step
    · cases step
    · rename_i p idle begun
      cases step
      split
      · exact sound.turn (fun a there => by rw [idle] at there; cases there)
      · refine sound.turn (fun a there => ?_)
        cases there
        exact ⟨fun entry none => absurd none List.not_mem_nil,⟨p,begun,rfl⟩,fun line none => absurd none List.not_mem_nil⟩
    · rename_i idle fresh
      obtain ⟨p,chosen,rfl⟩ := Option.map_eq_some_iff.mp step
      obtain ⟨noted,unanswered⟩ := operation_of_selection chosen
      exact stepped_begin sound fresh noted unanswered
  | read =>
    simp only [World.next] at step
    split at step
    · rename_i read item left here
      cases step
      refine sound.turn (fun a there => ?_)
      cases there
      exact fits_read sound here
    · cases step
  | judge clock =>
    simp only [World.next] at step
    split at step
    · rename_i read here
      cases step
      refine sound.turn (fun a there => ?_)
      cases there
      exact fits_judge sound here
    · cases step
  | work =>
    simp only [World.next] at step
    split at step
    · rename_i told begun here
      cases step
      refine sound.turn (fun a there => ?_)
      cases there
      obtain ⟨_,p,there,covers⟩ := sound.attempt _ here
      refine ⟨trivial,⟨p,there,?_⟩,fun line listed _ => .inl (.inl ⟨_,here,listed⟩)⟩
      rwa [Attempt.covers,List.map_nil,List.append_nil] at covers
    · rename_i p told item record left begun here
      split at step
      · cases step
        refine sound.turn (fun a there => ?_)
        cases there
        obtain ⟨rows,covers⟩ := sound.attempt _ here
        refine fits_after covers (fun entry listed => rows entry (List.mem_cons_of_mem _ listed)) (fun line listed => .inl ⟨_,here,listed⟩) ?_
        intro marked
        cases marked
      · rename_i opened
        cases step
        exact sound.turn (fits_work sound begun here opened)
    · cases step
  | commit newId now =>
    simp only [World.next] at step
    split at step
    · rename_i told call item left here
      cases step
      refine stepped_commit sound here rfl (fun a chosen => ?_)
      obtain ⟨⟨_,rows⟩,covers⟩ := sound.attempt _ here
      have tells : ∀ line ∈ told, w.Tells line := fun line listed => .inl ⟨_,here,listed⟩
      split at chosen
      · cases chosen
        exact ⟨rows,covers,fun line listed _ => .inl (tells line listed)⟩
      · exact fits_failed covers rows tells a chosen
    · cases step
  | check =>
    simp only [World.next] at step
    split at step
    · rename_i told item left here
      cases step
      refine sound.turn (fun a chosen => ?_)
      obtain ⟨rows,covers⟩ := sound.attempt _ here
      obtain ⟨done,checked,rfl⟩ := Option.map_eq_some_iff.mp chosen
      refine fits_after covers rows (fun line listed => .inl ⟨_,here,listed⟩) (fun marked => ?_)
      obtain ⟨m,there,checked⟩ := Option.bind_eq_some_iff.mp checked
      cases done with
      | false => cases marked
      | true => exact ⟨m,there,checked⟩
    · cases step
  | answer =>
    simp only [World.next] at step
    split at step
    · rename_i p report begun here
      cases step
      exact stepped_answer sound begun here
    · cases step
  | crash =>
    cases step
    exact sound.turn (fun a there => absurd there (Option.not_mem_none a))
  | other command =>
    simp only [World.next] at step
    split at step
    · cases step
    · rename_i new
      obtain ⟨s',done,rfl⟩ := Option.map_eq_some_iff.mp step
      exact stepped_other sound (ok_of_toOption done) new

/-! ### Answers that deny -/

/-- The rows that a run has read. -/
def Attempt.read : Attempt → List (Listed × Option Record)
  | .selecting read _ => read
  | _ => []

/-- Where an earlier run of the command has written, no row that is judged is stale. -/
def World.clear (rt : Runtime) (session : Session) (w : World) : Event → Bool
  | .judge clock => w.written.isEmpty ||
      (w.attempt.elim [] Attempt.read).all (fun entry => !session.stale rt.access (clock entry.1.id) entry.1 entry.2)
  | _ => true

/-- Who denies that anything was modified has written nothing, and is done. -/
structure World.Honest (w : World) : Prop where
  persisted : ∀ p ∈ w.operation, ∀ numbers, p.report = some (.stale numbers) → w.written = [] ∧ w.attempt = none
  answering : ∀ numbers, w.attempt = some (.answering (.stale numbers)) → w.written = []

/-- While a run is under way nothing has been denied. -/
theorem World.Honest.undenied (honest : w.Honest) {a : Attempt} (here : w.attempt = some a) {p : Persisted} (there : p ∈ w.operation)
    {numbers : List Nat} : p.report ≠ some (.stale numbers) := by
  intro denied
  cases here.symm.trans (honest.persisted p there numbers denied).2

theorem World.Honest.turn (honest : w.Honest) {a : Attempt} (here : w.attempt = some a) {s : Store Scope} {written : List Version}
    {attempt : Option Attempt} (answers : ∀ numbers, attempt = some (.answering (.stale numbers)) → written = []) :
    World.Honest { w with store := s,attempt,written } where
  persisted _ there _ denied := absurd denied (honest.undenied here there)
  answering := answers

theorem answered_of_stale {p : Persisted} {numbers : List Nat} (denied : p.report = some (.stale numbers)) : p.answered = true := by
  simp [Persisted.answered,denied,Report.text]

theorem after_denies_not {told : List Line} {item : Listed} {outcome : Outcome} {left : List (Listed × Record)} {report : Report} :
    Attempt.after told item outcome left ≠ .answering report := nofun

theorem failed_denies_not {told : List Line} {item : Listed} {left : List (Listed × Record)} {error : Error} {report : Report} :
    Attempt.failed told item left error ≠ some (.answering report) := by
  intro failed
  obtain ⟨_,_,same⟩ := Option.map_eq_some_iff.mp failed
  exact after_denies_not same

theorem honest_next {event : Event} (honest : w.Honest) (clear : w.clear rt session event = true)
    (step : w.next t rt session event = some w') : w'.Honest := by
  cases event with
  | start selection text createdAt =>
    simp only [World.next] at step
    split at step
    · cases step
    · rename_i p idle begun
      cases step
      split
      · exact honest
      · rename_i open'
        refine ⟨fun p' there numbers denied => ?_,by simp⟩
        obtain rfl := Option.some.inj (there.symm.trans begun)
        exact absurd (answered_of_stale denied) open'
    · obtain ⟨p,chosen,rfl⟩ := Option.map_eq_some_iff.mp step
      refine ⟨fun p' there numbers denied => ?_,by simp⟩
      cases there
      cases (operation_of_selection chosen).2.symm.trans denied
  | read =>
    simp only [World.next] at step
    split at step
    · rename_i here
      cases step
      exact honest.turn here (by simp)
    · cases step
  | judge clock =>
    simp only [World.next] at step
    split at step
    · rename_i read here
      cases step
      refine honest.turn here (fun numbers denies => ?_)
      split at denies
      · cases denies
      · rename_i found
        rw [World.clear,here,Bool.or_eq_true] at clear
        refine clear.elim List.isEmpty_iff.mp (fun passes => absurd ?_ found)
        refine List.filter_eq_nil_iff.mpr (fun entry listed => ?_)
        simpa using List.all_eq_true.mp passes entry listed
    · cases step
  | work =>
    simp only [World.next] at step
    split at step
    · rename_i here
      cases step
      exact honest.turn here (by simp)
    · rename_i here
      split at step
      · cases step
        exact honest.turn here (fun numbers denies => absurd (Option.some.inj denies) after_denies_not)
      · cases step
        refine honest.turn here (fun numbers denies => ?_)
        obtain ⟨e,_,denies⟩ := Option.bind_eq_some_iff.mp denies
        split at denies
        · cases denies
        · exact absurd denies failed_denies_not
    · cases step
  | commit newId now =>
    simp only [World.next] at step
    split at step
    · rename_i here
      cases step
      refine honest.turn here (fun numbers denies => ?_)
      split at denies
      · cases denies
      · exact absurd denies failed_denies_not
    · cases step
  | check =>
    simp only [World.next] at step
    split at step
    · rename_i here
      cases step
      refine honest.turn here (fun numbers denies => ?_)
      obtain ⟨_,_,same⟩ := Option.map_eq_some_iff.mp denies
      exact absurd same after_denies_not
    · cases step
  | answer =>
    simp only [World.next] at step
    split at step
    · rename_i p report begun here
      cases step
      refine ⟨fun p' there numbers denied => ⟨?_,rfl⟩,by simp⟩
      cases there
      cases denied
      exact honest.answering numbers here
    · cases step
  | crash =>
    cases step
    exact ⟨fun p there numbers denied => ⟨(honest.persisted p there numbers denied).1,rfl⟩,by simp⟩
  | other command =>
    simp only [World.next] at step
    split at step
    · cases step
    · obtain ⟨s',_,rfl⟩ := Option.map_eq_some_iff.mp step
      exact ⟨honest.persisted,honest.answering⟩

/-! ### Whole histories -/

theorem sound_fresh (s : Store Scope) : World.Sound t session { store := s } where
  note p there := absurd there (Option.not_mem_none p)
  report p there := absurd there (Option.not_mem_none p)
  attempt a there := absurd there (Option.not_mem_none a)
  once := List.nodup_nil
  past _ logged := absurd logged List.not_mem_nil

theorem honest_fresh (s : Store Scope) : World.Honest { store := s } where
  persisted p there := absurd there (Option.not_mem_none p)
  answering _ denied := absurd denied (Option.some_ne_none _).symm

/-- However often a command is run again, it works on the items it chose, writes each of them once at most and marks what is
done; and where no task is stale after it has written, it denies that anything was modified only if nothing was. -/
theorem completion_truthful {events : List Event} {event : Event}
    (run : Run (Guarded (fun w event => w.clear rt session event = true) (fun w event w' => w.next t rt session event = some w'))
      { store := s } events w) (step : w.next t rt session event = some w') :
    ((∀ p ∈ w.operation, ∃ p' ∈ w'.operation, p'.operation = p.operation ∧ p'.items = p.items) ∧
      (∀ a ∈ w.attempt, ∃ p ∈ w.operation, a.covers p.items.val) ∧ ∀ p ∈ w.operation, ∀ report ∈ p.report, report.covers p.items.val) ∧
    ((w.written.map (·.memoryId)).Nodup ∧ (∀ v ∈ w.written, ∃ p ∈ w.operation, v.memoryId ∈ p.items.val.map (·.id)) ∧
      ((∀ command, event ≠ .other command) → ∀ id, w'.store.memories.find? id = w.store.memories.find? id ∨
        ∃ v, w'.written = w.written ++ [v] ∧ v.memoryId = id)) ∧
    (∀ p ∈ w.operation, ∀ numbers, p.report = some (.stale numbers) → w.written = []) ∧
    ∀ line, w'.Tells line → line.outcome = .marked → w.Tells line ∨ Done t w.store line.item.id := by
  have kept : w.Sound t session ∧ w.Honest :=
    run.invariant (fun w => w.Sound t session ∧ w.Honest)
      (fun w event w' known step => ⟨(stepped_next known.1 step.2).sound,honest_next known.2 step.1 step.2⟩)
      ⟨sound_fresh s,honest_fresh s⟩
  obtain ⟨sound,honest⟩ := kept
  have stepped := stepped_next sound step
  refine ⟨⟨stepped.kept,fun a there => (sound.attempt a there).2,sound.report⟩,⟨sound.once,fun v logged => ?_,stepped.logged⟩,
    fun p there numbers denied => (honest.persisted p there numbers denied).1,stepped.told⟩
  obtain ⟨p,there,item,listed,about,_⟩ := sound.past v logged
  exact ⟨p,there,List.mem_map.mpr ⟨item,listed,about⟩⟩

/-! ### Two tasks -/

/-- The world after the steps; unchanged if one is not enabled. -/
def World.after (t : Texts) (rt : Runtime) (session : Session) (w : World) (events : List Event) : World :=
  (events.foldlM (World.next t rt session) w).getD w

def housework (task : String) : Candidate Scope where
  candidateId := 1
  memoryType := .task
  content := task
  importance := 1/2
  confidence := 1/2
  taskStatus := some .todo
  subject := some "用户"
  objectValue := some task
  scope := {}

def household : Session := ⟨0,"owner",7⟩

/-- The list that is shown, and the command that both of its tasks are done. -/
def listedBoth : Snapshot := ⟨1,[⟨⟨1,10,1⟩,"report"⟩,⟨⟨2,11,1⟩,"laundry"⟩],by decide⟩

def completeBoth : Event := .start (.numbered (some listedBoth) [1,2]) "任务1、任务2请标记完成" "2025-01-01"

/-- A run that is cut off when it has completed the first task. -/
def cutOff : List Event :=
  [.other (.insert 10 0 (housework "report") 1 .active 100),.other (.insert 11 0 (housework "laundry") 2 .active 100),
    completeBoth,.read,.read,.judge (fun _ => 101),.work,.commit 12 102,.crash]

/-- Then the second task is changed, and the command comes again. -/
def changedMeanwhile : List Event :=
  cutOff ++ [.other (.correct 11 "laundry at noon" none 103),completeBoth,.read,.read,.judge (fun _ => 104),.answer]

/-- The command has completed a task, and answers that it has not modified any. -/
theorem completion_denied :
    let w := World.after .plain .plain household { store := .empty Scope } changedMeanwhile
    Run (fun w event w' => w.next .plain .plain household event = some w') { store := .empty Scope } changedMeanwhile w ∧
      w.operation.bind (·.report) = some (.stale [2]) ∧
      w.written.map (fun v => (v.memoryId,v.taskStatus,v.sourceNoteId)) = [(10,some .done,some household.noteId)] :=
  ⟨.of_isSome (by decide +kernel),by decide +kernel,by decide +kernel⟩

/-- The command that comes again where nothing has changed, up to its second write. -/
def resumed : List Event :=
  cutOff ++ [completeBoth,.read,.read,.judge (fun _ => 104),.work,.work,.commit 13 105]

theorem completion_truthful_resumed :
    let begun := World.after .plain .plain household { store := .empty Scope } resumed
    let done := (begun.next .plain .plain household .check).getD begun
    begun.written.map (fun v => (v.memoryId,v.taskStatus)) = [(10,some .done),(11,some .done)] ∧
      done.Tells ⟨⟨⟨2,11,1⟩,"laundry"⟩,.marked⟩ ∧ (begun.written.map (·.memoryId)).Nodup ∧
      (∀ p ∈ begun.operation, ∀ numbers, p.report = some (.stale numbers) → begun.written = []) ∧
      ∀ line, done.Tells line → line.outcome = .marked → begun.Tells line ∨ Done .plain begun.store line.item.id := by
  intro begun done
  have enabled : (begun.next .plain .plain household .check).isSome := by decide +kernel
  obtain ⟨w,step⟩ := Option.isSome_iff_exists.mp enabled
  have reached : done = w := by rw [show done = (begun.next .plain .plain household .check).getD begun from rfl,step]; rfl
  obtain ⟨_,⟨once,_⟩,honest,told⟩ := completion_truthful (.of_guarded (by decide +kernel)) step
  have tells : done.attempt.map Attempt.told = some [⟨⟨⟨1,10,1⟩,"report"⟩,.already⟩,⟨⟨⟨2,11,1⟩,"laundry"⟩,.marked⟩] := by
    decide +kernel
  obtain ⟨a,there,lines⟩ := Option.map_eq_some_iff.mp tells
  refine ⟨by decide +kernel,.inl ⟨a,there,by rw [lines]; simp⟩,once,honest,?_⟩
  rw [reached]
  exact told

end Suixinji.TaskCards.Completion
