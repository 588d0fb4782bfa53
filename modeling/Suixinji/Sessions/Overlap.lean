import Suixinji.Dispatch.Barrier

/-! Transactions of the dispatch layer that overlap: `session_scope` runs at READ
COMMITTED. The step-by-step paths read what they write under the locks of the
message and its space, so they take effect at their commit. The statement of an
inbox outcome reads the snapshot of its start, taken before its lock is granted. -/
namespace Suixinji.Sessions
open Suixinji.Relational Suixinji.Numbering Suixinji.Transition Suixinji.Dispatch

/-- A transaction under way, with the committed state when it started. -/
structure Session where
  op : Op
  now : Time
  snap : Db

structure World where
  db : Db := {}
  flight : List Session := []

inductive Event where
  | start (op : Op) (now : Time)
  | commit (session : Nat)
  | abort (session : Nat)

def next (host : Host) (w : World) : Event → Option World
  | .start op now => some {w with flight := w.flight ++ [⟨op,now,w.db⟩]}
  | .commit i => (w.flight[i]?).map (fun q =>
    {db := (outcome host q.snap w.db q.now q.op).1,flight := w.flight.eraseIdx i})
  | .abort i => (w.flight[i]?).map (fun _ => {w with flight := w.flight.eraseIdx i})

def Step (host : Host) (w : World) (e : Event) (w' : World) : Prop := next host w e = some w'

/-- A completion that its task's owner commits has not been disturbed since its start. -/
def Current (w : World) : Event → Prop
  | .commit i => ∀ q, w.flight[i]? = some q → ∀ lease o uuid outcome, q.op = .completeTask lease o uuid →
      o.inbox = some outcome → (∃ t ∈ w.db.tasks, t.ownedBy lease q.now) → ∀ stage, Undisturbed q.snap w.db outcome stage
  | _ => True

/-- The committed state, and each snapshot, was up to date when it was the committed one. -/
structure Sound (w : World) : Prop where
  housed : Housed w.db
  marked : Marked w.db
  snaps : ∀ q ∈ w.flight, Housed q.snap ∧ Marked q.snap ∧ Later q.snap w.db

theorem sound_empty : Sound {} := ⟨housed_empty,marked_empty,fun _ inside => nomatch inside⟩

theorem housed_outcome {host : Host} {snap db db' : Db} {now : Time} {op : Op} {reply : Reply} (housed : Housed db)
    (result : outcome host snap db now op = (db',reply)) : Housed db' := by
  have alone : Dispatch.Step host db ⟨op,now,reply⟩ db' → Housed db' :=
    fun step => (within_step housed (covered_all host db now op) step).housed housed
  cases op
  case completeTask lease o uuid =>
    rcases outcome_cases result with ok | ⟨_,rfl,_⟩
    swap
    · exact housed
    simp only [perform,Option.map_eq_some_iff,Prod.map,Prod.mk.injEq,Prod.exists,id_eq] at ok
    obtain ⟨_,_,ok,rfl,_⟩ := ok
    rcases completeTask_spec ok with ⟨_,rfl⟩ | ⟨_,t,member,_,path⟩
    · exact housed
    have first : Within (fun _ => True) db (completeRow db t now) := within_completeRow member trivial now
    have housed' := first.housed housed
    rcases path with ⟨_,_,_,_,_,_,_,progress⟩ | ⟨_,_,rfl⟩ | ⟨_,_,_,activate⟩
    · exact (within_progress housed' (P := fun _ => True) (fun _ _ _ => trivial) progress).housed housed'
    · exact housed'
    · exact (within_activateTask housed' (P := fun _ => True) (fun _ _ _ _ => trivial) activate).housed housed'
  all_goals exact alone result

theorem sound_commit {host : Host} {w : World} {q : Session} {i : Nat} (sound : Sound w) (member : q ∈ w.flight)
    (current : ∀ lease o uuid outcome, q.op = .completeTask lease o uuid → o.inbox = some outcome →
      (∃ t ∈ w.db.tasks, t.ownedBy lease q.now) → ∀ stage, Undisturbed q.snap w.db outcome stage) :
    Sound {db := (outcome host q.snap w.db q.now q.op).1,flight := w.flight.eraseIdx i} ∧
      Later w.db (outcome host q.snap w.db q.now q.op).1 := by
  obtain ⟨housed₀,marked₀,later⟩ := sound.snaps q member
  generalize result : outcome host q.snap w.db q.now q.op = r
  obtain ⟨db,reply⟩ := r
  have marks : Marked db ∧ Later w.db db := by
    rcases shifts_outcome sound.housed housed₀ later result with shifts | ⟨lease,o,uuid,outcome,op,given,owned,progressed⟩
    · exact ⟨sound.marked.shifts shifts,shifts.later⟩
    · exact ⟨marked₀.progressed sound.marked later (current lease o uuid outcome op given owned) progressed,progressed.later⟩
  refine ⟨⟨housed_outcome sound.housed result,marks.1,?_⟩,marks.2⟩
  intro p inside
  obtain ⟨housed₁,marked₁,later₁⟩ := sound.snaps p (List.mem_of_mem_eraseIdx inside)
  exact ⟨housed₁,marked₁,later₁.trans marks.2⟩

theorem sound_step {host : Host} {w w' : World} {e : Event} (sound : Sound w) (current : Current w e)
    (step : Step host w e w') : Sound w' ∧ Later w.db w'.db := by
  unfold Step at step
  cases e with
  | start op now =>
    cases step
    refine ⟨⟨sound.housed,sound.marked,?_⟩,.refl w.db⟩
    intro q inside
    rcases List.mem_append.mp inside with before | new
    · exact sound.snaps q before
    · rw [List.mem_singleton.mp new]
      exact ⟨sound.housed,sound.marked,.refl w.db⟩
  | commit i =>
    obtain ⟨q,found,rfl⟩ := Option.map_eq_some_iff.mp step
    exact sound_commit sound (List.mem_of_getElem? found) (current q found)
  | abort i =>
    obtain ⟨q,_,rfl⟩ := Option.map_eq_some_iff.mp step
    exact ⟨⟨sound.housed,sound.marked,fun p inside => sound.snaps p (List.mem_of_mem_eraseIdx inside)⟩,.refl w.db⟩

theorem sound_run {host : Host} {events : List Event} {w w' : World} (sound : Sound w)
    (run : Run (Guarded Current (Step host)) w events w') : Sound w' ∧ Later w.db w'.db := by
  refine run.invariant (fun v => Sound v ∧ Later w.db v.db) ?_ ⟨sound,.refl w.db⟩
  rintro v e v' ⟨sound,later⟩ ⟨current,step⟩
  obtain ⟨sound',later'⟩ := sound_step sound current step
  exact ⟨sound',later.trans later'⟩

theorem mark_le {db db' : Db} {s s' : Space} (marked : Marked db) (marked' : Marked db') (later : Later db db')
    (member : s ∈ db.spaces) (inside : s' ∈ db'.spaces) (id : s'.id = s.id) (stage : Stage) :
    s.mark stage ≤ s'.mark stage := by
  have before := marked.exact_ s member stage
  have after := marked'.exact_ s' inside stage
  have successor : ∀ k, 1 ≤ k → k ≤ (db.messages s.id).length → ∃ m ∈ db.messages s.id, ∃ m' ∈ db'.messages s'.id,
      m.sequenceNo = k ∧ m.Onward m' := by
    intro k positive bound
    obtain ⟨m,there,number⟩ := ((marked.numbered s.id).mem_iff k).mpr ⟨positive,bound⟩
    obtain ⟨held,home⟩ := Db.mem_messages.mp there
    obtain ⟨m',new,onward⟩ := later.inbox m held
    exact ⟨m,there,m',Db.mem_messages.mpr ⟨new,onward.spaceId.trans (home.trans id.symm)⟩,number,onward⟩
  refine before.mono after ?_ ?_
  · by_cases empty : (db.messages s.id).length = 0
    · omega
    · obtain ⟨m,_,m',new,number,onward⟩ := successor _ (by omega) le_rfl
      rw [← number,← onward.sequenceNo]
      exact (marked'.numbered s'.id).le new
  · intro n' new low
    obtain ⟨m,there,m',new',number,onward⟩ := successor n'.sequenceNo ((marked'.numbered s'.id).pos new)
      (le_trans low before.1.1)
    rw [List.inj_on_of_nodup_map (marked'.numbered s'.id).nodup new new' (number.symm.trans onward.sequenceNo.symm)]
    exact onward.ended stage (before.1.2 m there (number ▸ low))

def alone (ops : List (Time × Op)) : List Event := ops.flatMap (fun o => [.start o.2 o.1,.commit 0])

theorem run_alone (host : Host) (db : Db) (ops : List (Time × Op)) :
    Run (Guarded Current (Step host)) ⟨db,[]⟩ (alone ops) ⟨(execute host db ops).1,[]⟩ := by
  induction ops generalizing db with
  | nil => exact .nil _
  | cons head ops ih =>
    have start : Step host ⟨db,[]⟩ (.start head.2 head.1) ⟨db,[⟨head.2,head.1,db⟩]⟩ := rfl
    have commit : Step host ⟨db,[⟨head.2,head.1,db⟩]⟩ (.commit 0) ⟨(outcome host db db head.1 head.2).1,[]⟩ := rfl
    refine .cons ⟨trivial,start⟩ (.cons ⟨?_,commit⟩ (ih _))
    intro q found lease o uuid outcome _ _ _ stage
    obtain rfl := Option.some.inj found
    exact undisturbed_self db outcome stage

def extraction (key : String) (inboxId : InboxId) : NewTask where
  taskType := "memory"
  tenantId := "t"
  spaceId := "room"
  idempotencyKey := key
  payload := {barrierInboxId := some inboxId}

def extracting : List (Time × Op) :=
  [(0,.receiveCommand (ingestMessage "om_1" none) ⟨"inbox_1","task_1",0,fun _ => 0⟩),
    (1,.receiveCommand (ingestMessage "om_2" none) ⟨"inbox_2","task_2",1,fun _ => 0⟩),
    (2,.enqueueTask (extraction "memory:note_1" "inbox_1") "task_3" 2),
    (3,.enqueueTask (extraction "memory:note_2" "inbox_2") "task_4" 3),
    (4,.claimTask "task_3" "first" "a" 300),(5,.claimTask "task_4" "second" "b" 300)]

def extracted (taskId : TaskId) (token : String) (inboxId : InboxId) : Op :=
  .completeTask ⟨taskId,token,1⟩ {memoryReadyInboxId := some inboxId} 9

def World.after (w : World) (events : List Event) : World := (events.foldlM (next asciiHost) w).getD w

/-- Both statements start before either commits. -/
def firstExtracted : World := ({db := (execute asciiHost {} extracting).1} : World).after
  [.start (extracted "task_3" "a" "inbox_1") 6,.start (extracted "task_4" "b" "inbox_2") 6,.commit 0]

def bothExtracted : World := firstExtracted.after [.commit 0]

theorem watermark_moved_back :
    (¬ ∀ (host : Host) (events later : List Event) (w w' : World), Run (Step host) {} events w →
      Run (Step host) w later w' → ∀ s ∈ w.db.spaces, ∀ s' ∈ w'.db.spaces, s'.id = s.id →
      ∀ stage : Stage, s.mark stage ≤ s'.mark stage) ∧
    ¬ ∀ (host : Host) (events : List Event) (w : World), Run (Step host) {} events w → w.flight = [] →
      ∀ s ∈ w.db.spaces, ∀ stage, w.db.ExactMark s stage := by
  have run : Run (Step asciiHost) {} (alone extracting ++ [.start (extracted "task_3" "a" "inbox_1") 6,
      .start (extracted "task_4" "b" "inbox_2") 6,.commit 0]) firstExtracted :=
    ((run_alone asciiHost {} extracting).imp (fun _ _ _ step => step.2)).append
      (.cons rfl (.cons rfl (.cons rfl (.nil _))))
  have last : Run (Step asciiHost) firstExtracted [.commit 0] bothExtracted := .cons rfl (.nil _)
  constructor
  · intro monotone
    have lower : ∃ s ∈ firstExtracted.db.spaces.rows, ∃ s' ∈ bothExtracted.db.spaces.rows, s'.id = s.id ∧
        ¬ s.mark .memory ≤ s'.mark .memory := by decide
    obtain ⟨s,member,s',inside,id,fallen⟩ := lower
    exact fallen (monotone _ _ _ _ _ run last s member s' inside id .memory)
  · intro exact_
    have stale : ∃ s ∈ bothExtracted.db.spaces.rows, s.mark .memory = 0 ∧ 2 ≤ (bothExtracted.db.messages s.id).length ∧
        ∀ m ∈ bothExtracted.db.messages s.id, m.Ended .memory := by decide
    obtain ⟨s,member,zero,two,ended⟩ := stale
    have mark := exact_ _ _ _ (run.append last) rfl s member .memory
    have reached : 2 ≤ s.mark .memory := mark.2 ⟨two,fun m inside _ => ended m inside⟩
    omega

/-- In every run whose completions are not disturbed, all marks are exact in every
state, and none is ever lower than before. -/
theorem watermarks_exact (host : Host) {events later : List Event} {w w' : World}
    (reached : Run (Guarded Current (Step host)) {} events w) (run : Run (Guarded Current (Step host)) w later w')
    {s : Space} (member : s ∈ w.db.spaces) (stage : Stage) :
    w.db.ExactMark s stage ∧ ∃ s' ∈ w'.db.spaces, s'.id = s.id ∧ s.mark stage ≤ s'.mark stage := by
  obtain ⟨sound,_⟩ := sound_run sound_empty reached
  obtain ⟨sound',later⟩ := sound_run sound run
  obtain ⟨s',inside,id⟩ := later.spaces s member
  exact ⟨sound.marked.exact_ s member stage,s',inside,id,mark_le sound.marked sound'.marked later member inside id stage⟩

/-- The two workers one after the other. -/
def inTurn : List (Time × Op) :=
  extracting ++ [(6,extracted "task_3" "a" "inbox_1"),(7,extracted "task_4" "b" "inbox_2")]

theorem watermarks_exact_in_turn : ∃ s ∈ (execute asciiHost {} inTurn).1.spaces, s.mark .memory = 2 ∧
    (execute asciiHost {} inTurn).1.ExactMark s .memory := by
  have both : ∃ s ∈ (execute asciiHost {} inTurn).1.spaces.rows, s.mark .memory = 2 := by decide
  obtain ⟨s,member,two⟩ := both
  exact ⟨s,member,two,(watermarks_exact asciiHost (run_alone asciiHost {} inTurn) (.nil _) member .memory).1⟩

end Suixinji.Sessions
