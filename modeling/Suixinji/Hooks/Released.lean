import Suixinji.Relational.Transition
import Suixinji.Hooks.Books

/-! What the hooks of nested calls acquire is ended exactly once, and a write
tool runs under its lock, as long as no call in the callable of a write tool
raises. -/
namespace Suixinji.Hooks
open Suixinji.Transition Suixinji.Coordination

def Frame.writes (frame : Frame) : Prop := ∃ name ∈ writeTools, frame.scope = .tool name

/-- The hooks whose methods are still to run. -/
def Phase.rest : Phase → List Hook
  | .before rest | .after rest | .failing rest => rest
  | .callable => []

/-- The key under which the resource is registered is free. -/
def World.vacant (w : World) : Resource → Prop
  | .lock entry => entry.1 ∉ w.locks.map Prod.fst
  | .slot _ => True
  | .record _ => w.record = none

/-- The conditions: a hook registers nothing over another resource, each release it
makes takes effect, and no call nested in the callable of a write tool reaches the
`on_error` of the lock. -/
def Proper (w : World) : Event → Prop
  | .before outcome => ∀ frame ∈ w.stack.head?, ∀ hook ∈ frame.phase.rest.head?,
      ∀ r ∈ obtained w.drawn outcome hook frame.scope, outcome = .raises ∨ w.vacant r
  | .after answers _ => ∀ frame ∈ w.stack.head?, ∀ hook ∈ frame.phase.rest.head?,
      ∀ r ∈ w.dueAfter hook frame.scope, answers r ≠ .failed
  | .onError answers => ∀ frame ∈ w.stack.head?, ∀ hook ∈ frame.phase.rest.head?,
      (∀ r ∈ w.dueOnError hook frame.scope, answers r ≠ .failed) ∧
        (hook = .spaceLock → ∀ outer ∈ w.stack.tail, ¬outer.writes)
  | _ => True

variable {w w' : World} {hook : Hook} {answers : Resource → Answer} {due : List Resource}

/-! ### The calls on the context -/

/-- The hook's `after` or `on_error` method is still to run. -/
def Phase.owes (hook : Hook) : Phase → Prop
  | .before _ | .callable => True
  | .after rest | .failing rest => hook ∈ rest

/-- The lock of a write tool has been acquired and is not yet due. -/
def Phase.locked : Phase → Prop
  | .before rest => .spaceLock ∉ rest
  | .callable => True
  | .after rest => .spaceLock ∈ rest
  | .failing _ => False

/-- The lock is not acquired yet, or it has been due. -/
def Phase.unlocked : Phase → Prop
  | .before rest => .spaceLock ∈ rest
  | .callable => False
  | .after rest | .failing rest => .spaceLock ∉ rest

structure Frame.Fit (log : List Act) (frame : Frame) : Prop where
  named : ∀ lock, frame.lock = some lock → lock.1 ∈ writeTools ∧ frame.scope = .tool lock.1
  held : frame.writes → frame.phase.locked → frame.lock.isSome
  free : frame.phase.unlocked → frame.lock = none
  distinct : frame.phase.rest.Nodup
  closed : ∀ lock, frame.lock = some lock → frame.phase ≠ .callable → .enters lock ∈ log → .leaves lock ∈ log

/-- What holds of the resources and the calls in every run under the conditions. -/
structure Sound (w : World) : Prop where
  books : Books w
  locks : w.locks.reverse = w.stack.filterMap Frame.lock
  slots : w.slots ≠ [] → ∃ frame ∈ w.stack, frame.scope = .llm ∧ frame.phase.owes .llmUsage
  record : w.record ≠ none → ∃ frame ∈ w.stack, frame.scope = .agent ∧ frame.phase.owes .idempotency
  frames : ∀ frame ∈ w.stack, frame.Fit w.log
  below : ∀ frame ∈ w.stack.tail, frame.phase = .callable

theorem sound_empty : Sound {} where
  books := ⟨.nil,nofun,fun r => by cases r <;> rfl,fun _ => Nat.zero_le _,fun _ _ _ split => by simp at split⟩
  locks := rfl
  slots some_left := absurd rfl some_left
  record some_left := absurd rfl some_left
  frames := nofun
  below := nofun

variable {frame frame' : Frame} {below : List Frame}

/-- A step of the innermost call. -/
theorem Sound.top (sound : Sound w) (here : w.stack = frame::below) (stack : w'.stack = frame'::below)
    (books : Books w') (scope : frame'.scope = frame.scope) (fit : frame'.Fit w'.log)
    (locks : w'.locks.reverse = (frame'::below).filterMap Frame.lock)
    (slots : w'.slots ≠ [] → frame.scope = .llm ∧ frame'.phase.owes .llmUsage ∨
      w.slots ≠ [] ∧ (frame.scope = .llm → frame.phase.owes .llmUsage → frame'.phase.owes .llmUsage))
    (record : w'.record ≠ none → frame.scope = .agent ∧ frame'.phase.owes .idempotency ∨
      w.record ≠ none ∧ (frame.scope = .agent → frame.phase.owes .idempotency → frame'.phase.owes .idempotency)) :
    Sound w' where
  books := books
  locks := by rw [locks,stack]
  slots left := by
    rw [stack]
    rcases slots left with ⟨llm,owes⟩ | ⟨old,kept⟩
    · exact ⟨frame',List.mem_cons_self ..,scope.trans llm,owes⟩
    · obtain ⟨f,member,llm,owes⟩ := sound.slots old
      rw [here] at member
      rcases List.mem_cons.mp member with rfl | inside
      · exact ⟨frame',List.mem_cons_self ..,scope.trans llm,kept llm owes⟩
      · exact ⟨f,.tail _ inside,llm,owes⟩
  record left := by
    rw [stack]
    rcases record left with ⟨agent,owes⟩ | ⟨old,kept⟩
    · exact ⟨frame',List.mem_cons_self ..,scope.trans agent,owes⟩
    · obtain ⟨f,member,agent,owes⟩ := sound.record old
      rw [here] at member
      rcases List.mem_cons.mp member with rfl | inside
      · exact ⟨frame',List.mem_cons_self ..,scope.trans agent,kept agent owes⟩
      · exact ⟨f,.tail _ inside,agent,owes⟩
  frames f member := by
    rw [stack] at member
    rcases List.mem_cons.mp member with rfl | inside
    · exact fit
    · have running : f.phase = .callable := sound.below f (by rw [here]; exact inside)
      have old := sound.frames f (by rw [here]; exact .tail _ inside)
      exact ⟨old.named,old.held,old.free,old.distinct,fun _ _ other => absurd running other⟩
  below := by
    rw [stack]
    have old := sound.below
    rwa [here] at old

theorem Books.of_eq (books : Books w) (locks : w'.locks = w.locks) (slots : w'.slots = w.slots) (record : w'.record = w.record)
    (log : w'.log = w.log) (drawn : w'.drawn = w.drawn) : Books w' where
  keys := locks ▸ books.keys
  fresh := log ▸ drawn ▸ books.fresh
  balance r := by
    have same : w'.holds r = w.holds r := by cases r <;> simp only [World.holds,locks,slots,record]
    rw [log,same]
    exact books.balance r
  once := log ▸ books.once
  sheltered := log ▸ books.sheltered

theorem hooks_distinct : hooks.Nodup ∧ hooks.reverse.Nodup := by decide

theorem owes_all (hook : Hook) : hook ∈ hooks.reverse := by cases hook <;> decide

theorem Frame.Fit.fails {log : List Act} (fit : frame.Fit log) (running : frame.phase ≠ .callable) :
    Frame.Fit log {frame with phase := .failing hooks.reverse} where
  named := fit.named
  held _ locked := locked.elim
  free absent := absurd (owes_all .spaceLock) absent
  distinct := hooks_distinct.2
  closed lock mine _ := fit.closed lock mine running

theorem sound_call {scope : Scope} (sound : Sound w) (step : next w (.call scope) = some w') : Sound w' := by
  have opened : w' = {w with stack := {scope}::w.stack} ∧ ∀ f ∈ w.stack, f.phase = .callable := by
    unfold next at step
    dsimp only at step
    split at step
    · rename_i alone
      cases step
      exact ⟨by rw [alone],by simp [alone]⟩
    · rename_i top below here
      obtain ⟨running,step⟩ := Option.ite_none_right_eq_some.mp step
      cases step
      refine ⟨by rw [here],fun f member => ?_⟩
      rw [here] at member
      rcases List.mem_cons.mp member with rfl | inside
      · exact running
      · exact sound.below f (by rw [here]; exact inside)
  obtain ⟨rfl,running⟩ := opened
  refine ⟨sound.books.of_eq rfl rfl rfl rfl rfl,sound.locks,?_,?_,?_,running⟩
  · intro left
    obtain ⟨f,member,rest⟩ := sound.slots left
    exact ⟨f,.tail _ member,rest⟩
  · intro left
    obtain ⟨f,member,rest⟩ := sound.record left
    exact ⟨f,.tail _ member,rest⟩
  · intro f member
    rcases List.mem_cons.mp member with rfl | inside
    · exact ⟨nofun,fun _ locked => absurd (by decide) locked,fun _ => rfl,hooks_distinct.1,nofun⟩
    · exact sound.frames f inside

theorem Sound.same_locks (sound : Sound w) (here : w.stack = frame::below) (locks : w'.locks = w.locks)
    (lock : frame'.lock = frame.lock) : w'.locks.reverse = (frame'::below).filterMap Frame.lock := by
  rw [locks,sound.locks,here,List.filterMap_cons,List.filterMap_cons,lock]

theorem sound_finish (sound : Sound w) (step : next w .finish = some w') : Sound w' := by
  have ended : ∃ top below, w.stack = top::below ∧ w' = {w with stack := below} ∧ top.phase.unlocked ∧
      ∀ hook, ¬top.phase.owes hook := by
    unfold next at step
    dsimp only at step
    split at step
    · rename_i here
      cases step
      exact ⟨_,_,here,rfl,by simp [Phase.unlocked],by simp [Phase.owes]⟩
    · rename_i here
      cases step
      exact ⟨_,_,here,rfl,by simp [Phase.unlocked],by simp [Phase.owes]⟩
    · cases step
  obtain ⟨top,below,here,rfl,unlocked,settled⟩ := ended
  have free := (sound.frames top (by rw [here]; exact List.mem_cons_self ..)).free unlocked
  refine ⟨sound.books.of_eq rfl rfl rfl rfl rfl,?_,?_,?_,?_,?_⟩
  · have := sound.locks
    rwa [here,List.filterMap_cons_none free] at this
  · intro left
    obtain ⟨f,member,llm,owes⟩ := sound.slots left
    rw [here] at member
    rcases List.mem_cons.mp member with rfl | inside
    · exact absurd owes (settled _)
    · exact ⟨f,inside,llm,owes⟩
  · intro left
    obtain ⟨f,member,agent,owes⟩ := sound.record left
    rw [here] at member
    rcases List.mem_cons.mp member with rfl | inside
    · exact absurd owes (settled _)
    · exact ⟨f,inside,agent,owes⟩
  · intro f member
    exact sound.frames f (by rw [here]; exact .tail _ member)
  · intro f member
    exact sound.below f (by rw [here]; exact List.mem_of_mem_tail member)

theorem Sound.lock_known (sound : Sound w) {lock : Lock} (member : frame ∈ w.stack) (mine : frame.lock = some lock) :
    lock ∈ w.locks ∧ lock.2 < w.drawn := by
  have there : lock ∈ w.locks := by
    rw [← List.mem_reverse,sound.locks]
    exact List.mem_filterMap.mpr ⟨frame,member,mine⟩
  exact ⟨there,sound.books.fresh _ (sound.books.acquired_of_held (r := .lock lock) (List.count_pos_iff.mpr there))⟩

theorem sound_leave {raises : Bool} (sound : Sound w) (step : next w (.leave raises) = some w') : Sound w' := by
  unfold next at step
  dsimp only at step
  split at step
  · rename_i scope lock below here
    cases step
    have member : (⟨scope,.callable,lock⟩ : Frame) ∈ w.stack := by
      rw [here]
      exact List.mem_cons_self ..
    have fit := sound.frames _ member
    refine sound.top here rfl ?_ rfl ?_ (sound.same_locks here rfl rfl) ?_ ?_
    · cases lock with
      | none => exact sound.books.of_eq rfl rfl rfl (List.append_nil _) rfl
      | some lock =>
        exact sound.books.noted (.leaves lock) (sound.lock_known member rfl).2 (by simp) rfl rfl rfl
          (fun r => by cases r <;> rfl)
    · refine ⟨fit.named,fun writes _ => fit.held writes trivial,?_,?_,?_⟩
      · intro unlocked
        cases raises <;> exact absurd (owes_all .spaceLock) unlocked
      · cases raises <;> exact hooks_distinct.2
      · intro own mine _ _
        change lock = some own at mine
        simp [mine]
    · intro left
      cases raises <;> exact .inr ⟨left,fun _ _ => owes_all .llmUsage⟩
    · intro left
      cases raises <;> exact .inr ⟨left,fun _ _ => owes_all .idempotency⟩
  · cases step

theorem sound_start (sound : Sound w) (step : next w .start = some w') : Sound w' := by
  unfold next at step
  dsimp only at step
  split at step
  · rename_i scope lock below here
    cases step
    have member : (⟨scope,.before [],lock⟩ : Frame) ∈ w.stack := by
      rw [here]
      exact List.mem_cons_self ..
    have fit := sound.frames _ member
    have held : Frame.writes ⟨scope,.before [],lock⟩ → lock.isSome := fun writes => fit.held writes (by simp [Phase.locked])
    have runs : ∀ log, Frame.Fit log ⟨scope,.callable,lock⟩ := fun log =>
      ⟨fit.named,fun writes _ => held writes,False.elim,.nil,fun _ _ other => absurd rfl other⟩
    unfold World.enter
    split
    · split
      · refine sound.top here rfl (sound.books.of_eq rfl rfl rfl rfl rfl) rfl ?_ (sound.same_locks here rfl rfl) ?_ ?_
        · exact ⟨fit.named,fun writes _ => held writes,fun absent => absurd (owes_all .spaceLock) absent,hooks_distinct.2,
            fun own mine _ => fit.closed own mine nofun⟩
        · exact fun left => .inr ⟨left,fun _ _ => owes_all .llmUsage⟩
        · exact fun left => .inr ⟨left,fun _ _ => owes_all .idempotency⟩
      · refine sound.top here rfl ?_ rfl (runs _) (sound.same_locks here rfl rfl) ?_ ?_
        · cases lock with
          | none => exact sound.books.of_eq rfl rfl rfl (List.append_nil _) rfl
          | some lock =>
            exact sound.books.noted (.enters lock) (sound.lock_known member rfl).2 (by simp) rfl rfl rfl
              (fun r => by cases r <;> rfl)
        · exact fun left => .inr ⟨left,fun _ _ => trivial⟩
        · exact fun left => .inr ⟨left,fun _ _ => trivial⟩
    · exact sound.top here rfl (sound.books.of_eq rfl rfl rfl rfl rfl) rfl (runs _) (sound.same_locks here rfl rfl)
        (fun left => .inr ⟨left,fun _ _ => trivial⟩) (fun left => .inr ⟨left,fun _ _ => trivial⟩)
  · cases step

/-! ### Acquisitions -/

theorem holds_register {r : Resource} (vacant : w.vacant r) (s : Resource) :
    (w.register r).holds s = w.holds s + if r = s then 1 else 0 := by
  cases r with
  | lock entry =>
    have appended : setItem w.locks entry = w.locks ++ [entry] := if_neg vacant
    cases s with
    | lock other => simp [World.holds,World.register,appended,List.count_singleton]
    | slot | record => rfl
  | slot n =>
    cases s with
    | slot m => simp [World.holds,World.register,List.count_cons]
    | lock | record => rfl
  | record n =>
    have empty : w.record = none := vacant
    cases s with
    | record m => simp [World.holds,World.register,empty]
    | lock | slot => rfl

theorem Books.register {r : Resource} (books : Books w) (vacant : w.vacant r) : ((w.register r).locks.map Prod.fst).Nodup := by
  cases r with
  | lock entry =>
    have appended : setItem w.locks entry = w.locks ++ [entry] := if_neg vacant
    change ((setItem w.locks entry).map Prod.fst).Nodup
    rw [appended,List.map_append]
    exact List.nodup_append.mpr ⟨books.keys,by simp,by
      intro key old key' new same
      rw [List.map_singleton,List.mem_singleton] at new
      exact vacant (new ▸ same ▸ old)⟩
  | slot n => exact books.keys
  | record n => exact books.keys

theorem obtained_some {n : Nat} {outcome : Outcome} {hook : Hook} {scope : Scope} {r : Resource}
    (some_one : obtained n outcome hook scope = some r) :
    (∃ name ∈ writeTools, hook = .spaceLock ∧ scope = .tool name ∧ r = .lock (name,n)) ∨
    (hook = .llmUsage ∧ scope = .llm ∧ r = .slot n) ∨ (hook = .idempotency ∧ scope = .agent ∧ r = .record n) := by
  unfold obtained at some_one
  split at some_one
  · rename_i name
    obtain ⟨listed,same⟩ := Option.ite_none_right_eq_some.mp some_one
    exact .inl ⟨name,listed,rfl,rfl,(Option.some.inj same).symm⟩
  · exact .inr (.inl ⟨rfl,rfl,(Option.some.inj some_one).symm⟩)
  · obtain ⟨_,same⟩ := Option.ite_none_right_eq_some.mp some_one
    exact .inr (.inr ⟨rfl,rfl,(Option.some.inj same).symm⟩)
  · cases some_one

theorem obtained_lock {n : Nat} {outcome : Outcome} {scope : Scope} {lock : Option Lock} {rest : List Hook}
    (nothing : obtained n outcome .spaceLock scope = none) : ¬Frame.writes ⟨scope,.before rest,lock⟩ := by
  rintro ⟨name,listed,same⟩
  dsimp only at same
  subst same
  simp [obtained,listed] at nothing

theorem sound_before {outcome : Outcome} (sound : Sound w) (proper : Proper w (.before outcome))
    (step : next w (.before outcome) = some w') : Sound w' := by
  unfold next at step
  dsimp only at step
  split at step
  · rename_i scope hook rest lock below here
    have member : (⟨scope,.before (hook::rest),lock⟩ : Frame) ∈ w.stack := by
      rw [here]
      exact List.mem_cons_self ..
    have fit := sound.frames _ member
    split at step
    · cases step
      refine sound.top here rfl (sound.books.of_eq rfl rfl rfl rfl rfl) rfl (fit.fails nofun) (sound.same_locks here rfl rfl) ?_ ?_
      · exact fun left => .inr ⟨left,fun _ _ => owes_all .llmUsage⟩
      · exact fun left => .inr ⟨left,fun _ _ => owes_all .idempotency⟩
    · rename_i passes
      cases step
      have vacant : ∀ r, obtained w.drawn outcome hook scope = some r → w.vacant r := by
        intro r same
        have := proper ⟨scope,.before (hook::rest),lock⟩ (by rw [here]; rfl) hook rfl r same
        exact this.resolve_left passes
      unfold World.perform
      split
      · rename_i nothing
        refine sound.top here rfl (sound.books.of_eq rfl rfl rfl rfl rfl) rfl ?_ (sound.same_locks here rfl rfl)
          (fun left => .inr ⟨left,fun _ _ => trivial⟩) (fun left => .inr ⟨left,fun _ _ => trivial⟩)
        refine ⟨fit.named,?_,fun later => fit.free (List.mem_cons_of_mem _ later),(List.nodup_cons.mp fit.distinct).2,
          fun own mine _ => fit.closed own mine nofun⟩
        intro writes locked
        apply fit.held writes
        intro soon
        rcases List.mem_cons.mp soon with rfl | later
        · exact obtained_lock nothing writes
        · exact locked later
      · rename_i r acquired
        have number : r.number = w.drawn := by
          rcases obtained_some acquired with ⟨_,_,_,_,rfl⟩ | ⟨_,_,rfl⟩ | ⟨_,_,rfl⟩ <;> rfl
        have free := vacant r acquired
        have books : ∀ stack, Books {w.register r with drawn := w.drawn + 1, log := w.log ++ [.acquires r], stack := stack} :=
          fun stack => sound.books.acquire number (sound.books.register free) rfl rfl
            (fun s => .trans (by cases s <;> rfl) (holds_register free s))
        have later : rest.Nodup := (List.nodup_cons.mp fit.distinct).2
        rcases obtained_some acquired with ⟨name,listed,rfl,rfl,rfl⟩ | ⟨rfl,rfl,rfl⟩ | ⟨rfl,rfl,rfl⟩
        · have unlocked : lock = none := fit.free (List.mem_cons_self ..)
          subst unlocked
          refine sound.top here rfl (books _) rfl ?_ ?_ (fun left => .inr ⟨left,fun _ _ => trivial⟩)
            (fun left => .inr ⟨left,fun _ _ => trivial⟩)
          · refine ⟨?_,fun _ _ => rfl,fun again => absurd again (List.nodup_cons.mp fit.distinct).1,later,?_⟩
            · intro own mine
              cases Option.some.inj mine
              exact ⟨listed,rfl⟩
            · intro own mine _ entered
              cases Option.some.inj mine
              have old : .enters (name,w.drawn) ∈ w.log := by simpa using entered
              exact absurd (sound.books.fresh _ old) (Nat.lt_irrefl _)
          · have appended : setItem w.locks (name,w.drawn) = w.locks ++ [(name,w.drawn)] := if_neg free
            have old := sound.locks
            rw [here] at old
            change (setItem w.locks (name,w.drawn)).reverse = (name,w.drawn)::below.filterMap Frame.lock
            rw [appended,List.reverse_append,old]
            rfl
        · refine sound.top here rfl (books _) rfl ?_ (sound.same_locks here rfl rfl) (fun _ => .inl ⟨rfl,trivial⟩)
            (fun left => .inr ⟨left,fun _ _ => trivial⟩)
          exact ⟨fit.named,(by rintro ⟨_,_,other⟩; cases other),fun again => fit.free (List.mem_cons_of_mem _ again),later,
            fun own mine => nomatch (fit.named own mine).2⟩
        · refine sound.top here rfl (books _) rfl ?_ (sound.same_locks here rfl rfl) (fun left => .inr ⟨left,fun _ _ => trivial⟩)
            (fun _ => .inl ⟨rfl,trivial⟩)
          exact ⟨fit.named,(by rintro ⟨_,_,other⟩; cases other),fun again => fit.free (List.mem_cons_of_mem _ again),later,
            fun own mine => nomatch (fit.named own mine).2⟩
  · cases step

/-! ### Releases -/

theorem Sound.releases_other {scope : Scope} {phase phase' : Phase} {lock : Option Lock} (sound : Sound w)
    (here : w.stack = ⟨scope,phase,lock⟩::below) (releases : Releases w hook scope due) (other : hook ≠ .spaceLock)
    (answered : ∀ r ∈ due, answers r ≠ .failed)
    (owes : ∀ h ≠ hook, phase.owes h → phase'.owes h)
    (fit : ∀ log, (∀ lock, .enters lock ∈ log ↔ .enters lock ∈ w.log) → (∀ lock, .leaves lock ∈ log ↔ .leaves lock ∈ w.log) →
      Frame.Fit log ⟨scope,phase',lock⟩) :
    Sound {(w.releaseAll hook answers due).1 with stack := ⟨scope,phase',lock⟩::below} := by
  have no_lock : ∀ lock, .lock lock ∉ due := by
    intro lock member
    cases releases with
    | locks _ _ named => exact other named
    | slots | record => simp at member
    | nothing => cases member
  have books : Books (w.releaseAll hook answers due).1 :=
    sound.books.releaseAll (releases.distinct sound.books) releases.held answered (fun lock member => absurd member (no_lock lock))
  refine sound.top here rfl (books.of_eq rfl rfl rfl rfl rfl) rfl ?_ (sound.same_locks here (releases.keeps_locks other) rfl) ?_ ?_
  · exact fit _ (fun lock => releaseAll_notes (by simp)) (fun lock => releaseAll_notes (by simp))
  · intro left
    obtain ⟨old,unlike⟩ := releases.slots_left left
    exact .inr ⟨old,fun llm => owes .llmUsage (fun same => unlike ⟨same.symm,llm⟩)⟩
  · intro left
    obtain ⟨old,unlike⟩ := releases.record_left left
    exact .inr ⟨old,fun agent => owes .idempotency (fun same => unlike ⟨same.symm,agent⟩)⟩

theorem Sound.releases_lock {scope : Scope} {phase phase' : Phase} {lock : Option Lock} {due : List Lock} (sound : Sound w)
    (here : w.stack = ⟨scope,phase,lock⟩::below) (ended : phase ≠ .callable) (own : due = lock.toList)
    (answered : ∀ r ∈ due.map Resource.lock, answers r ≠ .failed)
    (owes : ∀ h ≠ .spaceLock, phase.owes h → phase'.owes h) (fit : ∀ log, Frame.Fit log ⟨scope,phase',none⟩) :
    Sound {(w.releaseAll .spaceLock answers (due.map .lock)).1 with stack := ⟨scope,phase',none⟩::below} := by
  have member : (⟨scope,phase,lock⟩ : Frame) ∈ w.stack := by
    rw [here]
    exact List.mem_cons_self ..
  have old := sound.locks
  rw [here] at old
  have slots : (w.releaseAll .spaceLock answers (due.map .lock)).1.slots = w.slots :=
    releaseAll_kept World.slots (fun r member w answer => by
      obtain ⟨lock,_,rfl⟩ := List.mem_map.mp member
      rfl)
  have record : (w.releaseAll .spaceLock answers (due.map .lock)).1.record = w.record :=
    releaseAll_kept World.record (fun r member w answer => by
      obtain ⟨lock,_,rfl⟩ := List.mem_map.mp member
      rfl)
  have books : Books (w.releaseAll .spaceLock answers (due.map .lock)).1 := by
    subst own
    cases lock with
    | none => exact sound.books
    | some lock =>
      refine sound.books.releaseAll (by simp) ?_ answered ?_
      · intro r mine
        rw [List.mem_singleton.mp mine]
        exact List.count_pos_iff.mpr (sound.lock_known member rfl).1
      · intro mine there
        rw [Resource.lock.inj (List.mem_singleton.mp there)]
        exact (sound.frames _ member).closed lock rfl ended
  have locks : (w.releaseAll .spaceLock answers (due.map .lock)).1.locks.reverse = below.filterMap Frame.lock := by
    subst own
    cases lock with
    | none => exact old
    | some lock =>
      change (w.releaseAll .spaceLock answers [.lock lock]).1.locks.reverse = _
      rw [releaseAll_single]
      change (w.locks.filter (·.1 ≠ lock.1)).reverse = _
      have split : w.locks = (below.filterMap Frame.lock).reverse ++ [lock] := by
        rw [← List.reverse_inj,old,List.reverse_append,List.reverse_reverse]
        rfl
      have keys := sound.books.keys
      rw [split,List.map_append] at keys
      rw [split,List.filter_append,List.filter_eq_self.mpr,List.reverse_append,List.reverse_reverse]
      · simp
      · intro entry inside
        have apart := (List.nodup_append.mp keys).2.2 entry.1 (List.mem_map_of_mem inside) lock.1 (by simp)
        simpa using apart
  refine sound.top here rfl (books.of_eq rfl rfl rfl rfl rfl) rfl (fit _) locks ?_ ?_
  · intro left
    exact .inr ⟨slots ▸ left,fun _ => owes .llmUsage nofun⟩
  · intro left
    exact .inr ⟨record ▸ left,fun _ => owes .idempotency nofun⟩

theorem Sound.lock_named (sound : Sound w) {lock : Lock} (member : lock ∈ w.locks) :
    ∃ f ∈ w.stack, f.lock = some lock ∧ lock.1 ∈ writeTools ∧ f.scope = .tool lock.1 := by
  rw [← List.mem_reverse,sound.locks] at member
  obtain ⟨f,inside,mine⟩ := List.mem_filterMap.mp member
  exact ⟨f,inside,mine,(sound.frames f inside).named lock mine⟩

theorem Sound.own_lock {scope : Scope} {rest : List Hook} {lock : Option Lock} (sound : Sound w)
    (here : w.stack = ⟨scope,.after (.spaceLock::rest),lock⟩::below) :
    w.dueAfter .spaceLock scope = lock.toList.map .lock := by
  have fit := sound.frames ⟨scope,.after (.spaceLock::rest),lock⟩ (by rw [here]; exact List.mem_cons_self ..)
  have keys := sound.books.keys
  have old := sound.locks
  rw [here] at old
  cases lock with
  | some lock =>
    obtain rfl : scope = .tool lock.1 := (fit.named lock rfl).2
    have split : w.locks = (below.filterMap Frame.lock).reverse ++ [lock] := by
      rw [← List.reverse_inj,old,List.reverse_append,List.reverse_reverse]
      rfl
    rw [split,List.map_append] at keys
    change (w.locks.filter (·.1 = lock.1)).map Resource.lock = _
    rw [split,List.filter_append,List.filter_eq_nil_iff.mpr]
    · simp
    · intro entry inside
      simpa using (List.nodup_append.mp keys).2.2 entry.1 (List.mem_map_of_mem inside) lock.1 (by simp)
  | none =>
    cases scope with
    | agent | llm => rfl
    | tool name =>
      have reader : name ∉ writeTools := by
        intro listed
        have := fit.held ⟨name,listed,rfl⟩ (List.mem_cons_self ..)
        cases this
      change (w.locks.filter (·.1 = name)).map Resource.lock = []
      rw [List.filter_eq_nil_iff.mpr]
      · rfl
      · intro entry there
        obtain ⟨_,_,_,listed,_⟩ := sound.lock_named there
        simp only [decide_eq_true_eq]
        intro same
        rw [same] at listed
        exact reader listed

theorem sound_after {raises : Bool} (sound : Sound w) (proper : Proper w (.after answers raises))
    (step : next w (.after answers raises) = some w') : Sound w' := by
  unfold next at step
  dsimp only at step
  split at step
  · rename_i scope hook rest lock below here
    cases step
    have fit := sound.frames ⟨scope,.after (hook::rest),lock⟩ (by rw [here]; exact List.mem_cons_self ..)
    have answered : ∀ r ∈ w.dueAfter hook scope, answers r ≠ .failed :=
      proper ⟨scope,.after (hook::rest),lock⟩ (by rw [here]; rfl) hook rfl
    obtain ⟨fresh,distinct⟩ := List.nodup_cons.mp fit.distinct
    generalize failed : ((w.releaseAll hook answers (w.dueAfter hook scope)).2 || raises) = raised
    have owes : ∀ h ≠ hook, Phase.owes h (.after (hook::rest)) →
        Phase.owes h (if raised then .failing hooks.reverse else .after rest) := by
      intro h other later
      cases raised with
      | true => exact owes_all h
      | false => exact (List.mem_cons.mp later).resolve_left other
    by_cases lock_hook : hook = .spaceLock
    · subst lock_hook
      rw [if_pos rfl]
      rw [sound.own_lock here] at answered ⊢
      refine sound.releases_lock here nofun rfl answered owes (fun log => ⟨nofun,?_,fun _ => rfl,?_,nofun⟩)
      · cases raised with
        | true => exact fun _ locked => locked.elim
        | false => exact fun _ again => absurd again fresh
      · cases raised with
        | true => exact hooks_distinct.2
        | false => exact distinct
    · rw [if_neg lock_hook]
      refine sound.releases_other here (releases_dueAfter scope) lock_hook answered owes (fun log enters leaves => ?_)
      refine ⟨fit.named,?_,?_,?_,fun own mine _ entered => (leaves own).mpr (fit.closed own mine nofun ((enters own).mp entered))⟩
      · cases raised with
        | true => exact fun _ locked => locked.elim
        | false => exact fun writes later => fit.held writes (List.mem_cons_of_mem _ later)
      · cases raised with
        | true => exact fun absent => absurd (owes_all .spaceLock) absent
        | false => exact fun absent => fit.free (List.not_mem_cons_of_ne_of_not_mem (Ne.symm lock_hook) absent)
      · cases raised with
        | true => exact hooks_distinct.2
        | false => exact distinct
  · cases step

theorem sound_onError (sound : Sound w) (proper : Proper w (.onError answers))
    (step : next w (.onError answers) = some w') : Sound w' := by
  unfold next at step
  dsimp only at step
  split at step
  · rename_i scope hook rest lock below here
    cases step
    have fit := sound.frames ⟨scope,.failing (hook::rest),lock⟩ (by rw [here]; exact List.mem_cons_self ..)
    obtain ⟨answered,alone⟩ := proper ⟨scope,.failing (hook::rest),lock⟩ (by rw [here]; rfl) hook rfl
    dsimp only at answered
    obtain ⟨fresh,distinct⟩ := List.nodup_cons.mp fit.distinct
    have owes : ∀ h ≠ hook, Phase.owes h (.failing (hook::rest)) → Phase.owes h (.failing rest) :=
      fun h other later => (List.mem_cons.mp later).resolve_left other
    by_cases lock_hook : hook = .spaceLock
    · subst lock_hook
      rw [if_pos rfl]
      have readers : below.filterMap Frame.lock = [] := by
        rw [List.filterMap_eq_nil_iff]
        intro f inside
        have idle := alone rfl f (by rw [here]; exact inside)
        cases held : f.lock with
        | none => rfl
        | some own =>
          have named := (sound.frames f (by rw [here]; exact .tail _ inside)).named own held
          exact absurd ⟨own.1,named.1,named.2⟩ idle
      have own : w.locks = lock.toList := by
        have old := sound.locks
        rw [here,List.filterMap_cons,readers] at old
        rw [← List.reverse_inj,old]
        cases lock <;> rfl
      exact sound.releases_lock here nofun own answered owes (fun log => ⟨nofun,fun _ locked => locked.elim,fun _ => rfl,distinct,nofun⟩)
    · rw [if_neg lock_hook]
      refine sound.releases_other here (releases_dueOnError scope) lock_hook answered owes (fun log enters leaves => ?_)
      exact ⟨fit.named,fun _ locked => locked.elim,
        fun absent => fit.free (List.not_mem_cons_of_ne_of_not_mem (Ne.symm lock_hook) absent),distinct,
        fun own mine _ entered => (leaves own).mpr (fit.closed own mine nofun ((enters own).mp entered))⟩
  · cases step

theorem sound_step {e : Event} (sound : Sound w) (proper : Proper w e) (step : next w e = some w') : Sound w' := by
  cases e with
  | call scope => exact sound_call sound step
  | before outcome => exact sound_before sound proper step
  | start => exact sound_start sound step
  | leave raises => exact sound_leave sound step
  | after answers raises => exact sound_after sound proper step
  | onError answers => exact sound_onError sound proper step
  | finish => exact sound_finish sound step

/-- With no call left nothing is registered. -/
theorem Sound.settled (sound : Sound w) (finished : w.stack = []) (r : Resource) : w.holds r = 0 := by
  cases r with
  | lock lock =>
    have none_left := sound.locks
    rw [finished] at none_left
    have none_left : w.locks = [] := List.reverse_eq_nil_iff.mp none_left
    simp [World.holds,none_left]
  | slot n =>
    have none_left : w.slots = [] := by
      by_contra left
      obtain ⟨f,member,_⟩ := sound.slots left
      simp [finished] at member
    simp [World.holds,none_left]
  | record n =>
    have none_left : w.record = none := by
      by_contra left
      obtain ⟨f,member,_⟩ := sound.record left
      simp [finished] at member
    simp [World.holds,none_left]

/-- Under the conditions, when no call is left on the context everything that was acquired has
been ended once, and no lock is ever released while the callable of its write tool runs. -/
theorem acquired_ended_once {es : List Event} (run : Run (Guarded Proper (fun w e w' => next w e = some w')) {} es w) :
    Sheltered w.log ∧ (w.stack = [] → ∀ r, .acquires r ∈ w.log → w.log.count (.ends r) = 1) := by
  have sound := run.invariant Sound (fun _ _ _ sound step => sound_step sound step.1 step.2) sound_empty
  refine ⟨sound.books.sheltered,fun finished r acquired => ?_⟩
  have balance := sound.books.balance r
  have once := sound.books.once r
  have : 0 < w.log.count (.acquires r) := List.count_pos_iff.mpr acquired
  have := sound.settled finished r
  omega

/-! ### Runs -/

/-- The eight methods of one kind, none of which raises. -/
def befores : List Event := List.replicate 8 (.before .passes)
def afters : List Event := List.replicate 8 (.after (fun _ => .replied) false)
def onErrors : List Event := List.replicate 8 (.onError (fun _ => .replied))

/-- `save_note`, whose callable asks the model and catches the failure of that call. -/
def caught : List Event :=
  [.call (.tool "save_note")] ++ befores ++ [.start,.call .llm] ++ befores ++ [.start,.leave true] ++ onErrors ++
    [.finish,.leave false] ++ afters ++ [.finish]

/-- The error hook of the inner call releases the lock of the tool that goes on. -/
theorem lock_lost :
    ∃ w, Run (fun w e w' => next w e = some w') {} caught w ∧ w.stack = [] ∧
      w.log = [.acquires (.lock ("save_note",0)),.enters ("save_note",0),.acquires (.slot 1),.ends (.lock ("save_note",0)),
        .ends (.slot 1),.leaves ("save_note",0)] ∧ ¬Sheltered w.log := by
  let w : World := {drawn := 2, log := [.acquires (.lock ("save_note",0)),.enters ("save_note",0),.acquires (.slot 1),
    .ends (.lock ("save_note",0)),.ends (.slot 1),.leaves ("save_note",0)]}
  refine ⟨w,Run.of_foldlM (by decide +kernel),rfl,rfl,fun sheltered => ?_⟩
  have := sheltered [.acquires (.lock ("save_note",0)),.enters ("save_note",0),.acquires (.slot 1)] ("save_note",0)
    [.ends (.slot 1),.leaves ("save_note",0)] rfl (by decide)
  exact absurd this (by decide)

instance (w : World) : (r : Resource) → Decidable (w.vacant r)
  | .lock _ => inferInstanceAs (Decidable (_ ∉ _))
  | .slot _ => .isTrue trivial
  | .record _ => inferInstanceAs (Decidable (_ = _))

instance (frame : Frame) : Decidable frame.writes := inferInstanceAs (Decidable (∃ name ∈ writeTools, _))

instance (w : World) : (e : Event) → Decidable (Proper w e)
  | .before _ => by unfold Proper; dsimp only; infer_instance
  | .after _ _ => by unfold Proper; dsimp only; infer_instance
  | .onError _ => by unfold Proper; dsimp only; infer_instance
  | .call _ | .start | .leave _ | .finish => .isTrue trivial

def failing : List Event :=
  [.call .agent,.before .passes,.before .passes,.before .acts] ++ befores.drop 3 ++ [.start,.call (.tool "update_memory")] ++
    befores ++ [.start,.call .llm] ++ befores ++ [.start,.leave false] ++ afters ++ [.finish,.leave true] ++ onErrors ++
    [.finish,.leave true] ++ onErrors ++ [.finish]

theorem acquired_ended_once_failing :
    ∃ w, failing.foldlM next {} = some w ∧ w.stack = [] ∧ Sheltered w.log ∧
      ∀ r ∈ [Resource.record 0,.lock ("update_memory",1),.slot 2], w.log.count (.ends r) = 1 := by
  have passes : (failing.foldlM (fun w e => if Proper w e then next w e else none) {}).isSome := by decide +kernel
  have run := Run.of_guarded passes
  obtain ⟨sheltered,ended⟩ := acquired_ended_once run
  have computed : failing.foldlM next {} = some ((failing.foldlM next {}).getD {}) := by decide +kernel
  have finished : ((failing.foldlM next {}).getD {}).stack = [] := by decide +kernel
  have acquired : ∀ r ∈ [Resource.record 0,.lock ("update_memory",1),.slot 2],
      .acquires r ∈ ((failing.foldlM next {}).getD {}).log := by decide +kernel
  exact ⟨_,computed,finished,sheltered,fun r member => ended finished r (acquired r member)⟩

end Suixinji.Hooks
