import Suixinji.Facts.Access
import Suixinji.Cache.Stale

/-! When a result that comes out of the cache is one that the requester's own call
could have computed. -/
namespace Suixinji.Cache
open Suixinji.Transition Suixinji.Facts

variable {D C V : Type} {execute : Call C → D → V} {digest : String → String}

def Phase.version? : Phase C V → Option Nat
  | .keyed version => some version
  | _ => none

/-- Besides the conditions on invalidations and stores: what a lookup finds was computed for
the tool, the arguments, the space and the access context of the call. -/
def Shared (digest : String → String) (w : World D C V) (e : Event D C) : Prop :=
  Fresh w e ∧
    match e with
    | .fetch p => ∀ r ∈ w.readers p, ∀ version ∈ r.phase.version?, ∀ entry ∈ w.entries (r.call.key digest version),
        entry.call = r.call
    | _ => True

/-- The value is the result of the call on the state of the database. -/
def Entry.Of (execute : Call C → D → V) (history : List D) (entry : Entry C V) : Prop :=
  ∃ db, history[entry.asOf]? = some db ∧ entry.value = execute entry.call db

structure Honest (execute : Call C → D → V) (w : World D C V) : Prop where
  entries : ∀ key entry, w.entries key = some entry → entry.Of execute w.history
  results : ∀ p r, w.readers p = some r → ∀ entry cached, r.phase.result? = some (entry,cached) →
    entry.Of execute w.history ∧ entry.call = r.call ∧ r.since ≤ entry.asOf

theorem honest_start (db : D) : Honest execute (start db) := ⟨nofun,nofun⟩

variable {w w' : World D C V} {p : Nat} {r : Reader C V}

theorem Honest.move (honest : Honest execute w) (phase : Phase C V)
    (result : ∀ entry cached, phase.result? = some (entry,cached) →
      entry.Of execute w.history ∧ entry.call = r.call ∧ r.since ≤ entry.asOf) : Honest execute (w.move p r phase) where
  entries := honest.entries
  results q r' found := by
    rcases readers_move found with ⟨_,rfl⟩ | old
    · exact result
    · exact honest.results q r' old

theorem Entry.Of.commit {history : List D} {entry : Entry C V} (true_entry : entry.Of execute history) (db : D) :
    entry.Of execute (history ++ [db]) := by
  obtain ⟨state,found,same⟩ := true_entry
  obtain ⟨inside,_⟩ := List.getElem?_eq_some_iff.mp found
  exact ⟨state,by rw [List.getElem?_append_left inside,found],same⟩

theorem honest_step {e : Event D C} {born : String → Nat → Nat} (bounds : Bounds w born) (honest : Honest execute w)
    (shared : Shared digest w e) (step : Step execute digest w e w') : Honest execute w' := by
  unfold Step at step
  cases e with
  | commit db =>
    cases step
    refine ⟨fun key entry found => (honest.entries key entry found).commit db,fun p r found entry cached result => ?_⟩
    obtain ⟨of,rest⟩ := honest.results p r found entry cached result
    exact ⟨of.commit db,rest⟩
  | invalidate tenant space applied =>
    cases step
    cases applied with
    | true => exact ⟨honest.entries,honest.results⟩
    | false => exact ⟨honest.entries,honest.results⟩
  | begin p call =>
    cases step
    refine ⟨honest.entries,fun q r found => ?_⟩
    by_cases same : q = p
    · subst same
      simp only [Function.update_self,Option.some.injEq] at found
      subst found
      intro entry cached result
      cases result
    · exact honest.results q r (by simpa [Function.update_of_ne same] using found)
  | readVersion p =>
    obtain ⟨r,here,step⟩ := Option.bind_eq_some_iff.mp step
    split at step
    · obtain ⟨_,step⟩ := Option.ite_none_right_eq_some.mp step
      cases step
      exact honest.move _ (by simp [Phase.result?])
    · cases step
  | fetch p =>
    obtain ⟨r,here,step⟩ := Option.bind_eq_some_iff.mp step
    split at step
    · rename_i version phase
      obtain ⟨entry,found,step⟩ := Option.bind_eq_some_iff.mp step
      cases step
      refine honest.move _ (fun entry' cached same => ?_)
      cases same
      have own := shared.2 r here version (by rw [phase]; rfl) entry found
      have fit := (bounds.readers p r here).2
      simp only [Reader.Fit,phase] at fit
      exact ⟨honest.entries _ entry found,own,Nat.le_trans fit.2 (bounds.entries _ entry found part_default).2⟩
    · cases step
  | miss p =>
    obtain ⟨r,here,step⟩ := Option.bind_eq_some_iff.mp step
    split at step
    · cases step
      exact honest.move _ (by simp [Phase.result?])
    · cases step
      exact honest.move _ (by simp [Phase.result?])
    · cases step
  | execute p =>
    obtain ⟨r,here,step⟩ := Option.bind_eq_some_iff.mp step
    split at step
    · obtain ⟨db,current,step⟩ := Option.bind_eq_some_iff.mp step
      cases step
      refine honest.move _ (fun entry cached same => ?_)
      cases same
      rw [List.getLast?_eq_getElem?] at current
      exact ⟨⟨db,current,rfl⟩,rfl,Nat.le_trans (bounds.readers p r here).1 (bounds.recent _)⟩
    · cases step
  | readStoreVersion p =>
    obtain ⟨r,here,step⟩ := Option.bind_eq_some_iff.mp step
    split at step
    · rename_i phase
      obtain ⟨_,step⟩ := Option.ite_none_right_eq_some.mp step
      cases step
      exact honest.move _ (fun entry cached same => honest.results p r here entry cached (by rw [phase]; exact same))
    · cases step
  | store p =>
    obtain ⟨r,here,step⟩ := Option.bind_eq_some_iff.mp step
    split at step
    · rename_i entry cached version phase
      cases step
      have mine := honest.results p r here entry cached (by rw [phase]; rfl)
      have stored : Honest execute {w with entries := Function.update w.entries (r.call.key digest version) (some entry)} := by
        refine ⟨fun key entry' found => ?_,honest.results⟩
        by_cases same : key = r.call.key digest version
        · subst same
          simp only [Function.update_self,Option.some.injEq] at found
          exact found ▸ mine.1
        · exact honest.entries key entry' (by simpa [Function.update_of_ne same] using found)
      exact stored.move _ (fun entry' cached' same => honest.results p r here entry' cached' (by rw [phase]; exact same))
    · cases step
  | finish p =>
    obtain ⟨r,here,step⟩ := Option.bind_eq_some_iff.mp step
    split at step
    · rename_i phase
      cases step
      exact honest.move _ (fun entry cached same => honest.results p r here entry cached (by rw [phase]; exact same))
    · rename_i phase
      cases step
      exact honest.move _ (fun entry cached same => honest.results p r here entry cached (by rw [phase]; exact same))
    · cases step
  | expire key =>
    cases step
    refine ⟨fun key' entry found => ?_,honest.results⟩
    by_cases same : key' = key
    · subst same
      simp at found
    · exact honest.entries key' entry (by simpa [Function.update_of_ne same] using found)

/-- Under the conditions a result that is returned is the result of the requester's own call on a
state of the database since the last invalidation before the call, so that it shows what that
call may show. -/
theorem result_of_own_call {db : D} {es : List (Event D C)}
    (run : Run (Guarded (Shared digest) (Step execute digest)) (start db) es w) :
    ∀ p r, w.readers p = some r → ∀ entry cached, r.phase = .returned entry cached →
      (∃ i, ∃ state, r.since ≤ i ∧ w.history[i]? = some state ∧ entry.value = execute r.call state) ∧
        ∀ allowed : C → V → Prop, (∀ call state, allowed call.access (execute call state)) → allowed r.call.access entry.value := by
  have kept : (∃ born, Bounds w born) ∧ Honest execute w := by
    refine run.invariant (fun w => (∃ born, Bounds w born) ∧ Honest execute w) ?_ ⟨⟨_,bounds_start db⟩,honest_start db⟩
    rintro w e w' ⟨⟨born,bounds⟩,honest⟩ ⟨shared,step⟩
    exact ⟨bounds_step bounds shared.1 step,honest_step bounds honest shared step⟩
  intro p r here entry cached phase
  obtain ⟨⟨state,found,computed⟩,own,since⟩ := kept.2.results p r here entry cached (by rw [phase]; rfl)
  rw [own] at computed
  exact ⟨⟨entry.asOf,state,since,found,computed⟩,fun allowed respected => computed ▸ respected r.call state⟩

/-- Memory rows and their access attributes. -/
abbrev Rows := List (String × Scope)

/-- A search that returns the rows its requester may read. -/
def readableRows (call : Call Supplied) (rows : Rows) : Rows :=
  rows.filter (fun row => memoryAccessAllowed asciiLibrary row.2 call.access)

def secretRow : Rows := [("salary",[("sensitivity",some "high")])]

def asked (access : Supplied) : Call Supplied := ⟨"search_memories","room","{}",access⟩

def cleared : Supplied := .context { allowSensitive := true }

def visitor : Supplied := .context { requester := some "visitor" }

/-- A call without the cache. -/
def computes (p : Nat) (access : Supplied) : List (Event Rows Supplied) :=
  [.begin p (asked access),.readVersion p,.miss p,.execute p,.readStoreVersion p,.store p]

def finds (p : Nat) (access : Supplied) : List (Event Rows Supplied) :=
  [.begin p (asked access),.readVersion p,.fetch p,.finish p]

/-- The visitor is given what the requester with clearance has stored. -/
theorem foreign_result_found :
    ∃ w, Run (Step readableRows id) (start secretRow) (computes 0 cleared ++ finds 1 visitor) w ∧
      ∃ r entry, w.readers 1 = some r ∧ r.phase = .returned entry true ∧
        (∀ rows ∈ w.history, entry.value ≠ readableRows r.call rows) ∧
        ∃ row ∈ entry.value, ¬memoryAccessAllowed asciiLibrary row.2 r.call.access := by
  have passes : ((computes 0 cleared ++ finds 1 visitor).foldlM (next readableRows id) (start secretRow)).isSome := by
    decide +kernel
  refine ⟨_,Run.of_isSome passes,⟨asked visitor,0,.returned ⟨secretRow,asked cleared,0⟩ true⟩,⟨secretRow,asked cleared,0⟩,?_,rfl,?_,?_⟩
  · decide +kernel
  · decide +kernel
  · decide +kernel

instance [DecidableEq C] (digest : String → String) (w : World D C V) : (e : Event D C) → Decidable (Shared digest w e)
  | .invalidate .. => by unfold Shared Fresh; dsimp only; infer_instance
  | .readStoreVersion _ => by unfold Shared Fresh; dsimp only; infer_instance
  | .fetch _ => by unfold Shared Fresh; dsimp only; infer_instance
  | .commit _ | .begin .. | .readVersion _ | .miss _ | .execute _ | .store _ | .finish _ | .expire _ =>
    .isTrue ⟨trivial,trivial⟩

theorem result_of_own_call_visitor :
    ∃ w, Run (Step readableRows id) (start secretRow) (computes 0 visitor ++ finds 1 visitor) w ∧
      ∃ r entry, w.readers 1 = some r ∧ r.phase = .returned entry true ∧
        ∃ i, ∃ rows, r.since ≤ i ∧ w.history[i]? = some rows ∧ entry.value = readableRows r.call rows := by
  have passes : ((computes 0 visitor ++ finds 1 visitor).foldlM
      (fun w e => if Shared id w e then next readableRows id w e else none) (start secretRow)).isSome := by decide +kernel
  have run := Run.of_guarded passes
  refine ⟨_,run.imp (fun _ _ _ step => step.2),⟨asked visitor,0,.returned ⟨[],asked visitor,0⟩ true⟩,⟨[],asked visitor,0⟩,
    by decide +kernel,rfl,?_⟩
  exact (result_of_own_call run 1 ⟨asked visitor,0,.returned ⟨[],asked visitor,0⟩ true⟩ (by decide +kernel) _ true rfl).1

end Suixinji.Cache
