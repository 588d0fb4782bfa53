import Mathlib.Data.List.Nodup
import Suixinji.Hooks.Run

/-! What has been acquired on a context is registered or has been ended, and the
releases of one hook method keep it so. -/
namespace Suixinji.Hooks
open Suixinji.Coordination

/-- A lock under which a callable has started is released after it has ended. -/
def Sheltered (log : List Act) : Prop :=
  ∀ before lock after, log = before ++ .ends (.lock lock)::after → .enters lock ∈ before → .leaves lock ∈ before

def Resource.number : Resource → Nat
  | .lock entry => entry.2
  | .slot n | .record n => n

def Act.number : Act → Nat
  | .acquires r | .ends r => r.number
  | .enters lock | .leaves lock => lock.2

/-- How often the resource is registered. -/
def World.holds (w : World) : Resource → Nat
  | .lock entry => w.locks.count entry
  | .slot n => w.slots.count n
  | .record n => if w.record = some n then 1 else 0

structure Books (w : World) : Prop where
  keys : (w.locks.map Prod.fst).Nodup
  fresh : ∀ act ∈ w.log, act.number < w.drawn
  balance : ∀ r, w.log.count (.ends r) + w.holds r = w.log.count (.acquires r)
  once : ∀ r, w.log.count (.acquires r) ≤ 1
  sheltered : Sheltered w.log

theorem Sheltered.append {log : List Act} {act : Act} (sheltered : Sheltered log)
    (last : ∀ lock, act = .ends (.lock lock) → .enters lock ∈ log → .leaves lock ∈ log) : Sheltered (log ++ [act]) := by
  intro before lock after split entered
  rcases List.eq_nil_or_concat after with rfl | ⟨rest,a,rfl⟩
  · obtain ⟨rfl,same⟩ := List.append_inj' split rfl
    exact last lock (List.head_eq_of_cons_eq same) entered
  · rw [List.concat_eq_append,← List.cons_append,← List.append_assoc] at split
    exact sheltered before lock rest (List.append_inj' split rfl).1 entered

theorem Books.held_le {w : World} (books : Books w) (r : Resource) : w.holds r ≤ 1 := by
  have := books.balance r
  have := books.once r
  omega

theorem Books.acquired_of_held {w : World} (books : Books w) {r : Resource} (held : 0 < w.holds r) : .acquires r ∈ w.log := by
  have := books.balance r
  exact List.count_pos_iff.mp (by omega)

theorem Books.noted {w w' : World} (books : Books w) (act : Act) (known : act.number < w.drawn)
    (plain : ∀ r, act ≠ .acquires r ∧ act ≠ .ends r) (locks : w'.locks = w.locks) (log : w'.log = w.log ++ [act])
    (drawn : w'.drawn = w.drawn) (holds : ∀ r, w'.holds r = w.holds r) : Books w' where
  keys := by
    rw [locks]
    exact books.keys
  fresh := by
    rw [log,drawn]
    intro a member
    rcases List.mem_append.mp member with old | new
    · exact books.fresh a old
    · rwa [List.mem_singleton.mp new]
  balance r := by
    rw [log,holds,List.count_append,List.count_append,List.count_singleton,List.count_singleton]
    simpa [plain r] using books.balance r
  once r := by
    rw [log,List.count_append,List.count_singleton]
    simpa [plain r] using books.once r
  sheltered := by
    rw [log]
    exact books.sheltered.append (fun lock same => absurd same (plain (.lock lock)).2)

theorem Books.acquire {w w' : World} (books : Books w) {r : Resource} (new : r.number = w.drawn)
    (keys : (w'.locks.map Prod.fst).Nodup) (log : w'.log = w.log ++ [.acquires r]) (drawn : w'.drawn = w.drawn + 1)
    (holds : ∀ s, w'.holds s = w.holds s + if r = s then 1 else 0) : Books w' where
  keys := keys
  fresh := by
    rw [log,drawn]
    intro a member
    rcases List.mem_append.mp member with old | last
    · exact Nat.lt_succ_of_lt (books.fresh a old)
    · rw [List.mem_singleton.mp last]
      exact new ▸ Nat.lt_succ_self _
  balance s := by
    rw [log,holds,List.count_append,List.count_append,List.count_singleton,List.count_singleton]
    have := books.balance s
    by_cases same : r = s <;> simp [same] <;> omega
  once s := by
    rw [log,List.count_append,List.count_singleton]
    by_cases same : r = s
    · subst same
      have absent : .acquires r ∉ w.log := fun member => by
        have := books.fresh _ member
        simp only [Act.number] at this
        omega
      simp [List.count_eq_zero.mpr absent]
    · simpa [same] using books.once s
  sheltered := by
    rw [log]
    exact books.sheltered.append nofun

theorem holds_drop {w : World} (keys : (w.locks.map Prod.fst).Nodup) {r : Resource} (held : 0 < w.holds r) (s : Resource) :
    (w.drop r).holds s + (if r = s then 1 else 0) = w.holds s := by
  cases r with
  | slot n =>
    cases s with
    | slot m =>
      have present : n ∈ w.slots := List.count_pos_iff.mp held
      by_cases same : n = m
      · subst same
        have : 0 < w.slots.count n := held
        simp only [World.holds,World.drop,List.count_erase_self,if_pos]
        omega
      · simp [World.holds,World.drop,List.count_erase_of_ne (Ne.symm same),same]
    | lock | record => rfl
  | record n =>
    have here : w.record = some n := by
      by_contra other
      simp [World.holds,other] at held
    cases s with
    | record m => simp [World.holds,World.drop,here]
    | lock | slot => rfl
  | lock entry =>
    cases s with
    | slot | record => rfl
    | lock other =>
      have present : entry ∈ w.locks := List.count_pos_iff.mp held
      have distinct : w.locks.Nodup := .of_map Prod.fst keys
      by_cases same : entry.1 = other.1
      · have gone : other ∉ w.locks.filter (·.1 ≠ entry.1) := by simp [same]
        simp only [World.holds,World.drop,List.count_eq_zero.mpr gone,Resource.lock.injEq,Nat.zero_add]
        by_cases equal : entry = other
        · rw [if_pos equal,← equal,List.count_eq_one_of_mem distinct present]
        · rw [if_neg equal,List.count_eq_zero.mpr]
          exact fun twice => equal (List.inj_on_of_nodup_map keys present twice same)
      · have kept : other.1 ≠ entry.1 := Ne.symm same
        have differ : entry ≠ other := fun equal => same (equal ▸ rfl)
        simp [World.holds,World.drop,List.count_filter,kept,differ]

theorem Books.release {w : World} (books : Books w) {r : Resource} {answer : Answer} (held : 0 < w.holds r)
    (answered : answer ≠ .failed) (closed : ∀ lock, r = .lock lock → .enters lock ∈ w.log → .leaves lock ∈ w.log) : Books (w.release r answer) := by
  have log : (w.release r answer).log = w.log ++ [.ends r] := if_neg answered
  have same : ∀ s, (w.release r answer).holds s = (w.drop r).holds s := fun s => by cases s <;> rfl
  refine ⟨?_,?_,?_,?_,?_⟩
  · cases r with
    | lock entry => exact books.keys.sublist (List.Sublist.map _ List.filter_sublist)
    | slot n => exact books.keys
    | record n => exact books.keys
  · have drawn : (w.release r answer).drawn = w.drawn := by cases r <;> rfl
    rw [log,drawn]
    intro a member
    rcases List.mem_append.mp member with old | last
    · exact books.fresh a old
    · rw [List.mem_singleton.mp last]
      exact books.fresh (.acquires r) (books.acquired_of_held held)
  · intro s
    have := holds_drop books.keys held s
    have := books.balance s
    rw [log,same,List.count_append,List.count_append,List.count_singleton,List.count_singleton]
    by_cases equal : r = s <;> simp [equal] at * <;> omega
  · intro s
    rw [log,List.count_append,List.count_singleton]
    simpa using books.once s
  · rw [log]
    exact books.sheltered.append (fun lock last => closed lock (Act.ends.inj last))

variable {w w' : World} {hook : Hook} {answers : Resource → Answer} {due : List Resource}

theorem releaseAll_kept {α : Type} (f : World → α) (kept : ∀ r ∈ due, ∀ w answer, f (w.release r answer) = f w) :
    f (w.releaseAll hook answers due).1 = f w := by
  induction due generalizing w with
  | nil => rfl
  | cons r rest ih =>
    have first := kept r (List.mem_cons_self ..) w (answers r)
    unfold World.releaseAll
    split
    · rw [ih (fun s member => kept s (List.mem_cons_of_mem _ member)),first]
    · exact first

theorem releaseAll_single (r : Resource) : (w.releaseAll hook answers [r]).1 = w.release r (answers r) := by
  unfold World.releaseAll
  split <;> rfl

theorem releaseAll_slots {slots : List Nat} (all : w.slots = slots) :
    (w.releaseAll .llmUsage answers (slots.map .slot)).1.slots = [] := by
  induction slots generalizing w with
  | nil => exact all
  | cons n rest ih =>
    rw [List.map_cons,World.releaseAll,if_pos (.inr rfl)]
    apply ih
    change w.slots.erase n = rest
    rw [all,List.erase_cons_head]

theorem release_notes (r : Resource) (answer : Answer) {act : Act} (note : ∀ s, act ≠ .ends s) :
    act ∈ (w.release r answer).log ↔ act ∈ w.log := by
  unfold World.release
  split <;> simp [note]

theorem releaseAll_notes {act : Act} (note : ∀ s, act ≠ .ends s) :
    act ∈ (w.releaseAll hook answers due).1.log ↔ act ∈ w.log :=
  iff_of_eq (releaseAll_kept (fun w => act ∈ w.log) (fun r _ _ answer => propext (release_notes r answer note)))

theorem Books.releaseAll (books : Books w) (distinct : due.Nodup) (held : ∀ r ∈ due, 0 < w.holds r)
    (answered : ∀ r ∈ due, answers r ≠ .failed)
    (closed : ∀ lock, .lock lock ∈ due → .enters lock ∈ w.log → .leaves lock ∈ w.log) :
    Books (w.releaseAll hook answers due).1 := by
  induction due generalizing w with
  | nil => exact books
  | cons r rest ih =>
    obtain ⟨absent,distinct⟩ := List.nodup_cons.mp distinct
    have first := List.mem_cons_self (a := r) (l := rest)
    have released : Books (w.release r (answers r)) :=
      books.release (held r first) (answered r first) (fun lock same => closed lock (same ▸ first))
    unfold World.releaseAll
    split
    · refine ih released distinct ?_ (fun s member => answered s (.tail _ member)) ?_
      · intro s member
        have other : r ≠ s := fun same => absent (same ▸ member)
        have kept := holds_drop books.keys (held r first) s
        rw [if_neg other,Nat.add_zero] at kept
        have same : (w.release r (answers r)).holds s = (w.drop r).holds s := by cases s <;> rfl
        rw [same,kept]
        exact held s (.tail _ member)
      · intro lock member
        rw [release_notes r _ (by simp),release_notes r _ (by simp)]
        exact closed lock (.tail _ member)
    · exact released

theorem Books.locks_distinct (books : Books w) : w.locks.Nodup := .of_map Prod.fst books.keys

theorem Books.slots_distinct (books : Books w) : w.slots.Nodup :=
  List.nodup_iff_count_le_one.mpr (fun n => books.held_le (.slot n))

/-- What a hook releases at the end of a call, be it an `after` method or `on_error`. -/
inductive Releases (w : World) (hook : Hook) (scope : Scope) : List Resource → Prop
  | locks (l : List Lock) (here : l.Sublist w.locks) (named : hook = .spaceLock) : Releases w hook scope (l.map .lock)
  | slots (named : hook = .llmUsage) : Releases w hook scope (w.slots.map .slot)
  | record (named : hook = .idempotency) : Releases w hook scope (w.record.toList.map .record)
  | nothing (llm : ¬(hook = .llmUsage ∧ scope = .llm)) (agent : ¬(hook = .idempotency ∧ scope = .agent)) :
    Releases w hook scope []

theorem releases_dueAfter (scope : Scope) : Releases w hook scope (w.dueAfter hook scope) := by
  unfold World.dueAfter
  split
  · exact .locks _ List.filter_sublist rfl
  · exact .slots rfl
  · exact .record rfl
  · rename_i llm agent
    exact .nothing (fun same => llm same.1 same.2) (fun same => agent same.1 same.2)

theorem releases_dueOnError (scope : Scope) : Releases w hook scope (w.dueOnError hook scope) := by
  unfold World.dueOnError
  split
  · exact .locks _ (List.Sublist.refl _) rfl
  · exact .slots rfl
  · exact .slots rfl
  · exact .record rfl
  · rename_i llm _ agent
    exact .nothing (fun same => llm same.1 same.2) (fun same => agent same.1 same.2)

theorem Releases.distinct {scope : Scope} (releases : Releases w hook scope due) (books : Books w) : due.Nodup := by
  cases releases with
  | locks l here _ => exact (books.locks_distinct.sublist here).map (fun _ _ => Resource.lock.inj)
  | slots _ => exact books.slots_distinct.map (fun _ _ => Resource.slot.inj)
  | record _ => cases w.record <;> simp
  | nothing => exact .nil

theorem Releases.held {scope : Scope} (releases : Releases w hook scope due) : ∀ r ∈ due, 0 < w.holds r := by
  intro r member
  cases releases with
  | locks l here _ =>
    obtain ⟨lock,there,rfl⟩ := List.mem_map.mp member
    exact List.count_pos_iff.mpr (here.subset there)
  | slots _ =>
    obtain ⟨n,there,rfl⟩ := List.mem_map.mp member
    exact List.count_pos_iff.mpr there
  | record _ =>
    obtain ⟨n,there,rfl⟩ := List.mem_map.mp member
    simp [World.holds,Option.mem_toList.mp there]
  | nothing => cases member

theorem Releases.keeps_locks {scope : Scope} (releases : Releases w hook scope due) (other : hook ≠ .spaceLock) :
    (w.releaseAll hook answers due).1.locks = w.locks := by
  refine releaseAll_kept World.locks (fun r member w answer => ?_)
  cases releases with
  | locks _ _ named => exact absurd named other
  | slots _ =>
    obtain ⟨n,_,rfl⟩ := List.mem_map.mp member
    rfl
  | record _ =>
    obtain ⟨n,_,rfl⟩ := List.mem_map.mp member
    rfl
  | nothing => cases member

theorem Releases.slots_left {scope : Scope} (releases : Releases w hook scope due)
    (left : (w.releaseAll hook answers due).1.slots ≠ []) : w.slots ≠ [] ∧ ¬(hook = .llmUsage ∧ scope = .llm) := by
  cases releases with
  | locks l _ named =>
    rw [releaseAll_kept World.slots (fun r member w answer => by
      obtain ⟨lock,_,rfl⟩ := List.mem_map.mp member
      rfl)] at left
    exact ⟨left,by simp [named]⟩
  | slots named =>
    subst named
    exact absurd (releaseAll_slots rfl) left
  | record named =>
    rw [releaseAll_kept World.slots (fun r member w answer => by
      obtain ⟨n,_,rfl⟩ := List.mem_map.mp member
      rfl)] at left
    exact ⟨left,by simp [named]⟩
  | nothing llm _ => exact ⟨left,llm⟩

theorem Releases.record_left {scope : Scope} (releases : Releases w hook scope due)
    (left : (w.releaseAll hook answers due).1.record ≠ none) : w.record ≠ none ∧ ¬(hook = .idempotency ∧ scope = .agent) := by
  cases releases with
  | locks l _ named =>
    rw [releaseAll_kept World.record (fun r member w answer => by
      obtain ⟨lock,_,rfl⟩ := List.mem_map.mp member
      rfl)] at left
    exact ⟨left,by simp [named]⟩
  | slots named =>
    rw [releaseAll_kept World.record (fun r member w answer => by
      obtain ⟨n,_,rfl⟩ := List.mem_map.mp member
      rfl)] at left
    exact ⟨left,by simp [named]⟩
  | record named =>
    exfalso
    cases here : w.record with
    | none =>
      rw [here] at left
      exact left here
    | some n =>
      rw [here] at left
      change (w.releaseAll hook answers [.record n]).1.record ≠ none at left
      rw [releaseAll_single] at left
      exact left rfl
  | nothing _ agent => exact ⟨left,agent⟩

end Suixinji.Hooks
