import Mathlib.Algebra.Order.Ring.Rat
import Mathlib.Tactic.Linarith
import Suixinji.Relational.Rotation

/-! The pool of API keys (core/llm_key_pool.py), in exact arithmetic. -/
namespace Suixinji.Coordination.KeyPool
open Suixinji.Rotation

/-- `_KeyState`. -/
structure KeyState where
  key : String
  cooldownUntil : ℚ := 0
  failures : Nat := 0
  successes : Nat := 0
  deriving DecidableEq, Inhabited

structure APIKeyPool where
  states : List KeyState
  cursor : Nat := 0
  defaultCooldownSeconds : ℚ
  failureCooldownSeconds : ℚ

/-- `__init__`, with the two settings of the environment. -/
def APIKeyPool.new (keys : List String) (cooldown failureCooldown : ℚ) : APIKeyPool :=
  { states := keys.map (fun key => {key})
    defaultCooldownSeconds := max 1 cooldown
    failureCooldownSeconds := max 0 failureCooldown }

/-- The categories of a failure that the pool tells apart. -/
inductive Category where
  | insufficientBalance
  | rateLimit
  | connectionError
  | serverError
  | other
  deriving DecidableEq

namespace APIKeyPool

def stateAt (p : APIKeyPool) (index : Nat) : KeyState := p.states.getD index default

def ordered (p : APIKeyPool) : List Nat :=
  (List.range p.states.length).map (fun offset => (p.cursor + offset) % p.states.length)

def candidates (p : APIKeyPool) (exclude : List String) : List Nat :=
  let fresh := p.ordered.filter (fun index => (p.stateAt index).key ∉ exclude)
  if fresh = [] then p.ordered else fresh

def acquire (p : APIKeyPool) (exclude : List String) (now : ℚ) : (Option String × ℚ) × APIKeyPool :=
  if p.states = [] then ((none,0),p)
  else
    match (p.candidates exclude).filter (fun index => (p.stateAt index).cooldownUntil ≤ now) with
    | index::_ => ((some (p.stateAt index).key,0),{p with cursor := (index + 1) % p.states.length})
    | [] =>
      let earliest := ((p.candidates exclude).map (fun index => (p.stateAt index).cooldownUntil)).min?.getD 0
      ((none,max 0 (earliest - now)),p)

def change (f : KeyState → KeyState) (key : String) : List KeyState → List KeyState
  | [] => []
  | s::states => if s.key = key then f s::states else s::change f key states

def succeeded (s : KeyState) : KeyState := {s with successes := s.successes + 1,failures := 0}

def reportSuccess (p : APIKeyPool) (key : Option String) : APIKeyPool :=
  match key with
  | none | some "" => p
  | some key => {p with states := change succeeded key p.states}

/-- The end of the cooldown after a failure, with the value drawn by `random.uniform`. -/
def cooled (p : APIKeyPool) (now : ℚ) (category : Category) (retryAfter : Option ℚ) (jitter : ℚ) (until_ : ℚ) : ℚ :=
  match category with
  | .insufficientBalance => max until_ (now + 1800)
  | .rateLimit => max until_ (now + max 0 (retryAfter.getD p.defaultCooldownSeconds * (1 + jitter)))
  | .connectionError | .serverError =>
    if p.failureCooldownSeconds ≠ 0 then max until_ (now + p.failureCooldownSeconds) else until_
  | .other => until_

def failed (p : APIKeyPool) (now : ℚ) (category : Category) (retryAfter : Option ℚ) (jitter : ℚ) (s : KeyState) : KeyState :=
  {s with failures := s.failures + 1,cooldownUntil := p.cooled now category retryAfter jitter s.cooldownUntil}

def reportFailure (p : APIKeyPool) (now : ℚ) (key : Option String) (category : Category) (retryAfter : Option ℚ) (jitter : ℚ) :
    APIKeyPool :=
  match key with
  | none | some "" => p
  | some key => {p with states := change (p.failed now category retryAfter jitter) key p.states}

def hasAlternative (p : APIKeyPool) (used : List String) (now : ℚ) : Bool :=
  p.states.any (fun s => s.key ∉ used && s.cooldownUntil ≤ now)

end APIKeyPool

/-! ### Histories -/

inductive Call where
  | acquire (exclude : List String)
  | reportSuccess (key : Option String)
  | reportFailure (key : Option String) (category : Category) (retryAfter : Option ℚ) (jitter : ℚ)

def Call.isFailure : Call → Bool
  | .reportFailure .. => true
  | _ => false

/-- A call with the reading of the clock it makes. -/
structure Timed where
  now : ℚ
  call : Call

namespace APIKeyPool

def step (p : APIKeyPool) (e : Timed) : APIKeyPool :=
  match e.call with
  | .acquire exclude => (p.acquire exclude e.now).2
  | .reportSuccess key => p.reportSuccess key
  | .reportFailure key category retryAfter jitter => p.reportFailure e.now key category retryAfter jitter

def run (p : APIKeyPool) (history : List Timed) : APIKeyPool := history.foldl step p

def answer (p : APIKeyPool) (e : Timed) : Option String :=
  match e.call with
  | .acquire exclude => (p.acquire exclude e.now).1.1
  | _ => none

/-- The keys that a sequence of calls returns. -/
def returned (p : APIKeyPool) : List Timed → List String
  | [] => []
  | e::es => (p.answer e).toList ++ (p.step e).returned es

def cooldown (p : APIKeyPool) (key : String) : ℚ := ((p.states.find? (·.key = key)).map KeyState.cooldownUntil).getD 0

end APIKeyPool

/-- The keys that an `acquire` may return as far as the exclusion goes. -/
def Candidate (keys exclude : List String) (key : String) : Prop := key ∈ keys ∧ (key ∉ exclude ∨ ∀ k ∈ keys, k ∈ exclude)

structure Fair (keys : List String) (p : APIKeyPool) : Prop where
  taken : ∀ exclude now key wait, (p.acquire exclude now).1 = (some key,wait) → Candidate keys exclude key ∧ p.cooldown key ≤ now
  refused : ∀ exclude now wait, (p.acquire exclude now).1 = (none,wait) →
    (∀ key, Candidate keys exclude key → now < p.cooldown key) ∧
      ∀ es : List Timed, (∀ e ∈ es, e.call.isFailure = false) → ∀ later, now + wait ≤ later →
        ((((p.acquire exclude now).2.run es).acquire exclude later).1.1).isSome
  forward : ∀ es : List Timed, ∀ key ∈ keys, p.cooldown key ≤ (p.run es).cooldown key
  rotates : ∀ es : List Timed, (∀ e ∈ es, e.call = .acquire [] ∨ ∃ key, e.call = .reportSuccess key) →
    ∀ a ∈ keys, ∀ b ∈ keys, (∀ e ∈ es, e.call = .acquire [] → p.cooldown a ≤ e.now ∧ p.cooldown b ≤ e.now) →
      (p.returned es).count a ≤ (p.returned es).count b + 1

/-! ### What a call changes -/

namespace APIKeyPool

variable {p : APIKeyPool} {keys exclude : List String} {now : ℚ}

theorem keys_change (f : KeyState → KeyState) (same : ∀ s, (f s).key = s.key) (key : String) (states : List KeyState) :
    (change f key states).map KeyState.key = states.map KeyState.key := by
  induction states with
  | nil => rfl
  | cons s states ih =>
    unfold change
    split
    · rw [List.map_cons,List.map_cons,same]
    · rw [List.map_cons,List.map_cons,ih]

theorem find?_change {f : KeyState → KeyState} (same : ∀ s, (f s).key = s.key) (key k : String) (states : List KeyState) :
    (change f key states).find? (·.key = k) = (states.find? (·.key = k)).map (if k = key then f else id) := by
  induction states with
  | nil => rfl
  | cons s states ih =>
    unfold change
    by_cases here : s.key = key
    · rw [if_pos here]
      by_cases found : s.key = k
      · rw [List.find?_cons_of_pos (by simpa [same] using found),List.find?_cons_of_pos (by simpa using found),
          if_pos (found.symm.trans here)]
        rfl
      · have apart : ¬k = key := fun h => found (here.trans h.symm)
        rw [List.find?_cons_of_neg (by simpa [same] using found),List.find?_cons_of_neg (by simpa using found),
          if_neg apart,Option.map_id]
        rfl
    · rw [if_neg here]
      by_cases found : s.key = k
      · have apart : ¬k = key := fun h => here (found.trans h)
        rw [List.find?_cons_of_pos (by simpa using found),List.find?_cons_of_pos (by simpa using found),if_neg apart]
        rfl
      · rw [List.find?_cons_of_neg (by simpa using found),List.find?_cons_of_neg (by simpa using found),ih]

theorem le_cooled (until_ : ℚ) (category : Category) (retryAfter : Option ℚ) (jitter : ℚ) :
    until_ ≤ p.cooled now category retryAfter jitter until_ := by
  cases category with
  | insufficientBalance | rateLimit => exact le_max_left _ _
  | connectionError | serverError =>
    unfold cooled
    dsimp only
    split
    · exact le_max_left _ _
    · exact le_rfl
  | other => exact le_rfl

/-- A call keeps the keys, moves no cooldown back, and moves none unless it reports a failure. -/
structure Keeps (p p' : APIKeyPool) (failed : Bool) : Prop where
  keys : p'.states.map KeyState.key = p.states.map KeyState.key
  forward : ∀ key, p.cooldown key ≤ p'.cooldown key
  still : failed = false → ∀ key, p'.cooldown key = p.cooldown key

theorem Keeps.refl (failed : Bool) : Keeps p p failed := ⟨rfl,fun _ => le_rfl,fun _ _ => rfl⟩

theorem keeps_acquire (failed : Bool) : Keeps p (p.acquire exclude now).2 failed := by
  unfold acquire
  split
  · exact .refl _
  · split
    · exact ⟨rfl,fun _ => le_rfl,fun _ _ => rfl⟩
    · exact .refl _

theorem keeps_change (f : KeyState → KeyState) (same : ∀ s, (f s).key = s.key) (forward : ∀ s, s.cooldownUntil ≤ (f s).cooldownUntil)
    {failed : Bool} (still : failed = false → ∀ s, (f s).cooldownUntil = s.cooldownUntil) (key : String) :
    Keeps p {p with states := change f key p.states} failed := by
  refine ⟨keys_change f same key p.states,fun k => ?_,fun unfailed k => ?_⟩
  all_goals
    unfold cooldown
    dsimp only
    rw [find?_change same]
    cases p.states.find? (·.key = k) with
    | none => rfl
    | some s =>
      by_cases here : k = key
      · rw [if_pos here]
        first | exact forward s | exact still unfailed s
      · rw [if_neg here]
        rfl

theorem keeps_step (e : Timed) : Keeps p (p.step e) e.call.isFailure := by
  obtain ⟨now,call⟩ := e
  cases call with
  | acquire exclude => exact keeps_acquire _
  | reportSuccess key =>
    change Keeps p (p.reportSuccess key) false
    unfold reportSuccess
    split
    · exact .refl _
    · exact .refl _
    · exact keeps_change succeeded (fun _ => rfl) (fun _ => le_rfl) (fun _ _ => rfl) _
  | reportFailure key category retryAfter jitter =>
    change Keeps p (p.reportFailure now key category retryAfter jitter) true
    unfold reportFailure
    split
    · exact .refl _
    · exact .refl _
    · exact keeps_change (p.failed now category retryAfter jitter) (fun _ => rfl)
        (fun s => le_cooled s.cooldownUntil category retryAfter jitter) (fun unfailed => absurd unfailed (by decide)) _

theorem keeps_run (es : List Timed) : (p.run es).states.map KeyState.key = p.states.map KeyState.key ∧
    (∀ key, p.cooldown key ≤ (p.run es).cooldown key) ∧
    ((∀ e ∈ es, e.call.isFailure = false) → ∀ key, (p.run es).cooldown key = p.cooldown key) := by
  induction es generalizing p with
  | nil => exact ⟨rfl,fun _ => le_rfl,fun _ _ => rfl⟩
  | cons e es ih =>
    obtain ⟨keys,forward,still⟩ := keeps_step (p := p) e
    obtain ⟨keys',forward',still'⟩ := ih (p := p.step e)
    refine ⟨keys'.trans keys,fun key => (forward key).trans (forward' key),fun unfailed key => ?_⟩
    have first := unfailed e List.mem_cons_self
    have rest : ∀ e ∈ es, e.call.isFailure = false := fun e inside => unfailed e (List.mem_cons_of_mem _ inside)
    exact (still' rest key).trans (still first key)

/-! ### The order of the keys from the cursor -/

theorem ordered_eq : p.ordered = (List.range p.states.length).rotate p.cursor := by
  apply List.ext_getElem
  · simp [ordered]
  · intro i _ _
    simp [ordered,List.getElem_rotate,Nat.add_comm]

theorem map_stateAt : (List.range p.states.length).map p.stateAt = p.states := by
  apply List.ext_getElem
  · simp
  · intro i _ within
    simp [stateAt,within]

theorem mem_ordered {index : Nat} : index ∈ p.ordered ↔ index < p.states.length := by
  rw [ordered_eq,List.mem_rotate,List.mem_range]

theorem stateAt_mem {index : Nat} (within : index < p.states.length) : p.stateAt index ∈ p.states := by
  have there : p.stateAt index = p.states[index] := by simp [stateAt,within]
  rw [there]
  exact List.getElem_mem within

variable (distinct : (p.states.map KeyState.key).Nodup)
include distinct

theorem cooldown_of_mem {s : KeyState} (member : s ∈ p.states) : p.cooldown s.key = s.cooldownUntil := by
  obtain ⟨found,there⟩ : ∃ found, p.states.find? (·.key = s.key) = some found :=
    Option.isSome_iff_exists.mp (List.find?_isSome.mpr ⟨s,member,by simp⟩)
  have keyed : found.key = s.key := by simpa using List.find?_some there
  have same : found = s := List.inj_on_of_nodup_map distinct (List.mem_of_find?_eq_some there) member keyed
  rw [cooldown,there,same]
  rfl

end APIKeyPool

/-! ### One acquire -/

namespace APIKeyPool

variable {p : APIKeyPool} {exclude : List String} {now : ℚ}

def Eligible (p : APIKeyPool) (exclude : List String) (s : KeyState) : Prop :=
  s ∈ p.states ∧ (s.key ∉ exclude ∨ ∀ k ∈ p.states.map KeyState.key, k ∈ exclude)

theorem eligible_of_candidate {index : Nat} (member : index ∈ p.candidates exclude) : p.Eligible exclude (p.stateAt index) := by
  unfold candidates at member
  dsimp only at member
  split at member
  · rename_i nothing
    refine ⟨stateAt_mem (mem_ordered.mp member),.inr ?_⟩
    intro k inside
    obtain ⟨s,there,rfl⟩ := List.mem_map.mp inside
    rw [← map_stateAt] at there
    obtain ⟨i,within,rfl⟩ := List.mem_map.mp there
    by_contra outside
    have fresh : i ∈ p.ordered.filter (fun index => (p.stateAt index).key ∉ exclude) :=
      List.mem_filter.mpr ⟨mem_ordered.mpr (List.mem_range.mp within),by simpa using outside⟩
    rw [nothing] at fresh
    exact absurd fresh List.not_mem_nil
  · obtain ⟨inside,outside⟩ := List.mem_filter.mp member
    exact ⟨stateAt_mem (mem_ordered.mp inside),.inl (by simpa using outside)⟩

theorem candidate_of_eligible {s : KeyState} (eligible : p.Eligible exclude s) :
    ∃ index ∈ p.candidates exclude, p.stateAt index = s := by
  obtain ⟨there,left⟩ := eligible
  rw [← map_stateAt] at there
  obtain ⟨i,within,rfl⟩ := List.mem_map.mp there
  have listed : i ∈ p.ordered := mem_ordered.mpr (List.mem_range.mp within)
  refine ⟨i,?_,rfl⟩
  unfold candidates
  dsimp only
  split
  · exact listed
  · rename_i some_fresh
    refine List.mem_filter.mpr ⟨listed,?_⟩
    rcases left with outside | all
    · simpa using outside
    · obtain ⟨j,fresh⟩ := List.exists_mem_of_ne_nil _ some_fresh
      obtain ⟨inside,outside⟩ := List.mem_filter.mp fresh
      have excluded := all _ (List.mem_map_of_mem (stateAt_mem (mem_ordered.mp inside)))
      exact absurd excluded (by simpa using outside)

theorem candidates_ne_nil {s : KeyState} (there : s ∈ p.states) : p.candidates exclude ≠ [] := by
  have listed : p.ordered ≠ [] := by
    rw [← map_stateAt] at there
    obtain ⟨i,within,_⟩ := List.mem_map.mp there
    exact List.ne_nil_of_mem (mem_ordered.mpr (List.mem_range.mp within))
  unfold candidates
  dsimp only
  split
  · exact listed
  · assumption

theorem acquire_some {key : String} {wait : ℚ} (returned : (p.acquire exclude now).1 = (some key,wait)) :
    ∃ s, p.Eligible exclude s ∧ s.key = key ∧ s.cooldownUntil ≤ now := by
  unfold acquire at returned
  split at returned
  · cases returned
  · split at returned
    · rename_i index rest listed
      cases returned
      have member : index ∈ (p.candidates exclude).filter (fun index => (p.stateAt index).cooldownUntil ≤ now) := by
        rw [listed]
        exact List.mem_cons_self
      obtain ⟨candidate,elapsed⟩ := List.mem_filter.mp member
      exact ⟨p.stateAt index,eligible_of_candidate candidate,rfl,by simpa using elapsed⟩
    · cases returned

theorem acquire_none {wait : ℚ} (some_state : p.states ≠ []) (refused : (p.acquire exclude now).1 = (none,wait)) :
    (p.acquire exclude now).2 = p ∧ (∀ s, p.Eligible exclude s → now < s.cooldownUntil) ∧
      ∃ s, p.Eligible exclude s ∧ s.cooldownUntil ≤ now + wait := by
  unfold acquire at refused ⊢
  rw [if_neg some_state] at refused ⊢
  split at refused
  · cases refused
  · rename_i nothing
    have cooling (s : KeyState) (eligible : p.Eligible exclude s) : now < s.cooldownUntil := by
      obtain ⟨index,candidate,rfl⟩ := candidate_of_eligible eligible
      by_contra elapsed
      have member : index ∈ (p.candidates exclude).filter (fun index => (p.stateAt index).cooldownUntil ≤ now) :=
        List.mem_filter.mpr ⟨candidate,by simpa using elapsed⟩
      rw [nothing] at member
      exact absurd member List.not_mem_nil
    obtain ⟨first,there⟩ := List.exists_mem_of_ne_nil _ some_state
    have some_candidate : p.candidates exclude ≠ [] := candidates_ne_nil there
    obtain ⟨earliest,least⟩ : ∃ earliest, ((p.candidates exclude).map (fun index => (p.stateAt index).cooldownUntil)).min? = some earliest := by
      refine Option.isSome_iff_exists.mp (List.isSome_min?_of_ne_nil ?_)
      rwa [Ne,List.map_eq_nil_iff]
    obtain ⟨index,candidate,rfl⟩ := List.mem_map.mp (List.min?_mem least)
    have waited := (Prod.mk.inj refused).2
    rw [least,Option.getD_some] at waited
    refine ⟨rfl,cooling,p.stateAt index,eligible_of_candidate candidate,?_⟩
    have enough := le_max_right 0 ((p.stateAt index).cooldownUntil - now)
    linarith

theorem acquire_none_same (refused : (p.acquire exclude now).1.1 = none) : (p.acquire exclude now).2 = p := by
  unfold acquire at refused ⊢
  split at refused
  · rename_i nothing
    rw [if_pos nothing]
  · rename_i some_state
    rw [if_neg some_state]
    split at refused
    · cases refused
    · rfl

theorem acquire_isSome {s : KeyState} (eligible : p.Eligible exclude s) (elapsed : s.cooldownUntil ≤ now) :
    ((p.acquire exclude now).1.1).isSome := by
  have some_state : p.states ≠ [] := List.ne_nil_of_mem eligible.1
  cases answered : (p.acquire exclude now).1 with
  | mk key wait =>
    cases key with
    | some key => rfl
    | none =>
      have cooling := (acquire_none some_state answered).2.1 s eligible
      linarith

/-! ### The rotation -/

def keys (p : APIKeyPool) : List String := p.states.map KeyState.key

def queue (p : APIKeyPool) : List String := p.keys.rotate p.cursor

theorem queue_eq : p.queue = p.ordered.map (fun index => (p.stateAt index).key) := by
  have keys_eq : p.keys = (List.range p.states.length).map (fun index => (p.stateAt index).key) := by
    rw [keys,← map_stateAt,List.map_map]
    simp
  rw [queue,keys_eq,ordered_eq,List.map_rotate]

theorem acquire_turn (distinct : p.keys.Nodup) {key : String} {wait : ℚ} (returned : (p.acquire [] now).1 = (some key,wait)) :
    Turn (fun k => p.cooldown k ≤ now) p.queue key (p.acquire [] now).2.queue := by
  have all : p.candidates [] = p.ordered := by
    unfold candidates
    have kept : p.ordered.filter (fun index => (p.stateAt index).key ∉ []) = p.ordered :=
      List.filter_eq_self.mpr (fun _ _ => by simp)
    rw [kept]
    exact ite_self _
  have cooldown_at {index : Nat} (listed : index ∈ p.ordered) : p.cooldown (p.stateAt index).key = (p.stateAt index).cooldownUntil :=
    cooldown_of_mem distinct (stateAt_mem (mem_ordered.mp listed))
  unfold acquire at returned ⊢
  rw [all] at returned ⊢
  split at returned
  · cases returned
  · rename_i some_state
    rw [if_neg some_state]
    split at returned
    · rename_i index rest listed
      cases returned
      obtain ⟨before,after,split,skipped,elapsed,_⟩ := List.filter_eq_cons_iff.mp listed
      have there : p.queue = before.map (fun index => (p.stateAt index).key) ++
          (p.stateAt index).key::after.map (fun index => (p.stateAt index).key) := by
        rw [queue_eq,split,List.map_append,List.map_cons]
      have place : index = (p.cursor + before.length) % p.states.length := by
        have here : p.ordered[before.length]? = some index := by
          rw [split]
          simp
        obtain ⟨_,same⟩ := List.getElem?_eq_some_iff.mp here
        simpa [ordered] using same.symm
      have moved : p.keys.rotate ((index + 1) % p.states.length) =
          p.keys.rotate (p.cursor + (before.map (fun index => (p.stateAt index).key)).length + 1) := by
        have size : p.keys.length = p.states.length := List.length_map _
        rw [place,Nat.mod_add_mod,List.length_map,← size,List.rotate_mod]
      have turn := turn_rotate (fun k => decide (p.cooldown k ≤ now)) there ?_ ?_
      · rw [← moved] at turn
        exact turn
      · intro k inside
        obtain ⟨i,member,rfl⟩ := List.mem_map.mp inside
        have cooling := skipped i member
        rw [cooldown_at (split ▸ List.mem_append_left _ member)]
        simpa using cooling
      · rw [cooldown_at (split ▸ List.mem_append_right _ List.mem_cons_self)]
        exact elapsed
    · cases returned

theorem returned_turns (always : String → Prop) (distinct : p.keys.Nodup) (es : List Timed)
    (calls : ∀ e ∈ es, e.call = .acquire [] ∨ ∃ key, e.call = .reportSuccess key)
    (available : ∀ e ∈ es, e.call = .acquire [] → ∀ k, always k → p.cooldown k ≤ e.now) :
    Turns always p.queue (p.returned es) := by
  induction es generalizing p with
  | nil => exact .nil _
  | cons e es ih =>
    have unfailed : e.call.isFailure = false := by
      rcases calls e List.mem_cons_self with same | ⟨key,same⟩ <;> rw [same] <;> rfl
    obtain ⟨same_keys,_,still⟩ := keeps_step (p := p) e
    have rest : Turns always (p.step e).queue ((p.step e).returned es) := by
      refine ih (show (p.step e).keys.Nodup by rw [keys,same_keys]; exact distinct)
        (fun e inside => calls e (List.mem_cons_of_mem _ inside)) (fun e inside acquired k keeps => ?_)
      rw [still unfailed]
      exact available e (List.mem_cons_of_mem _ inside) acquired k keeps
    unfold returned
    obtain ⟨now,call⟩ := e
    rcases calls ⟨now,call⟩ List.mem_cons_self with acquired | ⟨key,succeeded⟩
    · cases acquired
      cases answered : (p.acquire [] now).1 with
      | mk key wait =>
        cases key with
        | some key =>
          have answer_eq : p.answer ⟨now,.acquire []⟩ = some key := congrArg Prod.fst answered
          have there (k : String) (keeps : always k) : decide (p.cooldown k ≤ now) = true :=
            decide_eq_true (available _ List.mem_cons_self rfl k keeps)
          rw [answer_eq]
          exact .cons (acquire_turn distinct answered) there rest
        | none =>
          have answer_eq : p.answer ⟨now,.acquire []⟩ = none := congrArg Prod.fst answered
          have same : p.step ⟨now,.acquire []⟩ = p := acquire_none_same (by exact answer_eq)
          rw [answer_eq]
          rw [same] at rest
          rw [same]
          exact rest
    · cases succeeded
      have same : (p.step ⟨now,.reportSuccess key⟩).queue = p.queue := by
        change (p.reportSuccess key).queue = p.queue
        unfold reportSuccess
        split
        · rfl
        · rfl
        · exact congrArg (·.rotate p.cursor) (keys_change succeeded (fun _ => rfl) _ _)
      rw [same] at rest
      exact rest

end APIKeyPool

/-! ### All histories -/

theorem new_keys (keys : List String) (cooldown failureCooldown : ℚ) : (APIKeyPool.new keys cooldown failureCooldown).keys = keys := by
  change (keys.map _).map KeyState.key = keys
  rw [List.map_map]
  exact List.map_id keys

theorem eligible_iff {p : APIKeyPool} {exclude : List String} {key : String} :
    Candidate p.keys exclude key ↔ ∃ s, p.Eligible exclude s ∧ s.key = key := by
  constructor
  · rintro ⟨inside,left⟩
    obtain ⟨s,there,rfl⟩ := List.mem_map.mp inside
    exact ⟨s,⟨there,left⟩,rfl⟩
  · rintro ⟨s,⟨there,left⟩,rfl⟩
    exact ⟨List.mem_map_of_mem there,left⟩

theorem fair_of_distinct {p : APIKeyPool} (distinct : p.keys.Nodup) (some_key : p.keys ≠ []) : Fair p.keys p where
  taken := by
    intro exclude now key wait returned
    obtain ⟨s,eligible,rfl,elapsed⟩ := APIKeyPool.acquire_some returned
    rw [APIKeyPool.cooldown_of_mem distinct eligible.1]
    exact ⟨eligible_iff.mpr ⟨s,eligible,rfl⟩,elapsed⟩
  refused := by
    intro exclude now wait refused
    have some_state : p.states ≠ [] := fun nothing => some_key (by rw [APIKeyPool.keys,nothing]; rfl)
    obtain ⟨same,cooling,s,eligible,elapsed⟩ := APIKeyPool.acquire_none some_state refused
    refine ⟨?_,fun es unfailed later passed => ?_⟩
    · intro key candidate
      obtain ⟨s,eligible,rfl⟩ := eligible_iff.mp candidate
      rw [APIKeyPool.cooldown_of_mem distinct eligible.1]
      exact cooling s eligible
    · rw [same]
      obtain ⟨same_keys,_,still⟩ := APIKeyPool.keeps_run (p := p) es
      have candidate := eligible_iff.mpr ⟨s,eligible,rfl⟩
      have distinct' : (p.run es).keys.Nodup := by rwa [APIKeyPool.keys,same_keys]
      rw [APIKeyPool.keys,← same_keys] at candidate
      obtain ⟨s',eligible',same_key⟩ := eligible_iff.mp candidate
      refine APIKeyPool.acquire_isSome eligible' ?_
      rw [← APIKeyPool.cooldown_of_mem distinct' eligible'.1,same_key,still unfailed,
        APIKeyPool.cooldown_of_mem distinct eligible.1]
      exact elapsed.trans passed
  forward := fun es key _ => (APIKeyPool.keeps_run es).2.1 key
  rotates := by
    intro es calls a memberA b memberB available
    have turns := APIKeyPool.returned_turns (fun k => k = a ∨ k = b) distinct es calls (by
      rintro e inside acquired k (rfl | rfl)
      · exact (available e inside acquired).1
      · exact (available e inside acquired).2)
    exact turns.fair (List.nodup_rotate.mpr distinct) (List.mem_rotate.mpr memberA) (List.mem_rotate.mpr memberB)
      (.inl rfl) (.inr rfl)

/-- After every history of a pool with a key. -/
theorem pool_fair (keys : List String) (cooldown failureCooldown : ℚ) (distinct : keys.Nodup) (some_key : keys ≠ [])
    (history : List Timed) : Fair keys ((APIKeyPool.new keys cooldown failureCooldown).run history) := by
  have same : ((APIKeyPool.new keys cooldown failureCooldown).run history).keys = keys :=
    (APIKeyPool.keeps_run history).1.trans (new_keys keys cooldown failureCooldown)
  have fair := fair_of_distinct (p := (APIKeyPool.new keys cooldown failureCooldown).run history) (by rwa [same]) (by rwa [same])
  rwa [same] at fair

theorem pool_fair_of_two : Fair ["a","b"] ((APIKeyPool.new ["a","b"] 30 2).run
    [⟨0,.acquire []⟩,⟨1,.reportFailure (some "a") .rateLimit none 0⟩,⟨2,.acquire []⟩]) :=
  pool_fair ["a","b"] 30 2 (by decide) (by decide) _

/-- A pool without keys: no wait makes an acquire succeed. -/
theorem empty_pool_unfair : ¬∀ (keys : List String) (cooldown failureCooldown : ℚ), keys.Nodup → ∀ history : List Timed,
    Fair keys ((APIKeyPool.new keys cooldown failureCooldown).run history) := by
  intro fair
  obtain ⟨_,again⟩ := (fair [] 30 2 List.nodup_nil []).refused [] 0 0 rfl
  have succeeds := again [] (fun _ inside => absurd inside List.not_mem_nil) 0 (by norm_num)
  exact absurd succeeds (by decide)

theorem hasAlternative_iff (p : APIKeyPool) (used : List String) (now : ℚ) :
    p.hasAlternative used now = true ↔ ∃ key, (p.acquire used now).1.1 = some key ∧ key ∉ used := by
  unfold APIKeyPool.hasAlternative
  simp only [List.any_eq_true,Bool.and_eq_true,decide_eq_true_eq]
  constructor
  · rintro ⟨s,there,unused,elapsed⟩
    obtain ⟨key,returned⟩ := Option.isSome_iff_exists.mp (APIKeyPool.acquire_isSome ⟨there,.inl unused⟩ elapsed)
    refine ⟨key,returned,?_⟩
    obtain ⟨s',⟨_,left⟩,rfl,_⟩ := APIKeyPool.acquire_some (Prod.ext returned rfl)
    rcases left with fresh | all
    · exact fresh
    · exact absurd (all _ (List.mem_map_of_mem there)) unused
  · rintro ⟨key,returned,unused⟩
    obtain ⟨s,⟨there,_⟩,rfl,elapsed⟩ := APIKeyPool.acquire_some (Prod.ext returned rfl)
    exact ⟨s,there,unused,elapsed⟩

end Suixinji.Coordination.KeyPool
