import Suixinji.Relational.Transition
import Mathlib.Data.List.Nodup

/-! Calls that share one value: each reads it whole, and either returns or
writes back what it made of its copy. Reads and writes are atomic, a call is
not. Calls that write over nothing but what they read have a serial order. -/
namespace Suixinji.ReadWrite
open Suixinji.Transition

variable {σ α : Type}

inductive Phase (σ : Type) where
  | called
  | read (copy : σ)
  | returned (time : Nat) (wrote : Bool)
  deriving DecidableEq

structure Call (σ α : Type) where
  op : α
  since : Nat
  phase : Phase σ := .called
  deriving DecidableEq

structure World (σ α : Type) where
  value : σ
  now : Nat := 0
  calls : List (Call σ α) := []
  deriving DecidableEq

inductive Event (α : Type) where
  | call (op : α)
  | load (i : Nat)
  | save (i : Nat)

/-- `writes op copy` is what a call writes back, nothing when it returns at once. -/
def next (writes : α → σ → Option σ) (w : World σ α) : Event α → Option (World σ α)
  | .call op => some {w with now := w.now + 1,calls := w.calls ++ [{op,since := w.now}]}
  | .load i => do
    let c ← w.calls[i]?
    match c.phase with
    | .called =>
      let phase := if (writes c.op w.value).isSome then .read w.value else .returned w.now false
      some {w with now := w.now + 1,calls := w.calls.set i {c with phase}}
    | _ => none
  | .save i => do
    let c ← w.calls[i]?
    match c.phase with
    | .read copy =>
      let value ← writes c.op copy
      some {value,now := w.now + 1,calls := w.calls.set i {c with phase := .returned w.now true}}
    | _ => none

def Step (writes : α → σ → Option σ) (w : World σ α) (e : Event α) (w' : World σ α) : Prop := next writes w e = some w'

/-- The call alone, on the value as it is. -/
def apply (writes : α → σ → Option σ) (value : σ) (op : α) : σ := (writes op value).getD value

/-- A call that writes back finds the value it read. -/
def Current (w : World σ α) : Event α → Prop
  | .save i => ∀ c ∈ w.calls[i]?, ∀ copy, c.phase = .read copy → w.value = copy
  | _ => True

/-- The `i`th call returned before the `j`th was made. -/
def Before (w : World σ α) (i j : Nat) : Prop :=
  ∃ c ∈ w.calls[i]?, ∃ d ∈ w.calls[j]?, ∃ time wrote, c.phase = .returned time wrote ∧ time < d.since

def Returned (w : World σ α) (i : Nat) : Prop := ∃ c ∈ w.calls[i]?, ∃ time wrote, c.phase = .returned time wrote

/-- The calls that returned, one after another in the order given. -/
def serial (writes : α → σ → Option σ) (start : σ) (w : World σ α) (order : List Nat) : σ :=
  (order.filterMap (fun i => (w.calls[i]?).map Call.op)).foldl (apply writes) start

/-- An order of the calls that returned, in which no call comes before one that
had returned when it was made, explains the value. -/
structure Explains (writes : α → σ → Option σ) (start : σ) (w : World σ α) (order : List Nat) : Prop where
  distinct : order.Nodup
  all : ∀ i, i ∈ order ↔ Returned w i
  respects : order.Pairwise (fun i j => ¬Before w j i)
  value : w.value = serial writes start w order

/-- Alone in its place of the order, each call would have written just when it did. -/
def Replies (writes : α → σ → Option σ) (start : σ) (w : World σ α) (order : List Nat) : Prop :=
  ∀ before i after, order = before ++ i :: after → ∀ c time wrote, w.calls[i]? = some c → c.phase = .returned time wrote →
    wrote = (writes c.op (serial writes start w before)).isSome

def Serializable (writes : α → σ → Option σ) (start : σ) (w : World σ α) : Prop :=
  ∃ order, Explains writes start w order ∧ Replies writes start w order

variable {writes : α → σ → Option σ} {start : σ} {w w' : World σ α} {order : List Nat}

/-- No call was made after the present. -/
def Timed (w : World σ α) : Prop := ∀ (i : Nat) (c : Call σ α), w.calls[i]? = some c → c.since < w.now

def Stable (w w' : World σ α) : Prop := ∀ i, Returned w i → w'.calls[i]? = w.calls[i]?

theorem Stable.before (stable : Stable w w') {i j : Nat} (ri : Returned w i) (rj : Returned w j) :
    Before w' i j ↔ Before w i j := by
  unfold Before
  rw [stable i ri,stable j rj]

theorem Stable.serial (stable : Stable w w') (returned : ∀ i ∈ order, Returned w i) :
    serial writes start w' order = serial writes start w order := by
  unfold ReadWrite.serial
  rw [List.filterMap_congr (fun i inside => by rw [stable i (returned i inside)])]

theorem Stable.pairwise (stable : Stable w w') (returned : ∀ i ∈ order, Returned w i)
    (respects : order.Pairwise (fun i j => ¬Before w j i)) : order.Pairwise (fun i j => ¬Before w' j i) := by
  refine respects.imp_of_mem (fun {i j} hi hj apart => ?_)
  rwa [stable.before (returned j hj) (returned i hi)]

theorem Explains.stay (explains : Explains writes start w order) (stable : Stable w w')
    (none : ∀ i, Returned w' i → Returned w i) (value : w'.value = w.value) : Explains writes start w' order where
  distinct := explains.distinct
  all i := by
    rw [explains.all i]
    constructor
    · rintro ⟨c,found,done⟩
      exact ⟨c,by rwa [stable i ⟨c,found,done⟩],done⟩
    · exact none i
  respects := stable.pairwise (fun i => (explains.all i).mp) explains.respects
  value := by rw [value,explains.value,stable.serial (fun i => (explains.all i).mp)]

theorem Explains.finish (explains : Explains writes start w order) (timed : Timed w) (stable : Stable w w') {k : Nat}
    {c : Call σ α} {wrote : Bool} (call : w'.calls[k]? = some c) (phase : c.phase = .returned w.now wrote)
    (running : ¬Returned w k) (none : ∀ i, Returned w' i → i = k ∨ Returned w i)
    (value : w'.value = apply writes w.value c.op) : Explains writes start w' (order ++ [k]) where
  distinct := by
    rw [List.nodup_append]
    refine ⟨explains.distinct,by simp,?_⟩
    intro i inside j last same
    rw [List.mem_singleton] at last
    rw [same,last,explains.all] at inside
    exact running inside
  all i := by
    rw [List.mem_append,List.mem_singleton,explains.all]
    constructor
    · rintro (⟨c,found,done⟩ | rfl)
      · exact ⟨c,by rwa [stable i ⟨c,found,done⟩],done⟩
      · exact ⟨c,call,w.now,wrote,phase⟩
    · exact fun returned => (none i returned).symm
  respects := by
    rw [List.pairwise_append]
    refine ⟨stable.pairwise (fun i => (explains.all i).mp) explains.respects,by simp,?_⟩
    intro i inside j last
    rw [List.mem_singleton] at last
    subst last
    have returned := (explains.all i).mp inside
    -- the last call returns now, after every other was made
    rintro ⟨_,found,d,other,time,_,done,earlier⟩
    rw [call] at found
    obtain rfl := Option.some.inj found
    rw [phase] at done
    cases done
    rw [stable i returned] at other
    exact absurd (timed i d other) (by omega)
  value := by
    have before : serial writes start w' order = w.value := by
      rw [stable.serial (fun i => (explains.all i).mp),explains.value]
    unfold serial at before ⊢
    rw [List.filterMap_append,List.foldl_append,before,value]
    simp [call]

theorem Replies.stay (replies : Replies writes start w order) (stable : Stable w w') (returned : ∀ i ∈ order, Returned w i) :
    Replies writes start w' order := by
  rintro before i after rfl c time wrote found done
  rw [stable i (returned i (by simp))] at found
  rw [replies before i after rfl c time wrote found done,
    stable.serial (fun j inside => returned j (List.mem_append_left _ inside))]

theorem Replies.finish (replies : Replies writes start w order) (explains : Explains writes start w order)
    (stable : Stable w w') {k : Nat} {c : Call σ α} {time : Nat} {wrote : Bool} (call : w'.calls[k]? = some c)
    (phase : c.phase = .returned time wrote) (decided : wrote = (writes c.op w.value).isSome) :
    Replies writes start w' (order ++ [k]) := by
  have returned : ∀ i ∈ order, Returned w i := fun i => (explains.all i).mp
  intro before i after split d time' wrote' found done
  rcases List.eq_nil_or_concat after with rfl | ⟨after,last,rfl⟩
  · obtain ⟨rfl,same⟩ := List.append_inj' split rfl
    cases same
    rw [call] at found
    cases found
    rw [phase] at done
    cases done
    rw [stable.serial returned,← explains.value,decided]
  · rw [List.concat_eq_append,← List.cons_append,← List.append_assoc] at split
    obtain ⟨inner,_⟩ := List.append_inj' split rfl
    exact replies.stay stable returned before i after inner d time' wrote' found done

theorem load_ok {i : Nat} (step : next writes w (.load i) = some w') :
    ∃ c, w.calls[i]? = some c ∧ c.phase = .called ∧ w' = {w with
      now := w.now + 1
      calls := w.calls.set i {c with
        phase := if (writes c.op w.value).isSome then .read w.value else .returned w.now false}} := by
  simp only [next,Option.bind_eq_bind,Option.bind_eq_some_iff] at step
  obtain ⟨c,found,step⟩ := step
  split at step
  · rename_i called
    exact ⟨c,found,called,(Option.some.inj step).symm⟩
  · cases step

theorem save_ok {i : Nat} (step : next writes w (.save i) = some w') :
    ∃ c copy value, w.calls[i]? = some c ∧ c.phase = .read copy ∧ writes c.op copy = some value ∧
      w' = {value,now := w.now + 1,calls := w.calls.set i {c with phase := .returned w.now true}} := by
  simp only [next,Option.bind_eq_bind,Option.bind_eq_some_iff] at step
  obtain ⟨c,found,step⟩ := step
  split at step
  · rename_i copy read
    obtain ⟨value,written,rest⟩ := Option.bind_eq_some_iff.mp step
    exact ⟨c,copy,value,found,read,written,(Option.some.inj rest).symm⟩
  · cases step

/-- A call that has not returned can be replaced without a trace in those that have. -/
theorem stable_set {k : Nat} {c : Call σ α} (c' : Call σ α) (value : σ) (now : Nat) (found : w.calls[k]? = some c)
    (running : ∀ time wrote, c.phase ≠ .returned time wrote) :
    Stable w {value,now,calls := w.calls.set k c'} := by
  rintro i ⟨d,inside,time,wrote,done⟩
  have apart : k ≠ i := by
    rintro rfl
    rw [found] at inside
    cases inside
    exact running _ _ done
  exact List.getElem?_set_ne apart

theorem returned_set {k i : Nat} {c' : Call σ α} {value : σ} {now : Nat}
    (returned : Returned {value,now,calls := w.calls.set k c'} i) : i = k ∨ Returned w i := by
  by_cases same : i = k
  · exact .inl same
  · obtain ⟨d,inside,done⟩ := returned
    exact .inr ⟨d,by rwa [← List.getElem?_set_ne (Ne.symm same)],done⟩

theorem not_returned {k : Nat} {c : Call σ α} (found : w.calls[k]? = some c)
    (running : ∀ time wrote, c.phase ≠ .returned time wrote) : ¬Returned w k := by
  rintro ⟨d,inside,time,wrote,done⟩
  rw [found] at inside
  cases inside
  exact running _ _ done

theorem getElem?_set_found {k : Nat} {c : Call σ α} (c' : Call σ α) (found : w.calls[k]? = some c) :
    (w.calls.set k c')[k]? = some c' := by
  obtain ⟨inside,_⟩ := List.getElem?_eq_some_iff.mp found
  exact List.getElem?_set_self inside

theorem timed_set (timed : Timed w) {k : Nat} {c c' : Call σ α} (found : w.calls[k]? = some c) (same : c'.since = c.since)
    {value : σ} : Timed {value,now := w.now + 1,calls := w.calls.set k c'} := by
  intro i d inside
  by_cases here : i = k
  · subst here
    rw [getElem?_set_found c' found] at inside
    cases inside
    have := timed i c found
    simp only
    omega
  · rw [List.getElem?_set_ne (Ne.symm here)] at inside
    exact Nat.lt_succ_of_lt (timed i d inside)

theorem timed_step {e : Event α} (timed : Timed w) (step : Step writes w e w') : Timed w' := by
  cases e with
  | call op =>
    obtain rfl := Option.some.inj step
    intro i c inside
    rw [List.getElem?_append] at inside
    split at inside
    · exact Nat.lt_succ_of_lt (timed i c inside)
    · rw [List.getElem?_singleton] at inside
      split at inside
      · cases inside
        exact Nat.lt_succ_self _
      · cases inside
  | load k =>
    obtain ⟨c,found,_,rfl⟩ := load_ok step
    exact timed_set timed found (by rfl)
  | save k =>
    obtain ⟨c,_,_,found,_,_,rfl⟩ := save_ok step
    exact timed_set timed found (by rfl)

theorem serializable_step {e : Event α} (timed : Timed w) (explained : Serializable writes start w)
    (current : Current w e) (step : Step writes w e w') : Serializable writes start w' := by
  obtain ⟨order,explains,replies⟩ := explained
  have returned : ∀ i ∈ order, Returned w i := fun i => (explains.all i).mp
  cases e with
  | call op =>
    obtain rfl := Option.some.inj step
    have stable : Stable w {w with now := w.now + 1,calls := w.calls ++ [{op,since := w.now}]} := by
      rintro i ⟨c,inside,_⟩
      exact List.getElem?_append_left (List.getElem?_eq_some_iff.mp inside).choose
    refine ⟨order,explains.stay stable ?_ rfl,replies.stay stable returned⟩
    · rintro i ⟨c,inside,time,wrote,done⟩
      rw [Option.mem_def,List.getElem?_append] at inside
      split at inside
      · exact ⟨c,inside,time,wrote,done⟩
      · rw [List.getElem?_singleton] at inside
        split at inside
        · cases inside
          cases done
        · cases inside
  | load k =>
    obtain ⟨c,found,called,rfl⟩ := load_ok step
    have running : ∀ time wrote, c.phase ≠ .returned time wrote := by simp [called]
    have stable := stable_set {c with
      phase := if (writes c.op w.value).isSome then .read w.value else .returned w.now false} w.value (w.now + 1) found running
    cases written : writes c.op w.value with
    | some value =>
      rw [written] at stable
      refine ⟨order,explains.stay stable ?_ rfl,replies.stay stable returned⟩
      rintro i ⟨d,inside,time,wrote,done⟩
      rcases returned_set ⟨d,inside,time,wrote,done⟩ with rfl | returned
      · rw [Option.mem_def,getElem?_set_found _ found] at inside
        cases inside
        cases done
      · exact returned
    | none =>
      rw [written] at stable
      have here := getElem?_set_found {c with phase := .returned w.now false} found
      exact ⟨order ++ [k],explains.finish timed stable here rfl (not_returned found running) (fun i => returned_set)
        (by simp [apply,written]),replies.finish explains stable here rfl (by simp [written])⟩
  | save k =>
    obtain ⟨c,copy,value,found,read,written,rfl⟩ := save_ok step
    have running : ∀ time wrote, c.phase ≠ .returned time wrote := by simp [read]
    obtain rfl := current c found copy read
    have here := getElem?_set_found {c with phase := .returned w.now true} found
    have stable := stable_set {c with phase := .returned w.now true} value (w.now + 1) found running
    exact ⟨order ++ [k],explains.finish timed stable here rfl (not_returned found running) (fun i => returned_set)
      (by simp [apply,written]),replies.finish explains stable here rfl (by simp [written])⟩

/-- Calls whose writes all find what they read are serializable, whatever the interleaving. -/
theorem serializable_run {events : List (Event α)} {value : σ}
    (run : Run (Guarded Current (Step writes)) {value} events w) : Serializable writes value w := by
  suffices both : Timed w ∧ Serializable writes value w from both.2
  refine run.invariant (fun w => Timed w ∧ Serializable writes value w) ?_ ⟨?_,[],?_,?_⟩
  · rintro s e t ⟨timed,explained⟩ ⟨current,step⟩
    exact ⟨timed_step timed step,serializable_step timed explained current step⟩
  · intro i c inside
    cases inside
  · exact ⟨by simp,by simp [Returned],by simp,rfl⟩
  · intro before i after split
    simp at split

end Suixinji.ReadWrite
