import Mathlib.Order.CompletePartialOrder
import Mathlib.Data.Set.BooleanAlgebra
import Mathlib.Data.Set.Function
import Mathlib.Logic.Function.Basic

/-! Calls on a store of places that may fail half way, what they may write and what
they go by. A failed call leaves what it has written. -/
namespace Suixinji.Footprint

variable {π ν α β : Type}

abbrev Store (π ν : Type) := π → Option ν

def Call (π ν α : Type) := Store π ν → Option α × Store π ν

instance : Monad (Call π ν) where
  pure a := fun s => (some a,s)
  bind c f := fun s =>
    match c s with
    | (some a,s') => f a s'
    | (none,s') => (none,s')

def fail : Call π ν α := fun s => (none,s)

def get (p : π) : Call π ν (Option ν) := fun s => (some (s p),s)

def put [DecidableEq π] (p : π) (v : ν) : Call π ν Unit := fun s => (some (),Function.update s p (some v))

/-- A call whose failure is caught. -/
def attempt (c : Call π ν α) : Call π ν (Option α) := fun s => (some (c s).1,(c s).2)

def ofOption (a : Option α) : Call π ν α := fun s => (a,s)

@[simp] theorem pure_apply (a : α) (s : Store π ν) : (pure a : Call π ν α) s = (some a,s) := rfl

theorem bind_apply (c : Call π ν α) (f : α → Call π ν β) (s : Store π ν) :
    (c >>= f) s = match c s with
      | (some a,s') => f a s'
      | (none,s') => (none,s') := rfl

@[simp] theorem fail_apply (s : Store π ν) : (fail : Call π ν α) s = (none,s) := rfl

@[simp] theorem get_apply (p : π) (s : Store π ν) : (get p : Call π ν (Option ν)) s = (some (s p),s) := rfl

@[simp] theorem put_apply [DecidableEq π] (p : π) (v : ν) (s : Store π ν) : put p v s = (some (),Function.update s p (some v)) := rfl

@[simp] theorem attempt_apply (c : Call π ν α) (s : Store π ν) : attempt c s = (some (c s).1,(c s).2) := rfl

@[simp] theorem ofOption_apply (a : Option α) (s : Store π ν) : (ofOption a : Call π ν α) s = (a,s) := rfl

/-- From a store of the invariant the call writes in the region only, keeps the
invariant, and returns what the postcondition says. -/
def Keeps (I : Store π ν → Prop) (R : Set π) (c : Call π ν α) (Q : α → Prop) : Prop :=
  ∀ s, I s → I (c s).2 ∧ (∀ p ∉ R, (c s).2 p = s p) ∧ ∀ a, (c s).1 = some a → Q a

variable {I : Store π ν → Prop} {R : Set π} {c : Call π ν α} {Q : α → Prop}

theorem Keeps.pure {a : α} (post : Q a) : Keeps I R (pure a) Q := by
  intro s inv
  exact ⟨inv,fun _ _ => rfl,fun b same => Option.some.inj same ▸ post⟩

theorem Keeps.fail : Keeps I R fail Q := by
  intro s inv
  exact ⟨inv,fun _ _ => rfl,fun b same => by cases same⟩

theorem Keeps.get_of {p : π} (Q : Option ν → Prop) (post : ∀ s, I s → Q (s p)) : Keeps I R (Footprint.get p) Q := by
  intro s inv
  exact ⟨inv,fun _ _ => rfl,fun b same => Option.some.inj same ▸ post s inv⟩

theorem Keeps.get {p : π} : Keeps I R (Footprint.get p : Call π ν (Option ν)) (fun _ => True) := .get_of _ (fun _ _ => trivial)

theorem Keeps.put [DecidableEq π] {p : π} {v : ν} (inside : p ∈ R) (inv' : ∀ s, I s → I (Function.update s p (some v))) :
    Keeps I R (put p v) (fun _ => True) := by
  intro s inv
  refine ⟨inv' s inv,fun q out => ?_,fun _ _ => trivial⟩
  have other : q ≠ p := fun same => out (same ▸ inside)
  exact Function.update_of_ne other _ _

theorem Keeps.ofOption {a : Option α} (post : ∀ b, a = some b → Q b) : Keeps I R (ofOption a) Q := by
  intro s inv
  exact ⟨inv,fun _ _ => rfl,post⟩

theorem Keeps.bind {f : α → Call π ν β} {P : β → Prop} (first : Keeps I R c Q) (second : ∀ a, Q a → Keeps I R (f a) P) :
    Keeps I R (c >>= f) P := by
  intro s inv
  obtain ⟨inv',frame,post⟩ := first s inv
  rw [bind_apply]
  cases result : c s with
  | mk a s' =>
    rw [result] at inv' frame post
    cases a with
    | none => exact ⟨inv',frame,fun b same => by cases same⟩
    | some a =>
      obtain ⟨inv'',frame',post'⟩ := second a (post a rfl) s' inv'
      exact ⟨inv'',fun p out => (frame' p out).trans (frame p out),post'⟩

theorem Keeps.attempt (keeps : Keeps I R c Q) : Keeps I R (attempt c) (fun _ => True) := by
  intro s inv
  obtain ⟨inv',frame,-⟩ := keeps s inv
  exact ⟨inv',frame,fun _ _ => trivial⟩

theorem Keeps.imp {P : α → Prop} (keeps : Keeps I R c Q) (weaker : ∀ a, Q a → P a) : Keeps I R c P := by
  intro s inv
  obtain ⟨inv',frame,post⟩ := keeps s inv
  exact ⟨inv',frame,fun a same => weaker a (post a same)⟩

/-- Stores that agree in the region give the call one result, and agree there after it. -/
def Reads (R : Set π) (c : Call π ν α) : Prop :=
  ∀ s s', Set.EqOn s s' R → (c s).1 = (c s').1 ∧ Set.EqOn (c s).2 (c s').2 R

theorem Reads.pure {a : α} : Reads R (Pure.pure a : Call π ν α) := fun _ _ agree => ⟨rfl,agree⟩

theorem Reads.fail : Reads R (Footprint.fail : Call π ν α) := fun _ _ agree => ⟨rfl,agree⟩

theorem Reads.ofOption {a : Option α} : Reads R (Footprint.ofOption a : Call π ν α) := fun _ _ agree => ⟨rfl,agree⟩

theorem Reads.get {p : π} (inside : p ∈ R) : Reads R (Footprint.get p : Call π ν (Option ν)) :=
  fun _ _ agree => ⟨congrArg some (agree inside),agree⟩

theorem Reads.put [DecidableEq π] {p : π} {v : ν} : Reads R (Footprint.put p v) := by
  intro s s' agree
  refine ⟨rfl,fun q inside => ?_⟩
  by_cases same : q = p
  · subst same
    simp
  · simp [Function.update_of_ne same,agree inside]

theorem Reads.bind {f : α → Call π ν β} (first : Reads R c) (second : ∀ a, Reads R (f a)) : Reads R (c >>= f) := by
  intro s s' agree
  obtain ⟨same,agree'⟩ := first s s' agree
  rw [bind_apply,bind_apply]
  cases result : c s with
  | mk a t =>
    cases result' : c s' with
    | mk a' t' =>
      rw [result,result'] at same agree'
      simp only at same agree'
      subst same
      cases a with
      | none => exact ⟨rfl,agree'⟩
      | some a => exact second a t t' agree'

/-- A call is not told of what another writes outside the region it goes by. -/
theorem Keeps.unseen {W : Set π} {d : Call π ν β} (keeps : Keeps I W c Q) (reads : Reads R d) (apart : Disjoint W R) {s : Store π ν} (inv : I s) :
    (d (c s).2).1 = (d s).1 :=
  (reads _ _ (fun p inside => (keeps s inv).2.1 p (fun written => Set.disjoint_left.mp apart written inside))).1

end Suixinji.Footprint
