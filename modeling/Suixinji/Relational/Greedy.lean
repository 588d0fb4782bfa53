import Mathlib.Data.List.Perm.Basic
import Suixinji.Relational.Ranking

/-! Greedy selection: the greatest of what remains is taken out, under a value that depends on what was selected. -/
namespace Suixinji.Greedy
open Ranking

variable {α β κ : Type} [LinearOrder κ]

/-- `max(enumerate(remaining), key)`: the first of the greatest, with its index. -/
def pick (value : α → κ) (remaining : List α) : Option (α × Nat) := greatest (fun p q => value p.1 < value q.1) remaining.zipIdx

/-- So many selected, one after another. -/
def greedy (value : List α → α → κ) : Nat → List α → List α → List α
  | 0,_,_ => []
  | n+1,selected,remaining =>
    match pick (value selected) remaining with
    | none => []
    | some (a,i) => a::greedy value n (selected ++ [a]) (remaining.eraseIdx i)

theorem pick_eq_none {value : α → κ} {remaining : List α} : pick value remaining = none ↔ remaining = [] := by
  rw [pick,greatest_eq_none,List.zipIdx_eq_nil_iff]

theorem pick_split {value : α → κ} {remaining : List α} {a : α} {i : Nat} (found : pick value remaining = some (a,i)) :
    ∃ before after, remaining = before ++ a::after ∧ remaining.eraseIdx i = before ++ after ∧
      (∀ b ∈ before, value b < value a) ∧ ∀ b ∈ after, value b ≤ value a := by
  have agrees (p q : α × Nat) : decide (value p.1 < value q.1) = true ↔ value p.1 < value q.1 := decide_eq_true_iff
  obtain ⟨before,after,split,less,rest⟩ := greatest_split (m := fun p : α × Nat => value p.1) agrees found
  have whole : remaining = before.map Prod.fst ++ a::after.map Prod.fst := by
    rw [← List.zipIdx_map_fst 0 remaining,split,List.map_append,List.map_cons]
  have place : i = (before.map Prod.fst).length := by
    have at_ := congrArg (fun l => (l.map Prod.snd)[before.length]?) split
    simp only [List.zipIdx_map_snd,List.map_append,List.map_cons] at at_
    rw [List.getElem?_append_right (by rw [List.length_map]),List.length_map,Nat.sub_self] at at_
    have bound : before.length < remaining.length := by
      rw [whole,List.length_append,List.length_map,List.length_cons]
      omega
    rw [List.getElem?_eq_getElem (by rw [List.length_range']; exact bound),List.getElem_range'] at at_
    have := Option.some.inj at_
    rw [List.length_map]
    omega
  refine ⟨before.map Prod.fst,after.map Prod.fst,whole,?_,?_,?_⟩
  · rw [whole,place,List.eraseIdx_append_of_length_le (Nat.le_refl _),Nat.sub_self]
    rfl
  · intro b inside
    obtain ⟨p,member,rfl⟩ := List.mem_map.mp inside
    exact less p member
  · intro b inside
    obtain ⟨p,member,rfl⟩ := List.mem_map.mp inside
    exact rest p member

section Selection

variable {value : List α → α → κ}

/-- What is selected was there, each element as often. -/
theorem greedy_perm (value : List α → α → κ) (n : Nat) (selected remaining : List α) : ∃ left, (greedy value n selected remaining ++ left).Perm remaining := by
  induction n generalizing selected remaining with
  | zero => exact ⟨remaining,.refl _⟩
  | succ n ih =>
    rw [greedy]
    cases found : pick (value selected) remaining with
    | none => exact ⟨remaining,.refl _⟩
    | some p =>
      obtain ⟨a,i⟩ := p
      obtain ⟨before,after,split,rest,_⟩ := pick_split found
      obtain ⟨left,perm⟩ := ih (selected ++ [a]) (remaining.eraseIdx i)
      refine ⟨left,?_⟩
      rw [rest] at perm
      dsimp only
      rw [rest,split,List.cons_append]
      exact (perm.cons a).trans List.perm_middle.symm

theorem greedy_length (n : Nat) (selected remaining : List α) : (greedy value n selected remaining).length = min n remaining.length := by
  induction n generalizing selected remaining with
  | zero => simp [greedy]
  | succ n ih =>
    rw [greedy]
    cases found : pick (value selected) remaining with
    | none =>
      rw [pick_eq_none.mp found]
      rfl
    | some p =>
      obtain ⟨a,i⟩ := p
      obtain ⟨before,after,split,rest,_⟩ := pick_split found
      dsimp only
      rw [List.length_cons,ih,rest,split,List.length_append,List.length_append,List.length_cons]
      omega

theorem greedy_perm_self (value : List α → α → κ) {n : Nat} (selected : List α) {remaining : List α} (whole : remaining.length ≤ n) :
    (greedy value n selected remaining).Perm remaining := by
  obtain ⟨left,perm⟩ := greedy_perm value n selected remaining
  have size := perm.length_eq
  rw [List.length_append,greedy_length,Nat.min_eq_right whole] at size
  have none_left : left = [] := List.length_eq_zero_iff.mp (by omega)
  rwa [none_left,List.append_nil] at perm

/-- Of two elements that always have the same value the first is selected first. -/
theorem greedy_keeps {a b : α} (same : ∀ selected, value selected a = value selected b) (n : Nat) (selected : List α) {remaining : List α}
    (order : [a,b].Sublist remaining) (whole : remaining.length ≤ n) : [a,b].Sublist (greedy value n selected remaining) := by
  induction n generalizing selected remaining with
  | zero =>
    have size := order.length_le
    simp only [List.length_cons,List.length_nil] at size
    omega
  | succ n ih =>
    rw [greedy]
    cases found : pick (value selected) remaining with
    | none =>
      rw [pick_eq_none.mp found] at order
      exact absurd order (by simp)
    | some p =>
      obtain ⟨c,i⟩ := p
      obtain ⟨before,after,split,rest,less,_⟩ := pick_split found
      have shorter : (before ++ after).length ≤ n := by
        rw [split,List.length_append,List.length_cons] at whole
        rw [List.length_append]
        omega
      dsimp only
      rw [rest]
      rw [split] at order
      obtain ⟨first,second,both,early,late⟩ := List.sublist_append_iff.mp order
      rcases List.sublist_cons_iff.mp late with skips | ⟨more,takes,more_after⟩
      · have stays : [a,b].Sublist (before ++ after) := both ▸ early.append skips
        exact (ih (selected ++ [c]) stays shorter).cons c
      · -- One of the two is selected: not the second, as its value is not greater.
        subst takes
        match first,both with
        | [],both =>
          obtain ⟨rfl,rfl⟩ := List.cons.inj both
          have there : b ∈ before ++ after := List.mem_append_right _ (List.singleton_sublist.mp more_after)
          exact (List.singleton_sublist.mpr ((greedy_perm_self value _ shorter).mem_iff.mpr there)).cons_cons a
        | [x],both =>
          obtain ⟨rfl,tail⟩ := List.cons.inj both
          obtain ⟨rfl,_⟩ := List.cons.inj tail
          exact absurd (same selected) (less a (List.singleton_sublist.mp early)).ne
        | x::y::more',both =>
          have size := congrArg List.length both
          simp only [List.length_cons,List.length_nil,List.length_append] at size
          omega

end Selection

theorem pick_map {value : β → κ} (f : α → β) (remaining : List α) :
    pick value (remaining.map f) = (pick (fun a => value (f a)) remaining).map (fun p => (f p.1,p.2)) := by
  unfold pick
  rw [List.zipIdx_map,greatest_map]
  rfl

/-- Selection looks at the elements only through their values. -/
theorem greedy_map {value : List β → β → κ} (f : α → β) (n : Nat) (selected remaining : List α) :
    (greedy (fun selected a => value (selected.map f) (f a)) n selected remaining).map f = greedy value n (selected.map f) (remaining.map f) := by
  induction n generalizing selected remaining with
  | zero => rfl
  | succ n ih =>
    rw [greedy,greedy,pick_map]
    cases pick (fun a => value (selected.map f) (f a)) remaining with
    | none => rfl
    | some p =>
      dsimp only [Option.map_some]
      rw [List.map_cons,ih,List.map_append,List.eraseIdx_map]
      rfl

end Suixinji.Greedy
