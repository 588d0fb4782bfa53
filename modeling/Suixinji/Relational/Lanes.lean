import Mathlib.Data.List.Infix
import Suixinji.Relational.Firsts

/-! Lists of candidates that take turns to fill a selection with a budget, and the places of the
first occurrences in a list. -/
namespace Suixinji.Lanes
open Suixinji.Firsts

variable {κ : Type} [DecidableEq κ] {target : Nat} {selected lane : List κ}

/-- A lane's turn: its first candidate that is not selected, while there is room. -/
def turn (target : Nat) (selected lane : List κ) : List κ :=
  match lane.find? (· ∉ selected) with
  | some k => if selected.length < target then selected ++ [k] else selected
  | none => selected

def turns (target : Nat) (selected : List κ) (lanes : List (List κ)) : List κ := lanes.foldl (turn target) selected

/-- A turn leaves the selection as it is, or adds the first candidate that is not in it. -/
theorem turn_cases (target : Nat) (selected lane : List κ) :
    turn target selected lane = selected ∨
      ∃ k, lane.find? (· ∉ selected) = some k ∧ selected.length < target ∧ turn target selected lane = selected ++ [k] := by
  unfold turn
  cases found : lane.find? (· ∉ selected) with
  | none => exact .inl rfl
  | some k =>
    by_cases room : selected.length < target
    · exact .inr ⟨k,rfl,room,if_pos room⟩
    · exact .inl (if_neg room)

theorem turn_of_find {k : κ} (found : lane.find? (· ∉ selected) = some k) (room : selected.length < target) :
    turn target selected lane = selected ++ [k] := by
  rw [turn,found]
  exact if_pos room

theorem turn_starts : selected <+: turn target selected lane := by
  rcases turn_cases target selected lane with same | ⟨k,_,_,added⟩
  · rw [same]
  · rw [added]
    exact List.prefix_append _ _

theorem turns_induction {P : List κ → Prop} {lanes : List (List κ)} (start : P selected)
    (step : ∀ selected, ∀ lane ∈ lanes, P selected → P (turn target selected lane)) : P (turns target selected lanes) := by
  induction lanes generalizing selected with
  | nil => exact start
  | cons lane lanes ih =>
    have first := step selected lane List.mem_cons_self start
    exact ih first (fun s l inside => step s l (List.mem_cons_of_mem _ inside))

theorem turns_start {lanes : List (List κ)} : selected <+: turns target selected lanes :=
  turns_induction (List.prefix_refl _) (fun _ _ _ before => before.trans turn_starts)

theorem turns_append (before after : List (List κ)) :
    turns target selected (before ++ after) = turns target (turns target selected before) after := List.foldl_append

theorem turns_length {lanes : List (List κ)} (room : selected.length ≤ target) :
    (turns target selected lanes).length ≤ target := by
  refine turns_induction (P := fun selected => selected.length ≤ target) room ?_
  intro selected lane _ room
  rcases turn_cases target selected lane with same | ⟨k,_,free,added⟩
  · rwa [same]
  · rw [added,List.length_append,List.length_singleton]
    exact free

theorem turns_nodup {lanes : List (List κ)} (once : selected.Nodup) : (turns target selected lanes).Nodup := by
  apply turns_induction once
  intro selected lane _ once
  rcases turn_cases target selected lane with same | ⟨k,found,_,added⟩
  · rwa [same]
  · have new : k ∉ selected := by simpa using List.find?_some found
    rw [added,List.nodup_append]
    refine ⟨once,List.nodup_singleton k,?_⟩
    intro a old b last same
    exact new (List.mem_singleton.mp last ▸ same ▸ old)

theorem turns_subset {all : List κ} {lanes : List (List κ)} (start : selected ⊆ all) (inside : ∀ lane ∈ lanes, lane ⊆ all) :
    turns target selected lanes ⊆ all := by
  refine turns_induction (P := fun selected => selected ⊆ all) start ?_
  intro selected lane member start
  rcases turn_cases target selected lane with same | ⟨k,found,_,added⟩
  · rwa [same]
  · rw [added]
    have new : k ∈ all := inside lane member (List.mem_of_find?_eq_some found)
    exact List.append_subset.mpr ⟨start,List.cons_subset.mpr ⟨new,List.nil_subset _⟩⟩

/-- A selection with as much of the rest as there is room for. -/
def fill {κ : Type} (target : Nat) (selected rest : List κ) : List κ := (selected ++ rest.take (target - selected.length)).take target

section Fill

variable {κ : Type} {target : Nat} {selected rest : List κ} (room : selected.length ≤ target)
include room

theorem fill_eq : fill target selected rest = selected ++ rest.take (target - selected.length) := by
  rw [fill,List.take_of_length_le]
  rw [List.length_append,List.length_take]
  omega

theorem fill_starts : selected <+: fill target selected rest := by
  rw [fill_eq room]
  exact List.prefix_append _ _

theorem fill_sublist : (fill target selected rest).Sublist (selected ++ rest) := by
  rw [fill_eq room]
  exact (List.Sublist.refl selected).append (List.take_sublist _ _)

theorem length_fill : (fill target selected rest).length = min target (selected ++ rest).length := by
  rw [fill_eq room,List.length_append,List.length_append,List.length_take]
  omega

end Fill

/-- The first occurrences of a kind stand in the order of their places. -/
theorem idxOf_firsts (p : κ → Bool) (as : List κ) :
    (firsts id (as.filter p)).Pairwise (fun a b => as.idxOf a < as.idxOf b) := by
  induction as using List.reverseRecOn with
  | nil => exact List.Pairwise.nil
  | append_singleton as x ih =>
    have inside {a : κ} (member : a ∈ firsts id (as.filter p)) : a ∈ as := (List.mem_filter.mp (firsts_subset member)).1
    have kept : (firsts id (as.filter p)).Pairwise (fun a b => (as ++ [x]).idxOf a < (as ++ [x]).idxOf b) := by
      refine ih.imp_of_mem ?_
      intro a b first second below
      rwa [List.idxOf_append_of_mem (inside first),List.idxOf_append_of_mem (inside second)]
    rw [List.filter_append]
    by_cases kind : p x = true
    · rw [List.filter_cons_of_pos kind,List.filter_nil,firsts_snoc]
      split
      · exact kept
      · rename_i new
        have fresh : x ∉ as := fun old => new (mem_keys_firsts.mpr (List.mem_map_of_mem (List.mem_filter.mpr ⟨old,kind⟩)))
        rw [List.pairwise_append]
        refine ⟨kept,List.pairwise_singleton _ _,?_⟩
        intro a first b last
        rw [List.mem_singleton.mp last,List.idxOf_append_of_mem (inside first),List.idxOf_append_of_notMem fresh]
        have place := List.idxOf_lt_length_iff.mpr (inside first)
        omega
    · rwa [List.filter_cons_of_neg kind,List.filter_nil,List.append_nil]

/-- The one of a kind with the least measure is found first, where the measure grows along the list. -/
theorem find?_eq_of_least {α : Type} {as : List α} {m : α → Nat} {p : α → Bool} {a : α}
    (grows : as.Pairwise (fun a b => m a < m b)) (member : a ∈ as) (meets : p a = true)
    (least : ∀ b ∈ as, p b = true → m a ≤ m b) : as.find? p = some a := by
  obtain ⟨before,after,rfl⟩ := List.append_of_mem member
  rw [List.find?_append,List.find?_cons_of_pos meets]
  have none_before : before.find? p = none := by
    apply List.find?_eq_none.mpr
    intro b inside meets'
    have below := (List.pairwise_append.mp grows).2.2 b inside a List.mem_cons_self
    have above := least b (List.mem_append_left _ inside) meets'
    omega
  rw [none_before]
  rfl

end Suixinji.Lanes
