import Mathlib.Algebra.GroupWithZero.Nat
import Mathlib.Algebra.Order.BigOperators.Group.List

/-! A list cut into consecutive pieces, each as long as its weight allows. -/
namespace Suixinji.Packing

variable {α : Type} {weight : α → Nat} {limit : Nat} {pending rest : List α} {a : α}

def total (weight : α → Nat) (piece : List α) : Nat := (piece.map weight).sum

/-- What a piece may be: no heavier than the limit, or one element. -/
def Fits (weight : α → Nat) (limit : Nat) (piece : List α) : Prop := total weight piece ≤ limit ∨ ∃ a, piece = [a]

@[simp]
theorem total_nil : total weight [] = 0 := rfl

@[simp]
theorem total_append (first second : List α) : total weight (first ++ second) = total weight first + total weight second := by
  rw [total,List.map_append,List.sum_append]
  rfl

@[simp]
theorem total_singleton (a : α) : total weight [a] = weight a := List.sum_singleton

/-- The piece that is begun, and the pieces of the rest. -/
def pack (weight : α → Nat) (limit : Nat) : List α → List α → List (List α)
  | pending,[] => [pending]
  | pending,a::rest =>
    if pending ≠ [] ∧ limit < total weight pending + weight a then pending::pack weight limit [a] rest
    else pack weight limit (pending ++ [a]) rest

/-- An element begins a piece where the one before is full, and else joins it. -/
theorem pack_cons (pending : List α) (a : α) (rest : List α) :
    (pending ≠ [] ∧ limit < total weight pending + weight a ∧
      pack weight limit pending (a::rest) = pending::pack weight limit [a] rest) ∨
    ((pending ≠ [] → total weight pending + weight a ≤ limit) ∧
      pack weight limit pending (a::rest) = pack weight limit (pending ++ [a]) rest) := by
  by_cases full : pending ≠ [] ∧ limit < total weight pending + weight a
  · exact .inl ⟨full.1,full.2,by rw [pack,if_pos full]⟩
  · exact .inr ⟨fun begun => not_lt.mp (fun past => full ⟨begun,past⟩),by rw [pack,if_neg full]⟩

theorem pack_flatten (pending rest : List α) : (pack weight limit pending rest).flatten = pending ++ rest := by
  induction rest generalizing pending with
  | nil => rw [pack,List.flatten_singleton,List.append_nil]
  | cons a rest ih =>
    rcases @pack_cons α weight limit pending a rest with ⟨_,_,same⟩ | ⟨_,same⟩
    · rw [same,List.flatten_cons,ih]
      rfl
    · rw [same,ih,List.append_assoc]
      rfl

theorem fits_snoc (room : pending ≠ [] → total weight pending + weight a ≤ limit) : Fits weight limit (pending ++ [a]) := by
  by_cases begun : pending = []
  · exact .inr ⟨a,by rw [begun]; rfl⟩
  · refine .inl ?_
    rw [total_append,total_singleton]
    exact room begun

theorem pack_fits (fits : Fits weight limit pending) : ∀ piece ∈ pack weight limit pending rest, Fits weight limit piece := by
  induction rest generalizing pending with
  | nil =>
    intro piece member
    rw [List.mem_singleton.mp member]
    exact fits
  | cons a rest ih =>
    rcases pack_cons pending a rest with ⟨_,_,same⟩ | ⟨room,same⟩
    · intro piece member
      rw [same] at member
      rcases List.mem_cons.mp member with rfl | later
      · exact fits
      · exact ih (.inr ⟨a,rfl⟩) piece later
    · rw [same]
      exact ih (fits_snoc room)

theorem pack_begun (begun : pending ≠ [] ∨ rest ≠ []) : ∀ piece ∈ pack weight limit pending rest, piece ≠ [] := by
  induction rest generalizing pending with
  | nil =>
    intro piece member
    rw [List.mem_singleton.mp member]
    exact begun.resolve_right (fun none_ => none_ rfl)
  | cons a rest ih =>
    rcases pack_cons pending a rest with ⟨some_pending,_,same⟩ | ⟨_,same⟩
    · intro piece member
      rw [same] at member
      rcases List.mem_cons.mp member with rfl | later
      · exact some_pending
      · exact ih (.inl (List.cons_ne_nil _ _)) piece later
    · rw [same]
      exact ih (.inl (List.append_ne_nil_of_right_ne_nil _ (List.cons_ne_nil _ _)))

/-- A piece that holds more than one element and is too heavy does not fit. -/
theorem not_fits {first second third : List α} (begun : pending ≠ []) (full : limit < total weight pending + weight a)
    (whole : second = first ++ pending ++ a::third) : ¬Fits weight limit second := by
  subst whole
  rintro (light | ⟨b,alone⟩)
  · have cut : a::third = [a] ++ third := rfl
    rw [cut,total_append,total_append,total_append,total_singleton] at light
    omega
  · have size := congrArg List.length alone
    have positive := List.length_pos_iff.mpr begun
    simp only [List.length_append,List.length_cons,List.length_nil] at size
    omega

/-- No cut of a text that ends as this one does has fewer pieces. The first piece of such a cut does not reach past the first
piece here, so what it leaves ends as the rest does. -/
theorem pack_fewest (begun : pending ≠ []) (before : List α) {parts : List (List α)} (fit : ∀ part ∈ parts, Fits weight limit part)
    (whole : parts.flatten = before ++ pending ++ rest) : (pack weight limit pending rest).length ≤ parts.length := by
  induction rest generalizing pending before parts with
  | nil =>
    rw [pack,List.length_singleton]
    apply List.length_pos_iff.mpr
    rintro rfl
    have empty := List.append_eq_nil_iff.mp (List.append_eq_nil_iff.mp whole.symm).1
    exact begun empty.2
  | cons a rest ih =>
    rcases pack_cons pending a rest with ⟨_,full,same⟩ | ⟨_,same⟩
    · cases parts with
      | nil => exact absurd whole.symm (by simp)
      | cons part parts =>
        rw [same,List.length_cons,List.length_cons,Nat.add_le_add_iff_right]
        rw [List.flatten_cons] at whole
        rcases List.append_eq_append_iff.mp whole with ⟨left,cut,tail⟩ | ⟨past,cut,tail⟩
        · refine ih (List.cons_ne_nil _ _) left (fun p member => fit p (List.mem_cons_of_mem _ member)) ?_
          rw [tail,List.append_assoc]
          rfl
        · cases past with
          | nil =>
            refine ih (List.cons_ne_nil _ _) [] (fun p member => fit p (List.mem_cons_of_mem _ member)) ?_
            rw [List.nil_append] at tail
            rw [← tail]
            rfl
          | cons b third =>
            rw [List.cons_append] at tail
            obtain ⟨rfl,_⟩ := List.cons.inj tail
            exact absurd (fit part List.mem_cons_self) (not_fits begun full cut)
    · rw [same]
      refine ih (List.append_ne_nil_of_right_ne_nil _ (List.cons_ne_nil _ _)) before fit ?_
      rw [whole,List.append_assoc,List.append_assoc,List.append_assoc]
      rfl

end Suixinji.Packing
