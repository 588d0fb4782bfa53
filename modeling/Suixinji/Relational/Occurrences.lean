import Mathlib.Data.List.Infix
import Mathlib.Data.List.Range
import Mathlib.Order.Basic

/-! Where a list first and last occurs in another: `str.find` and `str.rfind`. -/
namespace Suixinji.Occurrences

variable {α : Type} {part other text : List α} {p q n : Nat}

def OccursAt (part text : List α) (q : Nat) : Prop := part <+: text.drop q

theorem OccursAt.fits (there : OccursAt part text q) (some_text : part ≠ []) : q + part.length ≤ text.length := by
  have size := there.length_le
  have positive := List.length_pos_iff.mpr some_text
  rw [List.length_drop] at size
  omega

theorem occursAt_take (some_text : part ≠ []) : OccursAt part (text.take n) q ↔ OccursAt part text q ∧ q + part.length ≤ n := by
  have positive := List.length_pos_iff.mpr some_text
  unfold OccursAt
  rw [List.drop_take,List.prefix_take_iff]
  refine and_congr_right (fun there => ?_)
  omega

theorem occursAt_exclusive (apart : ¬part <+: other) (apart' : ¬other <+: part) (here : OccursAt part text q) : ¬OccursAt other text q :=
  fun there => (List.prefix_or_prefix_of_prefix here there).elim apart apart'

theorem infix_iff : part <:+: text ↔ ∃ q ≤ text.length, OccursAt part text q := by
  constructor
  · rintro ⟨before,after,rfl⟩
    refine ⟨before.length,by rw [List.length_append,List.length_append]; omega,?_⟩
    rw [OccursAt,List.append_assoc,List.drop_left]
    exact List.prefix_append _ _
  · rintro ⟨q,_,there⟩
    exact there.isInfix.trans (List.drop_suffix q text).isInfix

section Find

variable [DecidableEq α]

instance : Decidable (OccursAt part text q) := inferInstanceAs (Decidable (part <+: text.drop q))

/-- The first place, or -1. -/
def find (part text : List α) : Int :=
  match (List.range (text.length + 1)).find? (fun q => OccursAt part text q) with
  | some q => q
  | none => -1

/-- The last place, or -1. -/
def rfind (part text : List α) : Int :=
  match (List.range (text.length + 1)).reverse.find? (fun q => OccursAt part text q) with
  | some q => q
  | none => -1

theorem find_of_infix (inside : part <:+: text) :
    ∃ q : Nat, find part text = q ∧ OccursAt part text q ∧ ∀ p < q, ¬OccursAt part text p := by
  obtain ⟨r,within,there⟩ := infix_iff.mp inside
  unfold find
  cases found : (List.range (text.length + 1)).find? (fun q => OccursAt part text q) with
  | none =>
    rw [List.find?_eq_none] at found
    exact absurd (decide_eq_true there) (found r (List.mem_range.mpr (by omega)))
  | some q =>
    rw [List.find?_range_eq_some] at found
    exact ⟨q,rfl,of_decide_eq_true found.1,fun p before there => by simpa [there] using found.2.2 p before⟩

/-- The last place, where there is one. -/
theorem rfind_spec (text : List α) (some_text : part ≠ []) :
    (∃ q : Nat, rfind part text = q ∧ OccursAt part text q ∧ ∀ p, OccursAt part text p → p ≤ q) ∨
      rfind part text = -1 ∧ ∀ p, ¬OccursAt part text p := by
  have within {p : Nat} (there : OccursAt part text p) : p ∈ (List.range (text.length + 1)).reverse := by
    have := there.fits some_text
    rw [List.mem_reverse,List.mem_range]
    omega
  unfold rfind
  cases found : (List.range (text.length + 1)).reverse.find? (fun q => OccursAt part text q) with
  | none =>
    rw [List.find?_eq_none] at found
    exact .inr ⟨rfl,fun p there => found p (within there) (decide_eq_true there)⟩
  | some q =>
    obtain ⟨there,before,after,split,skipped⟩ := List.find?_eq_some_iff_append.mp found
    refine .inl ⟨q,rfl,of_decide_eq_true there,fun p here => ?_⟩
    have member := within here
    have falling : (before ++ q::after).Pairwise (· > ·) := by
      rw [← split,List.pairwise_reverse]
      exact List.pairwise_lt_range
    rw [split] at member
    rcases List.mem_append.mp member with early | late
    · have refused := skipped p early
      simp [here] at refused
    · rcases List.mem_cons.mp late with rfl | later
      · exact Nat.le_refl _
      · exact Nat.le_of_lt (List.rel_of_pairwise_cons (List.pairwise_append.mp falling).2.1 later)

end Find

end Suixinji.Occurrences
