import Mathlib.Data.List.Nodup
import Mathlib.Data.List.Rotate

/-! Queues whose first element of a kind gets a turn, and goes to the end with all it stood
behind: any two elements that are always of the kind take their turns alternately. -/
namespace Suixinji.Rotation

variable {α : Type} {ok : α → Bool} {q q' : List α} {a b x : α}

def Turn (ok : α → Bool) (q : List α) (x : α) (q' : List α) : Prop :=
  ∃ before after, q = before ++ x::after ∧ (∀ y ∈ before, ok y = false) ∧ ok x = true ∧ q' = after ++ (before ++ [x])

def Precedes (a b : α) (q : List α) : Prop := ∃ l m r, q = l ++ a::(m ++ b::r)

theorem Turn.perm (turn : Turn ok q x q') : q'.Perm q := by
  obtain ⟨before,after,rfl,_,_,rfl⟩ := turn
  have front : (before ++ [x]) ++ after = before ++ x::after := by simp
  rw [← front]
  exact List.perm_append_comm

theorem precedes_or {q : List α} (first : a ∈ q) (second : b ∈ q) (apart : a ≠ b) : Precedes a b q ∨ Precedes b a q := by
  obtain ⟨l,r,rfl⟩ := List.append_of_mem first
  rcases List.mem_append.mp second with inside | inside
  · obtain ⟨l,m,rfl⟩ := List.append_of_mem inside
    exact .inr ⟨l,m,r,by simp⟩
  · obtain ⟨m,r,rfl⟩ := List.append_of_mem ((List.mem_cons.mp inside).resolve_left (Ne.symm apart))
    exact .inl ⟨l,m,r,rfl⟩

/-- Of two elements of the kind the first gets the turn and falls behind, or neither does. -/
theorem Turn.precedes (turn : Turn ok q x q') (once : q.Nodup) (okA : ok a = true) (before : Precedes a b q) :
    x = a ∧ Precedes b a q' ∨ x ≠ a ∧ x ≠ b ∧ Precedes a b q' := by
  obtain ⟨pre,post,split,skipped,_,rfl⟩ := turn
  obtain ⟨l,m,r,rfl⟩ := before
  rcases List.append_eq_append_iff.mp split with ⟨as,rfl,tail⟩ | ⟨cs,rfl,tail⟩
  · cases as with
    | nil =>
      obtain ⟨rfl,rfl⟩ := List.cons.inj tail
      exact .inl ⟨rfl,m,r ++ l,[],by simp⟩
    | cons y as =>
      obtain ⟨rfl,_⟩ := List.cons.inj tail
      have refused := skipped a (List.mem_append_right _ List.mem_cons_self)
      rw [okA] at refused
      cases refused
  · cases cs with
    | nil =>
      obtain ⟨rfl,rfl⟩ := List.cons.inj tail
      exact .inl ⟨rfl,m,r ++ pre,[],by simp⟩
    | cons y cs =>
      obtain ⟨rfl,rfl⟩ := List.cons.inj tail
      have later : x ∉ cs ++ a::(m ++ b::r) := by
        rw [List.append_assoc] at once
        exact (List.nodup_cons.mp (List.nodup_append.mp once).2.1).1
      refine .inr ⟨?_,?_,cs,m,r ++ (pre ++ [x]),by simp⟩
      · rintro rfl
        exact later (by simp)
      · rintro rfl
        exact later (by simp)

/-- The elements that take turns, where some elements are always of the kind. -/
inductive Turns (always : α → Prop) : List α → List α → Prop
  | nil (q : List α) : Turns always q []
  | cons {ok : α → Bool} {q : List α} {x : α} {q' xs : List α} (turn : Turn ok q x q') (there : ∀ a, always a → ok a = true) (rest : Turns always q' xs) :
      Turns always q (x::xs)

section Fair

variable [DecidableEq α] {always : α → Prop} {xs : List α}

theorem Turns.count_of_precedes (turns : Turns always q xs) (once : q.Nodup) (apart : a ≠ b) (alwaysA : always a)
    (alwaysB : always b) (before : Precedes a b q) : xs.count b ≤ xs.count a ∧ xs.count a ≤ xs.count b + 1 := by
  induction turns generalizing a b with
  | nil q => exact ⟨Nat.le_refl 0,Nat.zero_le 1⟩
  | cons turn there rest ih =>
    have once' := turn.perm.nodup_iff.mpr once
    rcases turn.precedes once (there a alwaysA) before with ⟨rfl,behind⟩ | ⟨notA,notB,still⟩
    · obtain ⟨low,high⟩ := ih once' apart.symm alwaysB alwaysA behind
      rw [List.count_cons_self,List.count_cons_of_ne apart]
      omega
    · rw [List.count_cons_of_ne notA,List.count_cons_of_ne notB]
      exact ih once' apart alwaysA alwaysB still

/-- Any two elements that are always of the kind take equally many turns, up to one. -/
theorem Turns.fair (turns : Turns always q xs) (once : q.Nodup) (first : a ∈ q) (second : b ∈ q) (alwaysA : always a)
    (alwaysB : always b) : xs.count a ≤ xs.count b + 1 := by
  by_cases apart : a = b
  · rw [apart]
    exact Nat.le_succ _
  · rcases precedes_or first second apart with before | behind
    · exact (turns.count_of_precedes once apart alwaysA alwaysB before).2
    · exact (turns.count_of_precedes once (Ne.symm apart) alwaysB alwaysA behind).1.trans (Nat.le_succ _)

end Fair

/-- The turn of the element so many places after the cursor. -/
theorem turn_rotate (ok : α → Bool) {as : List α} {c : Nat} {before after : List α} (split : as.rotate c = before ++ x::after)
    (skipped : ∀ y ∈ before, ok y = false) (meets : ok x = true) : Turn ok (as.rotate c) x (as.rotate (c + before.length + 1)) := by
  refine ⟨before,after,split,skipped,meets,?_⟩
  have front : before ++ x::after = (before ++ [x]) ++ after := by simp
  have size : before.length + 1 = (before ++ [x]).length := by simp
  rw [Nat.add_assoc,← List.rotate_rotate,split,front,size,List.rotate_append_length_eq]

end Suixinji.Rotation
