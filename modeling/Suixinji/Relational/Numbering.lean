import Mathlib.Data.List.Nodup
import Mathlib.Data.List.Perm.Basic
import Mathlib.Order.Bounds.Basic

/-! Items numbered 1..n, some of them done: the longest done prefix of the
numbers, and how minima and maxima of the numbers compute it. -/
namespace Suixinji.Numbering

variable {ι : Type} {items : List ι} {number : ι → ℕ} {done : ι → Prop}

def Numbered (items : List ι) (number : ι → ℕ) : Prop :=
  (items.map number).Perm (List.range' 1 items.length)

def ClearTo (items : List ι) (number : ι → ℕ) (done : ι → Prop) (k : ℕ) : Prop :=
  ∀ i ∈ items, number i ≤ k → done i

/-- `k` is the largest count of items such that all numbers up to it are done. -/
def IsWatermark (items : List ι) (number : ι → ℕ) (done : ι → Prop) (k : ℕ) : Prop :=
  IsGreatest {k | k ≤ items.length ∧ ClearTo items number done k} k

theorem Numbered.nil : Numbered ([] : List ι) number := by simp [Numbered]

theorem Numbered.mem_iff (numbered : Numbered items number) (k : ℕ) :
    (∃ i ∈ items, number i = k) ↔ 1 ≤ k ∧ k ≤ items.length := by
  have member : k ∈ items.map number ↔ k ∈ List.range' 1 items.length := List.Perm.mem_iff numbered
  rw [List.mem_map,List.mem_range'_1] at member
  rw [member]
  omega

theorem Numbered.nodup (numbered : Numbered items number) : (items.map number).Nodup :=
  numbered.nodup_iff.mpr List.nodup_range'

theorem Numbered.pos (numbered : Numbered items number) {i : ι} (member : i ∈ items) : 1 ≤ number i :=
  ((numbered.mem_iff _).mp ⟨i,member,rfl⟩).1

theorem Numbered.le (numbered : Numbered items number) {i : ι} (member : i ∈ items) :
    number i ≤ items.length :=
  ((numbered.mem_iff _).mp ⟨i,member,rfl⟩).2

theorem Numbered.append (numbered : Numbered items number) {i : ι} (next : number i = items.length + 1) :
    Numbered (items ++ [i]) number := by
  unfold Numbered at *
  rw [List.map_append,List.length_append,List.length_singleton,List.range'_concat]
  simp only [List.map_singleton,next,Nat.one_mul]
  rw [Nat.add_comm items.length 1]
  exact numbered.append_right _

theorem Numbered.map (numbered : Numbered items number) {g : ι → ι}
    (same : ∀ i ∈ items, number (g i) = number i) : Numbered (items.map g) number := by
  unfold Numbered at *
  rw [List.map_map,List.length_map]
  have equal : items.map (number ∘ g) = items.map number := List.map_congr_left same
  rwa [equal]

/-- The greatest number is the count, 0 where there is none. -/
theorem Numbered.max (numbered : Numbered items number) : (items.map number).max?.getD 0 = items.length := by
  by_cases none : items.length = 0
  · simp [List.eq_nil_of_length_eq_zero none]
  · have top : (items.map number).max? = some items.length := by
      rw [List.max?_eq_some_iff]
      constructor
      · rw [List.mem_map]
        exact (numbered.mem_iff _).mpr (by omega)
      · intro n inside
        obtain ⟨i,member,rfl⟩ := List.mem_map.mp inside
        exact numbered.le member
    rw [top,Option.getD_some]

theorem ClearTo.mono {j k : ℕ} (clear : ClearTo items number done k) (le : j ≤ k) :
    ClearTo items number done j :=
  fun i member bound => clear i member (le_trans bound le)

theorem isWatermark_zero (done : ι → Prop) : IsWatermark ([] : List ι) number done 0 :=
  ⟨⟨le_refl 0,by intro i member; simp at member⟩,fun _ bound => bound.1⟩

theorem isWatermark_of_open {k : ℕ} (numbered : Numbered items number)
    (clear : ClearTo items number done k) {i : ι} (member : i ∈ items) (next : number i = k + 1)
    (open_ : ¬ done i) : IsWatermark items number done k := by
  have bound := numbered.le member
  refine ⟨⟨by omega,clear⟩,?_⟩
  rintro j ⟨_,clearJ⟩
  by_contra above
  exact open_ (clearJ i member (by omega))

theorem isWatermark_length (clear : ClearTo items number done items.length) :
    IsWatermark items number done items.length :=
  ⟨⟨le_refl _,clear⟩,fun _ bound => bound.1⟩

theorem IsWatermark.next_open {k : ℕ} (numbered : Numbered items number)
    (mark : IsWatermark items number done k) (below : k < items.length) :
    ∃ i ∈ items, number i = k + 1 ∧ ¬ done i := by
  obtain ⟨i,member,next⟩ := (numbered.mem_iff (k + 1)).mpr (by omega)
  refine ⟨i,member,next,fun isDone => ?_⟩
  have clear : ClearTo items number done (k + 1) := by
    intro j inside bound
    by_cases last : number j = k + 1
    · have same := List.inj_on_of_nodup_map numbered.nodup inside member (last.trans next.symm)
      exact same ▸ isDone
    · exact mark.1.2 j inside (by omega)
  have le : k + 1 ≤ k := mark.2 ⟨below,clear⟩
  omega

theorem IsWatermark.mono {κ : Type} {items' : List κ} {number' : κ → ℕ} {done' : κ → Prop} {j k : ℕ}
    (before : IsWatermark items number done j) (after : IsWatermark items' number' done' k)
    (length : items.length ≤ items'.length)
    (kept : ∀ i' ∈ items', number' i' ≤ j → done' i') : j ≤ k :=
  after.2 ⟨le_trans before.1.1 length,kept⟩

/-- Another view of the items, with at least as many and as much of them done, has
the same watermark exactly if each item done there is done here as well, or has an
open item before it. -/
theorem IsWatermark.iff_undisturbed {κ : Type} {items' : List κ} {number' : κ → ℕ} {done' : κ → Prop} {k : ℕ}
    (numbered : Numbered items number) (numbered' : Numbered items' number') (mark : IsWatermark items number done k)
    (kept : ∀ i ∈ items, ∃ i' ∈ items', number' i' = number i ∧ (done i → done' i')) :
    IsWatermark items' number' done' k ↔ ∀ i' ∈ items', done' i' →
      (∃ i ∈ items, number i = number' i' ∧ done i) ∨ ∃ j' ∈ items', number' j' < number' i' ∧ ¬ done' j' := by
  have clear : ClearTo items' number' done' k := by
    intro i' inside low
    have positive := numbered'.pos inside
    have bound := mark.1.1
    obtain ⟨i,member,same⟩ := (numbered.mem_iff (number' i')).mpr (by omega)
    obtain ⟨j',there,same',isDone⟩ := kept i member
    rw [List.inj_on_of_nodup_map numbered'.nodup inside there (same.symm.trans same'.symm)]
    exact isDone (mark.1.2 i member (by omega))
  have enough : k ≤ items'.length := by
    by_cases zero : k = 0
    · omega
    · obtain ⟨i,member,rfl⟩ := (numbered.mem_iff k).mpr ⟨by omega,mark.1.1⟩
      obtain ⟨i',there,same,_⟩ := kept i member
      exact same ▸ numbered'.le there
  constructor
  · intro mark' i' inside isDone
    by_cases low : number' i' ≤ k
    · have positive := numbered'.pos inside
      have bound := mark.1.1
      obtain ⟨i,member,same⟩ := (numbered.mem_iff (number' i')).mpr (by omega)
      exact .inl ⟨i,member,same,mark.1.2 i member (by omega)⟩
    · have bound := numbered'.le inside
      obtain ⟨j',there,next,open_⟩ := mark'.next_open numbered' (by omega)
      refine .inr ⟨j',there,?_,open_⟩
      by_contra above
      rw [List.inj_on_of_nodup_map numbered'.nodup inside there (by omega : number' i' = number' j')] at isDone
      exact open_ isDone
  · intro undisturbed
    refine ⟨⟨enough,clear⟩,?_⟩
    rintro j ⟨bound,clearJ⟩
    by_contra above
    obtain ⟨i',inside,next⟩ := (numbered'.mem_iff (k + 1)).mpr (by omega)
    rcases undisturbed i' inside (clearJ i' inside (by omega)) with ⟨i,member,same,isDone⟩ | ⟨j',there,earlier,open_⟩
    · obtain ⟨i₀,member₀,next₀,open_⟩ := mark.next_open numbered (by have := numbered.le member; omega)
      rw [List.inj_on_of_nodup_map numbered.nodup member member₀ (by omega : number i = number i₀)] at isDone
      exact open_ isDone
    · exact open_ (clearJ j' there (by omega))

section Aggregates
variable {current : ℕ} (numbered : Numbered items number) (clear : ClearTo items number done current)
include numbered clear

theorem isWatermark_of_min {first : ℕ} {i : ι} (member : i ∈ items) (at_ : number i = first)
    (above : current < first) (open_ : ¬ done i)
    (least : ∀ j ∈ items, current < number j → ¬ done j → first ≤ number j) :
    IsWatermark items number done (max current (first - 1)) := by
  have stop : max current (first - 1) = first - 1 := by omega
  rw [stop]
  refine isWatermark_of_open numbered ?_ member (by omega) open_
  intro j inside bound
  by_contra notDone
  by_cases low : number j ≤ current
  · exact notDone (clear j inside low)
  · have := least j inside (by omega) notDone
    omega

theorem isWatermark_of_max {last : ℕ} {i : ι} (member : i ∈ items) (at_ : number i = last)
    (above : current < last) (greatest : ∀ j ∈ items, current < number j → number j ≤ last)
    (none : ∀ j ∈ items, current < number j → done j) :
    IsWatermark items number done (max current last) := by
  have allDone : ∀ j ∈ items, done j := fun j inside =>
    if low : number j ≤ current then clear j inside low else none j inside (by omega)
  have atEnd : max current last = items.length := by
    have bound := numbered.le member
    obtain ⟨j,inside,top⟩ := (numbered.mem_iff items.length).mpr (by omega)
    have := greatest j inside (by omega)
    omega
  rw [atEnd]
  exact isWatermark_length (fun j inside _ => allDone j inside)

/-- With no number above a clear prefix, the watermark stays. -/
theorem isWatermark_of_none (bound : current ≤ items.length) (none : ∀ j ∈ items, number j ≤ current) :
    IsWatermark items number done current := by
  have atEnd : current = items.length := by
    by_contra below
    obtain ⟨j,inside,top⟩ := (numbered.mem_iff items.length).mpr (by omega)
    have := none j inside
    omega
  subst atEnd
  exact isWatermark_length clear

end Aggregates

end Suixinji.Numbering
