import Mathlib.Algebra.Order.Field.Rat
import Mathlib.Data.List.Induction
import Mathlib.Data.List.Sort
import Mathlib.Data.Rat.Floor
import Mathlib.Tactic.Linarith
import Mathlib.Tactic.Positivity

/-! The first of the greatest elements of a list, under a strict comparison that is computed,
lists in the order of a number each element has, and rounded scores. -/
namespace Suixinji.Ranking

variable {α : Type} {lt : α → α → Bool} {as : List α} {a : α}

def greatest (lt : α → α → Bool) : List α → Option α
  | [] => none
  | a :: as => some (as.foldl (fun best b => if lt best b then b else best) a)

theorem greatest_eq_none : greatest lt as = none ↔ as = [] := by
  cases as <;> simp [greatest]

theorem greatest_mem (found : greatest lt as = some a) : a ∈ as := by
  cases as with
  | nil => cases found
  | cons first as =>
    cases found
    have inside (best : α) : as.foldl (fun best b => if lt best b then b else best) best ∈ best :: as := by
      induction as generalizing best with
      | nil => exact List.mem_singleton.mpr rfl
      | cons b as ih =>
        rw [List.foldl_cons]
        split
        · exact List.mem_cons_of_mem _ (ih b)
        · rcases List.mem_cons.mp (ih best) with same | later
          · exact List.mem_cons.mpr (.inl same)
          · exact List.mem_cons_of_mem _ (List.mem_cons_of_mem _ later)
    exact inside first

theorem greatest_snoc (as : List α) (a : α) :
    greatest lt (as ++ [a]) = some (match greatest lt as with | none => a | some b => if lt b a then a else b) := by
  cases as with
  | nil => rfl
  | cons first as =>
    rw [List.cons_append,greatest,greatest,List.foldl_append]
    rfl

theorem greatest_of_first {rest : List α} (least : ∀ b ∈ rest, lt a b = false) : greatest lt (a::rest) = some a := by
  rw [greatest]
  congr 1
  induction rest with
  | nil => rfl
  | cons b rest ih =>
    rw [List.foldl_cons,least b List.mem_cons_self]
    exact ih (fun c later => least c (List.mem_cons_of_mem _ later))

theorem greatest_map {β : Type} {lt : β → β → Bool} (f : α → β) (as : List α) :
    greatest lt (as.map f) = (greatest (fun a b => lt (f a) (f b)) as).map f := by
  cases as with
  | nil => rfl
  | cons first as =>
    rw [List.map_cons,greatest,greatest,Option.map_some]
    congr 1
    induction as generalizing first with
    | nil => rfl
    | cons a as ih =>
      rw [List.map_cons,List.foldl_cons,List.foldl_cons,← ih,apply_ite f]

/-- Comparison of one measure, and then of another where the first is equal. -/
def byThen {β : Type} [LT β] [DecidableLT β] [DecidableEq β] (f : α → β) (next : α → α → Bool) (a b : α) : Bool :=
  f a < f b || (f a = f b && next a b)

/-- Comparison of one measure. -/
def less {β : Type} [LT β] [DecidableLT β] (f : α → β) (a b : α) : Bool := f a < f b

section Measured

variable {κ : Type} [LinearOrder κ] {m : α → κ}

theorem le_greatest (agrees : ∀ a b, lt a b = true ↔ m a < m b) (found : greatest lt as = some a) :
    ∀ b ∈ as, m b ≤ m a := by
  cases as with
  | nil => cases found
  | cons first as =>
    cases found
    have run (best : α) : m best ≤ m (as.foldl (fun best b => if lt best b then b else best) best) ∧
        ∀ b ∈ as, m b ≤ m (as.foldl (fun best b => if lt best b then b else best) best) := by
      induction as generalizing best with
      | nil => exact ⟨le_rfl,by simp⟩
      | cons b as ih =>
        obtain ⟨grown,rest⟩ := ih (if lt best b then b else best)
        have both : m best ≤ m (if lt best b then b else best) ∧ m b ≤ m (if lt best b then b else best) := by
          by_cases better : lt best b = true
          · rw [if_pos better]
            exact ⟨((agrees best b).mp better).le,le_rfl⟩
          · rw [if_neg better]
            exact ⟨le_rfl,not_lt.mp (fun h => better ((agrees best b).mpr h))⟩
        exact ⟨both.1.trans grown,List.forall_mem_cons.mpr ⟨both.2.trans grown,rest⟩⟩
    exact List.forall_mem_cons.mpr (run first)

/-- It is the first of them: what comes before it is less. -/
theorem greatest_split (agrees : ∀ a b, lt a b = true ↔ m a < m b) (found : greatest lt as = some a) :
    ∃ before after, as = before ++ a::after ∧ (∀ b ∈ before, m b < m a) ∧ ∀ b ∈ after, m b ≤ m a := by
  induction as using List.reverseRecOn generalizing a with
  | nil => cases found
  | append_singleton as x ih =>
    rw [greatest_snoc] at found
    cases earlier : greatest lt as with
    | none =>
      rw [earlier] at found
      obtain rfl := Option.some.inj found
      obtain rfl := greatest_eq_none.mp earlier
      exact ⟨[],[],rfl,fun b none => absurd none List.not_mem_nil,fun b none => absurd none List.not_mem_nil⟩
    | some b =>
      rw [earlier] at found
      dsimp only at found
      split at found
      · rename_i better
        obtain rfl := Option.some.inj found
        refine ⟨as,[],rfl,fun c inside => ?_,fun c none => absurd none List.not_mem_nil⟩
        exact (le_greatest agrees earlier c inside).trans_lt ((agrees b x).mp better)
      · rename_i worse
        obtain rfl := Option.some.inj found
        obtain ⟨before,after,rfl,less,rest⟩ := ih earlier
        refine ⟨before,after ++ [x],by rw [List.append_assoc,List.cons_append],less,fun c inside => ?_⟩
        rcases List.mem_append.mp inside with old | last
        · exact rest c old
        · rw [List.mem_singleton.mp last]
          exact not_lt.mp (fun h => worse ((agrees b x).mpr h))

/-- The greatest element does not depend on the order, where no two elements are equally great. -/
theorem greatest_eq_of_perm {bs : List α} (agrees : ∀ a b, lt a b = true ↔ m a < m b) (perm : as.Perm bs)
    (apart : ∀ a ∈ as, ∀ b ∈ as, m a = m b → a = b) : greatest lt as = greatest lt bs := by
  cases found : greatest lt as with
  | none =>
    obtain rfl := greatest_eq_none.mp found
    rw [List.nil_perm.mp perm]
    rfl
  | some a =>
    cases found' : greatest lt bs with
    | none =>
      rw [greatest_eq_none.mp found',List.perm_nil] at perm
      rw [perm] at found
      cases found
    | some b =>
      have member := perm.mem_iff.mpr (greatest_mem found')
      have below := le_greatest agrees found b member
      have above := le_greatest agrees found' a (perm.mem_iff.mp (greatest_mem found))
      rw [apart a (greatest_mem found) b member (le_antisymm above below)]

end Measured

/-- A stable sort keeps the order of the elements that it takes for equal. -/
theorem orderedInsert_keeps {r s : α → α → Prop} [DecidableRel r] (total : ∀ a b, r a b ∨ r b a) (trans : ∀ a b c, r a b → r b c → r a c)
    {a : α} {as : List α} (sorted : as.Pairwise (fun a b => r a b ∧ (r b a → s a b))) (first : ∀ b ∈ as, s a b) :
    (as.orderedInsert r a).Pairwise (fun a b => r a b ∧ (r b a → s a b)) := by
  induction as with
  | nil => exact List.pairwise_singleton _ _
  | cons b as ih =>
    obtain ⟨least,rest⟩ := List.pairwise_cons.mp sorted
    rw [List.orderedInsert_cons]
    split
    · rename_i before
      refine List.pairwise_cons.mpr ⟨fun c inside => ⟨?_,fun _ => first c inside⟩,sorted⟩
      rcases List.mem_cons.mp inside with rfl | later
      · exact before
      · exact trans a b c before (least c later).1
    · rename_i after
      refine List.pairwise_cons.mpr ⟨fun c inside => ?_,ih rest (fun c later => first c (List.mem_cons_of_mem _ later))⟩
      rcases List.mem_cons.mp ((List.perm_orderedInsert r a as).mem_iff.mp inside) with rfl | later
      · exact ⟨(total b c).resolve_right after,fun back => absurd back after⟩
      · exact least c later

theorem insertionSort_keeps {r s : α → α → Prop} [DecidableRel r] (total : ∀ a b, r a b ∨ r b a) (trans : ∀ a b c, r a b → r b c → r a c)
    {as : List α} (sorted : as.Pairwise s) : (as.insertionSort r).Pairwise (fun a b => r a b ∧ (r b a → s a b)) := by
  induction as with
  | nil => exact List.Pairwise.nil
  | cons a as ih =>
    obtain ⟨first,rest⟩ := List.pairwise_cons.mp sorted
    rw [List.insertionSort_cons]
    exact orderedInsert_keeps total trans (ih rest) (fun b inside => first b ((List.perm_insertionSort r as).mem_iff.mp inside))

/-- Sorted by a number, those with the same one in the order they had. -/
def sortBy (key : α → Nat) (as : List α) : List α := as.insertionSort (fun a b => key a ≤ key b)

section Sorted

variable {key : α → Nat}

theorem sortBy_perm (key : α → Nat) (as : List α) : (sortBy key as).Perm as := List.perm_insertionSort _ as

theorem sortBy_sorted (as : List α) : (sortBy key as).Pairwise (fun a b => key a ≤ key b) := by
  have total : Std.Total (fun a b : α => key a ≤ key b) := ⟨fun a b => Nat.le_total (key a) (key b)⟩
  have trans : IsTrans α (fun a b => key a ≤ key b) := ⟨fun _ _ _ first second => Nat.le_trans first second⟩
  exact List.pairwise_insertionSort _ as

/-- Those with one number are left as they were. -/
theorem filter_sortBy {p : α → Bool} (same : ∀ a b, p a → p b → key a = key b) (as : List α) :
    (sortBy key as).filter p = as.filter p := by
  have level : (as.filter p).Pairwise (fun a b => key a ≤ key b) := by
    apply List.pairwise_of_forall_mem_list
    intro a member b member'
    exact Nat.le_of_eq (same a b (List.mem_filter.mp member).2 (List.mem_filter.mp member').2)
  have inside := (List.sublist_insertionSort level List.filter_sublist).filter p
  rw [List.filter_filter] at inside
  simp only [Bool.and_self] at inside
  exact (inside.eq_of_length ((sortBy_perm key as).filter p).length_eq.symm).symm

theorem sortBy_eq {bs : List α} (perm : as.Perm bs) (sorted : bs.Pairwise (fun a b => key a ≤ key b))
    (apart : ∀ a ∈ bs, ∀ b ∈ bs, key a = key b → a = b) : sortBy key as = bs := by
  have all := (sortBy_perm key as).trans perm
  refine all.eq_of_pairwise ?_ (sortBy_sorted as) sorted
  intro a b member member' below above
  exact apart a (all.mem_iff.mp member) b member' (Nat.le_antisymm below above)

end Sorted

/-- Sorting forgets the order the elements came in, where no two of them are equally great. -/
theorem mergeSort_eq_of_perm {le : α → α → Bool} {bs : List α} (trans : ∀ a b c, le a b → le b c → le a c)
    (total : ∀ a b, le a b || le b a) (apart : ∀ a ∈ as, ∀ b ∈ as, le a b → le b a → a = b) (perm : as.Perm bs) :
    as.mergeSort le = bs.mergeSort le := by
  have all := ((List.mergeSort_perm as le).trans perm).trans (List.mergeSort_perm bs le).symm
  refine all.eq_of_pairwise ?_ (List.pairwise_mergeSort trans total as) (List.pairwise_mergeSort trans total bs)
  intro a b member member' below above
  exact apart a (List.mem_mergeSort.mp member) b (perm.mem_iff.mpr (List.mem_mergeSort.mp member')) below above

/-- In a list without repetitions, sorted by a measure, an element has the place that the smaller ones fill. -/
theorem idxOf_eq_length_filter {κ : Type} [LinearOrder κ] {m : α → κ} [DecidableEq α] (sorted : as.Pairwise (fun a b => m a < m b))
    (inside : a ∈ as) : as.idxOf a = (as.filter (fun b => m b < m a)).length := by
  induction as with
  | nil => exact absurd inside List.not_mem_nil
  | cons first as ih =>
    obtain ⟨least,rest⟩ := List.pairwise_cons.mp sorted
    by_cases same : first = a
    · subst same
      have none_before : (first::as).filter (fun b => m b < m first) = [] := by
        rw [List.filter_eq_nil_iff]
        intro b member
        rw [decide_eq_true_eq,not_lt]
        rcases List.mem_cons.mp member with rfl | later
        · exact le_rfl
        · exact (least b later).le
      rw [none_before,List.idxOf_cons_self]
      rfl
    · have later : a ∈ as := (List.mem_cons.mp inside).resolve_left (Ne.symm same)
      have counted : (first::as).filter (fun b => m b < m a) = first::as.filter (fun b => m b < m a) :=
        List.filter_cons_of_pos (decide_eq_true (least a later))
      rw [List.idxOf_cons_ne _ same,ih rest later,counted]
      rfl

/-- In a list sorted by a strict relation, those are among the first `n` that have fewer before them. -/
theorem mem_take_iff {before : α → α → Prop} [DecidableRel before] (sorted : as.Pairwise (fun a b => before a b ∧ ¬before b a))
    (irrefl : ∀ a ∈ as, ¬before a a) (inside : a ∈ as) {n : Nat} :
    a ∈ as.take n ↔ (as.filter (fun b => before b a)).length < n := by
  induction as generalizing n with
  | nil => exact absurd inside List.not_mem_nil
  | cons first as ih =>
    obtain ⟨least,rest⟩ := List.pairwise_cons.mp sorted
    obtain ⟨irrefl_first,irrefl⟩ := List.forall_mem_cons.mp irrefl
    cases n with
    | zero => exact iff_of_false List.not_mem_nil (Nat.not_lt_zero _)
    | succ n =>
      rw [List.take_succ_cons]
      rcases List.mem_cons.mp inside with rfl | later
      · refine iff_of_true List.mem_cons_self ?_
        rw [List.filter_eq_nil_iff.mpr (List.forall_mem_cons.mpr ⟨by simpa using irrefl_first,fun b later => by simpa using (least b later).2⟩)]
        exact Nat.succ_pos n
      · have apart : a ≠ first := fun same => irrefl_first (same ▸ (least a later).1)
        have counted : (first::as).filter (fun b => before b a) = first::as.filter (fun b => before b a) :=
          List.filter_cons_of_pos (decide_eq_true (least a later).1)
        rw [List.mem_cons,or_iff_right apart,counted,List.length_cons,Nat.succ_lt_succ_iff]
        exact ih rest irrefl later

section Prefix

variable {β : Type} {g : α → List β}

/-- The first so many of the elements that a list yields in turn, where `P` is of
the elements one of the list yields: whether there is one with `P` among them. -/
theorem exists_take_flatMap {P : β → Prop} {Q : α → Prop} (same : ∀ a, ∀ b ∈ g a, P b ↔ Q a) (n : Nat) (as : List α) :
    (∃ b ∈ (as.flatMap g).take n, P b) ↔ ∃ pre a post, as = pre ++ a::post ∧ Q a ∧ g a ≠ [] ∧ (pre.flatMap g).length < n := by
  induction as generalizing n with
  | nil => simp
  | cons a as ih =>
    rw [List.flatMap_cons,List.take_append]
    constructor
    · rintro ⟨b,member,here⟩
      rcases List.mem_append.mp member with member | member
      · have inside := List.mem_of_mem_take member
        have positive : 0 < n := by
          rcases Nat.eq_zero_or_pos n with rfl | positive
          · simp at member
          · exact positive
        exact ⟨[],a,as,rfl,(same a b inside).mp here,List.ne_nil_of_mem inside,positive⟩
      · obtain ⟨pre,a',post,rfl,meets,some_one,room⟩ := (ih _).mp ⟨b,member,here⟩
        refine ⟨a::pre,a',post,rfl,meets,some_one,?_⟩
        rw [List.flatMap_cons,List.length_append]
        omega
    · rintro ⟨pre,a',post,split,meets,some_one,room⟩
      cases pre with
      | nil =>
        obtain ⟨rfl,rfl⟩ := List.cons.inj split
        obtain ⟨b,rest,first⟩ := List.exists_cons_of_ne_nil some_one
        refine ⟨b,List.mem_append_left _ ?_,(same a b (by rw [first]; exact List.mem_cons_self)).mpr meets⟩
        rw [first,← Nat.succ_pred_eq_of_pos room]
        exact List.mem_cons_self
      | cons head pre =>
        obtain ⟨rfl,rfl⟩ := List.cons.inj split
        rw [List.flatMap_cons,List.length_append] at room
        obtain ⟨b,member,here⟩ := (ih (n - (g a).length)).mpr ⟨pre,a',post,rfl,meets,some_one,by omega⟩
        exact ⟨b,List.mem_append_right _ member,here⟩

end Prefix

/-- `round(x, digits)`: to the even neighbour at a half. -/
def roundTo (digits : Nat) (x : ℚ) : ℚ :=
  let scaled := x * 10 ^ digits
  let below : ℤ := ⌊scaled⌋
  let part := scaled - below
  (if part < 1/2 ∨ (part = 1/2 ∧ below % 2 = 0) then below else below + 1) / 10 ^ digits

theorem roundTo_mono (digits : Nat) {x y : ℚ} (below : x ≤ y) : roundTo digits x ≤ roundTo digits y := by
  have scaled : x * 10 ^ digits ≤ y * 10 ^ digits := mul_le_mul_of_nonneg_right below (by positivity)
  have floors : ⌊x * 10 ^ digits⌋ ≤ ⌊y * 10 ^ digits⌋ := Int.floor_le_floor scaled
  have rounded : (if x * 10 ^ digits - ⌊x * 10 ^ digits⌋ < 1/2 ∨ (x * 10 ^ digits - ⌊x * 10 ^ digits⌋ = 1/2 ∧ ⌊x * 10 ^ digits⌋ % 2 = 0)
        then ⌊x * 10 ^ digits⌋ else ⌊x * 10 ^ digits⌋ + 1) ≤
      if y * 10 ^ digits - ⌊y * 10 ^ digits⌋ < 1/2 ∨ (y * 10 ^ digits - ⌊y * 10 ^ digits⌋ = 1/2 ∧ ⌊y * 10 ^ digits⌋ % 2 = 0)
        then ⌊y * 10 ^ digits⌋ else ⌊y * 10 ^ digits⌋ + 1 := by
    rcases floors.lt_or_eq with less | same
    · split <;> split <;> omega
    · rw [same]
      split
      · split <;> omega
      · rename_i up
        split
        · rename_i down
          refine absurd ?_ up
          rcases down with half | ⟨half,even⟩
          · exact .inl (by linarith)
          · rcases lt_or_eq_of_le scaled with less | equal
            · exact .inl (by linarith)
            · exact .inr ⟨by rw [equal]; exact half,even⟩
        · rfl
  unfold roundTo
  refine div_le_div_of_nonneg_right ?_ (by positivity)
  exact_mod_cast rounded

end Suixinji.Ranking
