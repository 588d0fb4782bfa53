import Mathlib.Data.List.Infix
import Mathlib.Data.List.Pairwise
import Mathlib.Data.List.Sort

/-! The first wanted elements with a property, looked for among the first fetched ones only. -/
namespace Suixinji.Window

variable {α κ : Type} {p : α → Bool} {a b : α} {as : List α} {wanted fetched : Nat}

theorem splits_cons {Q : List α → α → List α → Prop} :
    (∀ before b after, a::as = before ++ b::after → Q before b after) ↔
      Q [] a as ∧ ∀ before b after, as = before ++ b::after → Q (a::before) b after := by
  constructor
  · exact fun all => ⟨all [] a as rfl,fun before b after split => all (a::before) b after (congrArg (a::·) split)⟩
  · rintro ⟨head,tail⟩ before b after split
    cases before with
    | nil =>
      obtain ⟨rfl,rfl⟩ := List.cons.inj split
      exact head
    | cons c before =>
      obtain ⟨rfl,others⟩ := List.cons.inj split
      exact tail before b after others

/-- Nothing is missed exactly where every wanted element is fetched. -/
theorem take_filter_take : ((as.take fetched).filter p).take wanted = (as.filter p).take wanted ↔
    ∀ before a after, as = before ++ a::after → p a → before.countP p < wanted → before.length < fetched := by
  induction as generalizing wanted fetched with
  | nil => simp
  | cons a as ih =>
    rw [splits_cons (Q := fun before b _ => p b → before.countP p < wanted → before.length < fetched)]
    by_cases here : p a
    · cases wanted with
      | zero => simp
      | succ wanted =>
        cases fetched with
        | zero => simp [here]
        | succ fetched =>
          rw [List.take_succ_cons,List.filter_cons_of_pos here,List.filter_cons_of_pos here,List.take_succ_cons,List.take_succ_cons,
            List.cons_inj_right,ih]
          simp [here]
    · cases fetched with
      | zero =>
        have later := @ih wanted 0
        rw [List.filter_cons_of_neg here]
        simpa [here] using later
      | succ fetched =>
        rw [List.take_succ_cons,List.filter_cons_of_neg here,List.filter_cons_of_neg here,ih]
        simp [here]

/-- Where something is missed, there are fewer. -/
theorem length_take_filter_take : ((as.take fetched).filter p).take wanted = (as.filter p).take wanted ↔
    (((as.take fetched).filter p).take wanted).length = min wanted (as.countP p) := by
  have total : ((as.filter p).take wanted).length = min wanted (as.countP p) := by
    rw [List.length_take,List.countP_eq_length_filter]
  have first : ((as.take fetched).filter p).take wanted <+: (as.filter p).take wanted :=
    List.IsPrefix.take (List.IsPrefix.filter p (List.take_prefix fetched as)) wanted
  exact ⟨fun same => same ▸ total,fun size => first.eq_of_length (size.trans total.symm)⟩

section Sorted

variable [LinearOrder κ] {key : α → κ}

/-- Greatest key first. -/
def sortDesc (key : α → κ) (as : List α) : List α := as.insertionSort (fun a b => key b ≤ key a)

theorem sortDesc_perm (key : α → κ) (as : List α) : (sortDesc key as).Perm as := List.perm_insertionSort _ as

theorem sortDesc_sorted (as : List α) : (sortDesc key as).Pairwise (fun a b => key b ≤ key a) := by
  have total : Std.Total (fun a b : α => key b ≤ key a) := ⟨fun a b => le_total (key b) (key a)⟩
  have trans : IsTrans α (fun a b => key b ≤ key a) := ⟨fun _ _ _ first second => second.trans first⟩
  exact List.pairwise_insertionSort _ as

theorem eq_sortDesc {bs : List α} (apart : (as.map key).Nodup) (perm : bs.Perm as) (sorted : bs.Pairwise (fun a b => key b ≤ key a)) :
    bs = sortDesc key as := by
  refine (perm.trans (sortDesc_perm key as).symm).eq_of_pairwise ?_ sorted (sortDesc_sorted as)
  intro a b member member' below above
  exact List.inj_on_of_nodup_map apart (perm.mem_iff.mp member) ((sortDesc_perm key as).mem_iff.mp member') (le_antisymm above below)

/-- The order the elements came in does not matter. -/
theorem sortDesc_eq_of_perm {bs : List α} (apart : (as.map key).Nodup) (perm : bs.Perm as) : sortDesc key bs = sortDesc key as :=
  eq_sortDesc apart ((sortDesc_perm key bs).trans perm) (sortDesc_sorted bs)

theorem filter_sortDesc (apart : (as.map key).Nodup) : (sortDesc key as).filter p = sortDesc key (as.filter p) :=
  eq_sortDesc ((List.filter_sublist.map key).nodup apart) ((sortDesc_perm key as).filter p) ((sortDesc_sorted as).filter p)

/-- What comes before an element is what has a greater key. -/
theorem countP_before {before after : List α} (sorted : (before ++ a::after).Pairwise (fun a b => key b < key a)) (q : α → Bool) :
    before.countP q = (before ++ a::after).countP (fun b => key a < key b && q b) := by
  obtain ⟨_,others,first⟩ := List.pairwise_append.mp sorted
  have earlier : before.countP (fun b => key a < key b && q b) = before.countP q := by
    refine List.countP_congr (fun b member => ?_)
    simp [first b member a List.mem_cons_self]
  have later : (a::after).countP (fun b => key a < key b && q b) = 0 := by
    rw [List.countP_eq_zero]
    intro b member
    rcases List.mem_cons.mp member with rfl | member
    · simp
    · simp [((List.pairwise_cons.mp others).1 b member).le]
  rw [List.countP_append,earlier,later,Nat.add_zero]

/-- A wanted element is among the fetched ones: where fewer than the wanted number of those with the property are ranked above it, fewer
than the fetched number of all are. -/
def Uncrowded (key : α → κ) (p : α → Bool) (as : List α) (wanted fetched : Nat) : Prop :=
  ∀ a ∈ as, p a → as.countP (fun b => key a < key b && p b) < wanted → as.countP (fun b => key a < key b) < fetched

instance : Decidable (Uncrowded key p as wanted fetched) := inferInstanceAs (Decidable (∀ a ∈ as, _))

theorem uncrowded_iff (apart : (as.map key).Nodup) : Uncrowded key p as wanted fetched ↔
    (((sortDesc key as).take fetched).filter p).take wanted = ((sortDesc key as).filter p).take wanted := by
  have perm := sortDesc_perm key as
  have strict : (sortDesc key as).Pairwise (fun a b => key b < key a) := by
    have distinct := List.pairwise_map.mp ((perm.map key).nodup_iff.mpr apart)
    exact (sortDesc_sorted as).imp₂ (fun a b below apart => lt_of_le_of_ne below (Ne.symm apart)) distinct
  rw [take_filter_take]
  constructor
  · intro uncrowded before a after split visible few
    have member : a ∈ as := perm.mem_iff.mp (by rw [split]; simp)
    rw [split] at strict
    have above := countP_before strict p
    have above_all := countP_before strict (fun _ => true)
    rw [← split,perm.countP_eq] at above above_all
    simp only [Bool.and_true,List.countP_true] at above_all
    rw [above_all]
    exact uncrowded a member visible (above ▸ few)
  · intro splits a member visible few
    obtain ⟨before,after,split⟩ := List.append_of_mem (perm.mem_iff.mpr member)
    rw [split] at strict
    have above := countP_before strict p
    have above_all := countP_before strict (fun _ => true)
    rw [← split,perm.countP_eq] at above above_all
    simp only [Bool.and_true,List.countP_true] at above_all
    rw [← above_all]
    exact splits before a after split visible (above ▸ few)

/-- None with the property is missed exactly where fewer than the fetched number are ranked above each. -/
theorem fetched_iff (apart : (as.map key).Nodup) : ((sortDesc key as).take fetched).filter p = (sortDesc key as).filter p ↔
    ∀ a ∈ as, p a → as.countP (fun b => key a < key b) < fetched := by
  have perm := (sortDesc_perm key as).filter p
  have first : ((sortDesc key as).take fetched).filter p <+: (sortDesc key as).filter p := (List.take_prefix _ _).filter p
  have whole : ((sortDesc key as).filter p).take (as.countP p) = (sortDesc key as).filter p :=
    List.take_of_length_le (by rw [perm.length_eq,List.countP_eq_length_filter])
  have few : (((sortDesc key as).take fetched).filter p).take (as.countP p) = ((sortDesc key as).take fetched).filter p :=
    List.take_of_length_le (by rw [List.countP_eq_length_filter,← perm.length_eq]; exact first.length_le)
  have fewer : ∀ a ∈ as, p a → as.countP (fun b => key a < key b && p b) < as.countP p := by
    intro a member here
    rw [List.countP_eq_length_filter,List.countP_eq_length_filter]
    have part : (as.filter (fun b => key a < key b && p b)).Sublist (as.filter p) := by
      simpa only [List.filter_filter] using List.filter_sublist (p := fun b => key a < key b) (l := as.filter p)
    refine lt_of_le_of_ne part.length_le fun same => ?_
    have listed : a ∈ as.filter (fun b => key a < key b && p b) := part.eq_of_length same ▸ List.mem_filter.mpr ⟨member,here⟩
    simpa using (List.mem_filter.mp listed).2
  have crowded : Uncrowded key p as (as.countP p) fetched ↔ ∀ a ∈ as, p a → as.countP (fun b => key a < key b) < fetched :=
    forall₂_congr fun a member => forall_congr' fun here => imp_iff_right (fewer a member here)
  rw [← crowded,uncrowded_iff apart,whole,few]

end Sorted

/-- What is sorted by one measure is in an order exactly where no smaller measure comes with a place behind. -/
theorem pairwise_sorted_iff [LinearOrder κ] {key : α → κ} {R : α → α → Prop} (equal : ∀ a b, key a = key b → R a b) :
    (as.insertionSort (fun a b => key a ≤ key b)).Pairwise R ↔ ∀ a ∈ as, ∀ b ∈ as, key a < key b → R a b := by
  have total : Std.Total (fun a b : α => key a ≤ key b) := ⟨fun a b => le_total (key a) (key b)⟩
  have trans : IsTrans α (fun a b => key a ≤ key b) := ⟨fun _ _ _ first second => first.trans second⟩
  have sorted : (as.insertionSort (fun a b => key a ≤ key b)).Pairwise (fun a b => key a ≤ key b) := List.pairwise_insertionSort _ as
  constructor
  · intro ordered a first b second
    have both := (sorted.and ordered).imp (S := fun a b => (key a < key b → R a b) ∧ (key b < key a → R b a)) fun pair =>
      ⟨fun _ => pair.2,fun above => absurd pair.1 (not_le.mpr above)⟩
    have symm : Std.Symm (fun a b => (key a < key b → R a b) ∧ (key b < key a → R b a)) := ⟨fun _ _ pair => pair.symm⟩
    have self : ∀ a ∈ as.insertionSort (fun a b => key a ≤ key b), (key a < key a → R a a) ∧ (key a < key a → R a a) :=
      fun a _ => ⟨fun below => absurd below (lt_irrefl _),fun below => absurd below (lt_irrefl _)⟩
    exact (List.Pairwise.forall_of_forall self both ((List.mem_insertionSort _).mpr first) ((List.mem_insertionSort _).mpr second)).1
  · intro agrees
    refine sorted.imp_of_mem fun first second below => ?_
    rcases below.lt_or_eq with less | same
    · exact agrees _ ((List.mem_insertionSort _).mp first) _ ((List.mem_insertionSort _).mp second) less
    · exact equal _ _ same

end Suixinji.Window
