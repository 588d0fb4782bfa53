import Mathlib.Data.List.Dedup
import Mathlib.Data.List.Induction
import Mathlib.Data.List.Nodup

/-! The elements of a list without those whose key an earlier one has. -/
namespace Suixinji.Firsts

variable {α κ : Type} [DecidableEq κ] {key : α → κ} {p : α → Bool}

/-- A loop with a set of the keys seen. -/
def firsts (key : α → κ) (as : List α) : List α := as.foldl (fun kept a => if key a ∈ kept.map key then kept else kept ++ [a]) []

theorem firsts_snoc (as : List α) (a : α) :
    firsts key (as ++ [a]) = if key a ∈ (firsts key as).map key then firsts key as else firsts key as ++ [a] := by
  rw [firsts,List.foldl_append]
  rfl

theorem mem_keys_firsts {as : List α} {k : κ} : k ∈ (firsts key as).map key ↔ k ∈ as.map key := by
  induction as using List.reverseRecOn with
  | nil => rfl
  | append_singleton as a ih =>
    rw [firsts_snoc]
    split
    · rename_i seen
      rw [ih,List.map_append,List.mem_append,List.map_singleton,List.mem_singleton]
      exact ⟨.inl,fun h => h.elim id (fun same => same ▸ ih.mp (same ▸ seen))⟩
    · rw [List.map_append,List.map_append,List.mem_append,List.mem_append,ih]

theorem firsts_once (as : List α) : ((firsts key as).map key).Nodup := by
  induction as using List.reverseRecOn with
  | nil => exact List.nodup_nil
  | append_singleton as a ih =>
    rw [firsts_snoc]
    split
    · exact ih
    · rename_i new
      rw [List.map_append,List.nodup_append]
      refine ⟨ih,List.nodup_singleton _,fun k old k' last same => new ?_⟩
      rw [List.map_singleton,List.mem_singleton] at last
      exact last ▸ same ▸ old

theorem firsts_subset {as : List α} {a : α} (member : a ∈ firsts key as) : a ∈ as := by
  induction as using List.reverseRecOn with
  | nil => exact member
  | append_singleton as x ih =>
    rw [firsts_snoc] at member
    split at member
    · exact List.mem_append_left _ (ih member)
    · exact (List.mem_append.mp member).elim (fun old => List.mem_append_left _ (ih old)) (List.mem_append_right _)

theorem firsts_eq_self {as : List α} (once : (as.map key).Nodup) : firsts key as = as := by
  induction as using List.reverseRecOn with
  | nil => rfl
  | append_singleton as a ih =>
    rw [List.map_append,List.nodup_append] at once
    have new : key a ∉ as.map key := fun old => once.2.2 _ old _ List.mem_cons_self rfl
    rw [firsts_snoc,ih once.1,if_neg new]

/-- How many elements of a kind are kept: as many as they have keys. -/
theorem length_filter_firsts (respects : ∀ a b, key a = key b → p a = p b) (as : List α) :
    ((firsts key as).filter p).length = ((as.filter p).map key).dedup.length := by
  rw [← List.length_map key]
  apply List.Perm.length_eq
  rw [List.perm_ext_iff_of_nodup ((firsts_once as).sublist (List.filter_sublist.map _)) (List.nodup_dedup _)]
  intro k
  rw [List.mem_dedup]
  constructor
  · intro kept
    obtain ⟨a,member,rfl⟩ := List.mem_map.mp kept
    obtain ⟨inside,meets⟩ := List.mem_filter.mp member
    exact List.mem_map_of_mem (List.mem_filter.mpr ⟨firsts_subset inside,meets⟩)
  · intro listed
    obtain ⟨a,member,rfl⟩ := List.mem_map.mp listed
    obtain ⟨inside,meets⟩ := List.mem_filter.mp member
    have key_kept : key a ∈ (firsts key as).map key := mem_keys_firsts.mpr (List.mem_map_of_mem inside)
    obtain ⟨b,kept,same⟩ := List.mem_map.mp key_kept
    exact List.mem_map.mpr ⟨b,List.mem_filter.mpr ⟨kept,by rw [respects b a same,meets]⟩,same⟩

theorem mem_values_firsts {β : Type} {value : α → β} {as : List α}
    (repeats : ∀ before a after, as = before ++ a::after → key a ∈ before.map key → value a ∈ before.map value) {a : α}
    (inside : a ∈ as) : value a ∈ (firsts key as).map value := by
  induction as using List.reverseRecOn generalizing a with
  | nil => exact absurd inside List.not_mem_nil
  | append_singleton as x ih =>
    have earlier : ∀ y ∈ as, value y ∈ (firsts key as).map value := fun y old =>
      ih (fun before z after split seen => repeats before z (after ++ [x]) (by rw [split,List.append_assoc,List.cons_append]) seen) old
    have of_earlier : value a ∈ as.map value → value a ∈ (firsts key as).map value := by
      intro listed
      obtain ⟨y,old,same⟩ := List.mem_map.mp listed
      exact same ▸ earlier y old
    rw [firsts_snoc]
    rcases List.mem_append.mp inside with old | last
    · have kept := earlier a old
      split
      · exact kept
      · rw [List.map_append]
        exact List.mem_append_left _ kept
    · obtain rfl := List.mem_singleton.mp last
      split
      · rename_i seen
        exact of_earlier (repeats as a [] rfl (mem_keys_firsts.mp seen))
      · rw [List.map_append]
        exact List.mem_append_right _ List.mem_cons_self

theorem firsts_append_firsts (as bs : List α) : firsts key (as ++ firsts key bs) = firsts key (as ++ bs) := by
  induction bs using List.reverseRecOn with
  | nil => rfl
  | append_singleton bs b ih =>
    rw [firsts_snoc,← List.append_assoc as bs,firsts_snoc]
    split
    · rename_i seen
      have listed : key b ∈ (firsts key (as ++ bs)).map key := by
        rw [mem_keys_firsts,List.map_append]
        exact List.mem_append_right _ (mem_keys_firsts.mp seen)
      rw [ih,if_pos listed]
    · rw [← List.append_assoc,firsts_snoc,ih]

/-- A repetition may be dropped early. -/
theorem firsts_append_firsts_append (as bs cs : List α) : firsts key (as ++ firsts key bs ++ cs) = firsts key (as ++ bs ++ cs) := by
  induction cs using List.reverseRecOn with
  | nil => rw [List.append_nil,List.append_nil,firsts_append_firsts]
  | append_singleton cs c ih => rw [← List.append_assoc,firsts_snoc,ih,← List.append_assoc,firsts_snoc]

theorem mem_firsts_of_new {before : List α} {a : α} (new : key a ∉ before.map key) (after : List α) : a ∈ firsts key (before ++ a::after) := by
  induction after using List.reverseRecOn with
  | nil =>
    rw [firsts_snoc,if_neg (mem_keys_firsts.not.mpr new)]
    exact List.mem_append_right _ List.mem_cons_self
  | append_singleton after x ih =>
    rw [← List.cons_append,← List.append_assoc,firsts_snoc]
    split
    · exact ih
    · exact List.mem_append_left _ ih

theorem exists_split_snoc {Q : List α → Prop} {as : List α} {x a : α} :
    (∃ before after, as ++ [x] = before ++ a::after ∧ Q before) ↔
      (∃ before after, as = before ++ a::after ∧ Q before) ∨ a = x ∧ Q as := by
  constructor
  · rintro ⟨before,after,whole,holds⟩
    rcases List.eq_nil_or_concat after with rfl | ⟨after,y,rfl⟩
    · obtain ⟨rfl,same⟩ := List.append_inj' whole rfl
      exact .inr ⟨(List.singleton_inj.mp same).symm,holds⟩
    · rw [List.concat_eq_append,← List.cons_append,← List.append_assoc] at whole
      obtain ⟨rfl,_⟩ := List.append_inj' whole rfl
      exact .inl ⟨before,after,rfl,holds⟩
  · rintro (⟨before,after,rfl,holds⟩ | ⟨rfl,holds⟩)
    · exact ⟨before,after ++ [x],by simp,holds⟩
    · exact ⟨as,[],rfl,holds⟩

theorem exists_split_cons {Q : List α → α → Prop} {as : List α} {x : α} :
    (∃ before a after, x::as = before ++ a::after ∧ Q before a) ↔
      Q [] x ∨ ∃ before a after, as = before ++ a::after ∧ Q (x::before) a := by
  constructor
  · rintro ⟨before,a,after,whole,holds⟩
    cases before with
    | nil =>
      obtain ⟨rfl,rfl⟩ := List.cons.inj whole
      exact .inl holds
    | cons y before =>
      obtain ⟨rfl,rfl⟩ := List.cons.inj whole
      exact .inr ⟨before,a,after,rfl,holds⟩
  · rintro (holds | ⟨before,a,after,rfl,holds⟩)
    · exact ⟨[],x,as,rfl,holds⟩
    · exact ⟨x::before,a,after,rfl,holds⟩

/-- The first so many of a kind that are kept: those whose key is new, with room for them. -/
theorem mem_take_firsts (respects : ∀ a b, key a = key b → p a = p b) (n : Nat) (as : List α) {a : α} :
    a ∈ ((firsts key as).filter p).take n ↔ p a = true ∧ ∃ before after, as = before ++ a::after ∧
      key a ∉ before.map key ∧ ((before.filter p).map key).dedup.length < n := by
  induction as using List.reverseRecOn with
  | nil => simp [firsts]
  | append_singleton as x ih =>
    rw [exists_split_snoc (Q := fun before => key a ∉ before.map key ∧ ((before.filter p).map key).dedup.length < n)]
    rw [and_or_left,← ih,firsts_snoc,← length_filter_firsts respects]
    split
    · rename_i seen
      refine ⟨.inl,fun h => h.elim id ?_⟩
      rintro ⟨_,rfl,new,_⟩
      exact absurd (mem_keys_firsts.mp seen) new
    · rename_i new
      rw [List.filter_append,List.take_append,List.mem_append]
      refine or_congr_right ?_
      by_cases kind : p x = true
      · rw [List.filter_cons_of_pos kind,List.filter_nil]
        cases room : n - ((firsts key as).filter p).length with
        | zero =>
          simp only [List.take_zero,List.not_mem_nil,false_iff]
          rintro ⟨_,_,_,small⟩
          omega
        | succ k =>
          rw [List.take_succ_cons,List.take_nil,List.mem_singleton]
          constructor
          · rintro rfl
            exact ⟨kind,rfl,fun old => new (mem_keys_firsts.mpr old),by omega⟩
          · exact fun h => h.2.1
      · rw [List.filter_cons_of_neg kind,List.filter_nil,List.take_nil]
        simp only [List.not_mem_nil,false_iff]
        rintro ⟨kind',rfl,_⟩
        exact kind kind'

end Suixinji.Firsts
