import Mathlib.Data.List.MinMax
import Mathlib.Data.List.Pairwise
import Suixinji.Retrieval.Precedence

/-! When the two passes over the tasks do not depend on the order of the list. -/
namespace Suixinji.Retrieval
open Suixinji.Ranking Suixinji.Grouping

variable {F κ : Type}

/-- What both passes rely on: the first members of a group are in dispute where two of them differ,
and otherwise one of them is chosen, whatever their order. -/
structure Lawful (p : Precedence F κ) (differ : Item F → Item F → Prop) : Prop where
  contested : ∀ leaders, leaders.Nodup → leaders ≠ [] →
    (p.contested leaders = true ↔ ∃ i ∈ leaders, ∃ j ∈ leaders, differ i j)
  irrefl : ∀ i, ¬differ i i
  winner : ∀ leaders, leaders ≠ [] → ∃ w ∈ leaders, p.winner leaders = some w
  perm : ∀ leaders leaders', leaders.Perm leaders' → (leaders.map (·.memory.id)).Nodup → p.contested leaders = false →
    p.winner leaders = p.winner leaders'
  text : Function.Injective p.text

variable {p : Precedence F κ} {differ : Item F → Item F → Prop} {group group' : List (Item F)} {i : Item F}

theorem Lawful.contested_perm (lawful : Lawful p differ) {leaders leaders' : List (Item F)} (once : leaders.Nodup)
    (some : leaders ≠ []) (perm : leaders.Perm leaders') : p.contested leaders = p.contested leaders' := by
  have some' : leaders' ≠ [] := fun none => some (List.perm_nil.mp (none ▸ perm))
  apply Bool.eq_iff_iff.mpr
  rw [lawful.contested leaders once some,lawful.contested leaders' (perm.nodup_iff.mp once) some']
  simp only [perm.mem_iff]

variable [LinearOrder κ]

theorem mem_leadersOf : i ∈ leadersOf p group ↔ i ∈ group ∧ ∀ j ∈ group, p.key j.memory ≤ p.key i.memory := by
  simp only [leadersOf,List.mem_filter,decide_eq_true_eq]
  refine and_congr_right (fun member => ?_)
  rw [eq_comm,List.max?_eq_some_iff]
  simp only [List.forall_mem_map]
  exact and_iff_right (List.mem_map_of_mem member)

theorem leadersOf_ne_nil (some : group ≠ []) : leadersOf p group ≠ [] := by
  cases found : (group.map (fun i => p.key i.memory)).max? with
  | none => exact absurd (List.map_eq_nil_iff.mp (List.max?_eq_none_iff.mp found)) some
  | some best =>
    obtain ⟨attained,greatest⟩ := List.max?_eq_some_iff.mp found
    obtain ⟨i,member,rfl⟩ := List.mem_map.mp attained
    exact List.ne_nil_of_mem (mem_leadersOf.mpr ⟨member,fun j inside => greatest _ (List.mem_map_of_mem inside)⟩)

theorem max?_perm {xs ys : List κ} (perm : xs.Perm ys) : xs.max? = ys.max? := by
  ext best
  simp only [List.max?_eq_some_iff,perm.mem_iff]

theorem leadersOf_perm (perm : group.Perm group') : (leadersOf p group).Perm (leadersOf p group') := by
  unfold leadersOf
  rw [max?_perm (perm.map _)]
  exact perm.filter _

theorem filter_map_own {notes : Item F → Note F} (own : ∀ i, (notes i).id = i.memory.id)
    (once : (group.map (·.memory.id)).Nodup) (member : i ∈ group) :
    (group.map notes).filter (·.id = i.memory.id) = [notes i] := by
  induction group with
  | nil => cases member
  | cons j rest ih =>
    rw [List.map_cons,List.nodup_cons] at once
    rw [List.map_cons]
    rcases List.mem_cons.mp member with rfl | later
    · have none : (rest.map notes).filter (·.id = i.memory.id) = [] := by
        simp only [List.filter_eq_nil_iff,List.forall_mem_map,decide_eq_true_eq,own]
        exact fun j inside same => once.1 (List.mem_map.mpr ⟨j,inside,same⟩)
      rw [List.filter_cons_of_pos (by simp [own]),none]
    · have other : j.memory.id ≠ i.memory.id := fun same => once.1 (List.mem_map.mpr ⟨i,later,same.symm⟩)
      rw [List.filter_cons_of_neg (by simpa [own] using other),ih once.2 later]

theorem filter_map_other {notes : Item F → Note F} (own : ∀ i, (notes i).id = i.memory.id) {id : String}
    (absent : ∀ j ∈ group, j.memory.id ≠ id) : (group.map notes).filter (·.id = id) = [] := by
  simpa only [List.filter_eq_nil_iff,List.forall_mem_map,decide_eq_true_eq,own] using absent

variable [LinearOrder F] [Zero F] [One F] [Add F] [Sub F] {r : Reading F}

def groupVerdicts (r : Reading F) (p : Precedence F κ) (group : List (Item F)) (i : Item F) : List Verdict :=
  ((groupNotes r p group).filter (·.id = i.memory.id)).map Note.verdict

theorem groupNotes_short (short : group.length ≤ 1) : groupNotes r p group = [] := if_pos short

/-- In dispute, the first members are marked and nothing else is. -/
theorem groupNotes_contested (long : 1 < group.length) (contested : p.contested (leadersOf p group) = true) :
    groupNotes r p group = (leadersOf p group).map (fun i => ⟨i.memory.id,none,.ambiguous⟩) := by
  rw [groupNotes,if_neg (by omega),if_pos contested]

/-- Without a dispute, one member is held above all others. -/
theorem groupNotes_decided (lawful : Lawful p differ) (once : (group.map (·.memory.id)).Nodup) (long : 1 < group.length)
    (settled : p.contested (leadersOf p group) = false) :
    ∃ w ∈ leadersOf p group, p.winner (leadersOf p group) = some w ∧
      ∀ i ∈ group, groupVerdicts r p group i = [if i = w then .authoritative else .superseded] := by
  have some : group ≠ [] := by
    rintro rfl
    simp at long
  obtain ⟨w,leads,wins⟩ := lawful.winner _ (leadersOf_ne_nil (p := p) some)
  refine ⟨w,leads,wins,fun i member => ?_⟩
  rw [groupVerdicts,groupNotes,if_neg (by omega),if_neg (by simp [settled]),
    filter_map_own (by intro j; split <;> rfl) once member,wins]
  have same : i.memory.id = w.memory.id ↔ i = w :=
    ⟨List.inj_on_of_nodup_map once member (mem_leadersOf.mp leads).1,fun h => h ▸ rfl⟩
  by_cases best : i = w
  · simp [best]
  · simp [best,same]

theorem filter_contested (once : (group.map (·.memory.id)).Nodup) (long : 1 < group.length)
    (contested : p.contested (leadersOf p group) = true) (member : i ∈ group) :
    (i ∈ leadersOf p group → (groupNotes r p group).filter (·.id = i.memory.id) = [⟨i.memory.id,none,.ambiguous⟩]) ∧
      (i ∉ leadersOf p group → (groupNotes r p group).filter (·.id = i.memory.id) = []) := by
  have sub : (leadersOf p group).Sublist group := List.filter_sublist
  rw [groupNotes_contested long contested]
  refine ⟨filter_map_own (fun _ => rfl) (once.sublist (sub.map _)),fun trails => filter_map_other (fun _ => rfl) ?_⟩
  intro j leads same
  exact trails (List.inj_on_of_nodup_map once (sub.subset leads) member same ▸ leads)

theorem groupVerdicts_contested (once : (group.map (·.memory.id)).Nodup) (long : 1 < group.length)
    (contested : p.contested (leadersOf p group) = true) (member : i ∈ group) :
    (i ∈ leadersOf p group → groupVerdicts r p group i = [.ambiguous]) ∧
      (i ∉ leadersOf p group → groupVerdicts r p group i = []) := by
  obtain ⟨leads,trails⟩ := filter_contested (r := r) once long contested member
  exact ⟨fun h => by rw [groupVerdicts,leads h]; rfl,fun h => by rw [groupVerdicts,trails h]; rfl⟩

theorem authoritative_unique (lawful : Lawful p differ) (once : (group.map (·.memory.id)).Nodup) {j : Item F}
    (member : i ∈ group) (member' : j ∈ group) (first : .authoritative ∈ groupVerdicts r p group i)
    (second : .authoritative ∈ groupVerdicts r p group j) : i = j := by
  by_cases short : group.length ≤ 1
  · rw [groupVerdicts,groupNotes_short short] at first
    cases first
  cases contested : p.contested (leadersOf p group) with
  | true =>
    obtain ⟨leads,trails⟩ := groupVerdicts_contested (r := r) once (by omega) contested member
    by_cases h : i ∈ leadersOf p group
    · simp [leads h] at first
    · simp [trails h] at first
  | false =>
    obtain ⟨w,_,_,decided⟩ := groupNotes_decided (r := r) lawful once (by omega) contested
    rw [decided i member,List.mem_singleton] at first
    rw [decided j member',List.mem_singleton] at second
    split at first
    · rename_i won
      split at second
      · rename_i won'
        rw [won,won']
      · cases second
    · cases first

theorem exists_marked (r : Reading F) (lawful : Lawful p differ) (once : (group.map (·.memory.id)).Nodup)
    (long : 1 < group.length) :
    ∃ v ∈ group, groupVerdicts r p group v = [.ambiguous] ∨ groupVerdicts r p group v = [.authoritative] := by
  have some : group ≠ [] := by
    rintro rfl
    simp at long
  cases contested : p.contested (leadersOf p group) with
  | true =>
    obtain ⟨v,leads⟩ := List.exists_mem_of_ne_nil _ (leadersOf_ne_nil (p := p) some)
    have member := (mem_leadersOf.mp leads).1
    exact ⟨v,member,.inl ((groupVerdicts_contested once long contested member).1 leads)⟩
  | false =>
    obtain ⟨w,leads,_,decided⟩ := groupNotes_decided (r := r) lawful once long contested
    have member := (mem_leadersOf.mp leads).1
    exact ⟨w,member,.inr (by rw [decided w member,if_pos rfl])⟩

theorem groupNotes_perm (lawful : Lawful p differ) (once : (group.map (·.memory.id)).Nodup) (perm : group.Perm group') :
    (groupNotes r p group).Perm (groupNotes r p group') := by
  by_cases short : group.length ≤ 1
  · rw [groupNotes,groupNotes,if_pos short,if_pos (perm.length_eq ▸ short)]
  · have some : group ≠ [] := by
      rintro rfl
      simp at short
    have leaders := leadersOf_perm (p := p) perm
    have sub : (leadersOf p group).Sublist group := List.filter_sublist
    have same := lawful.contested_perm (once.of_map.sublist sub) (leadersOf_ne_nil (p := p) some) leaders
    have short' : ¬group'.length ≤ 1 := by rwa [← perm.length_eq]
    rw [groupNotes,groupNotes,if_neg short,if_neg short']
    dsimp only
    rw [← same]
    cases settled : p.contested (leadersOf p group) with
    | true => exact leaders.map _
    | false =>
      have winner := lawful.perm _ _ leaders (once.sublist (sub.map _)) settled
      rw [max?_perm (perm.map Item.score),winner]
      exact perm.map _

theorem groupNotes_once (once : (group.map (·.memory.id)).Nodup) : ((groupNotes r p group).map Note.id).Nodup := by
  have sub : (leadersOf p group).Sublist group := List.filter_sublist
  unfold groupNotes
  split
  · exact List.nodup_nil
  · dsimp only
    split
    · rw [List.map_map]
      exact once.sublist (sub.map _)
    · rw [List.map_map]
      convert once using 1
      apply List.map_congr_left
      intro i _
      dsimp only [Function.comp_apply]
      split <;> rfl

theorem groupNotes_eq_of_perm (lawful : Lawful p differ) (once : (group.map (·.memory.id)).Nodup) (perm : group.Perm group')
    (id : String) : (groupNotes r p group).filter (·.id = id) = (groupNotes r p group').filter (·.id = id) := by
  have single : ∀ h : List (Item F), (h.map (·.memory.id)).Nodup →
      ((groupNotes r p h).filter (·.id = id)).Pairwise (fun _ _ => False) := by
    intro h once
    refine List.pairwise_filter.mpr ((List.pairwise_map.mp (groupNotes_once (r := r) (p := p) once)).imp ?_)
    intro a b other first second
    exact other ((of_decide_eq_true first).trans (of_decide_eq_true second).symm)
  have filtered := (groupNotes_perm (r := r) lawful once perm).filter (·.id = id)
  exact filtered.eq_of_pairwise (fun _ _ _ _ absurd _ => absurd.elim) (single _ once)
    (single _ ((perm.map _).nodup_iff.mp once))

def tasks (ranked : List (Item F)) : List (Item F) := ranked.filter (·.memory.memoryType = "task")

def nearness (same : MemoryRecord F → MemoryRecord F → Bool) (i j : Item F) : Bool := same i.memory j.memory

theorem groupNotes_own {n : Note F} (member : n ∈ groupNotes r p group) : ∃ j ∈ group, n.id = j.memory.id := by
  unfold groupNotes at member
  split at member
  · cases member
  · dsimp only at member
    split at member
    · obtain ⟨j,leads,rfl⟩ := List.mem_map.mp member
      exact ⟨j,(mem_leadersOf.mp leads).1,rfl⟩
    · obtain ⟨j,inside,rfl⟩ := List.mem_map.mp member
      exact ⟨j,inside,by split <;> rfl⟩

theorem notesOf_free {gs : List (List (Item F))} {id : String} (free : ∀ j ∈ gs.flatten, j.memory.id ≠ id) :
    notesOf r p gs id = [] := by
  rw [notesOf,List.filter_eq_nil_iff]
  intro n noted
  obtain ⟨h,listed,noted⟩ := List.mem_flatMap.mp noted
  obtain ⟨j,held,own⟩ := groupNotes_own noted
  simpa [own] using free j (List.mem_flatten.mpr ⟨h,listed,held⟩)

theorem notesOf_eq {gs : List (List (Item F))} (once : (gs.flatten.map (·.memory.id)).Nodup) (member : group ∈ gs)
    (inside : i ∈ group) : notesOf r p gs i.memory.id = (groupNotes r p group).filter (·.id = i.memory.id) := by
  obtain ⟨before,after,rfl⟩ := List.append_of_mem member
  rw [List.flatten_append,List.flatten_cons,List.map_append,List.map_append,List.nodup_append,List.nodup_append] at once
  obtain ⟨_,⟨_,_,later⟩,earlier⟩ := once
  have own : i.memory.id ∈ group.map (·.memory.id) := List.mem_map_of_mem inside
  have none_before : notesOf r p before i.memory.id = [] :=
    notesOf_free (fun j held => earlier _ (List.mem_map_of_mem held) _ (List.mem_append_left _ own))
  have none_after : notesOf r p after i.memory.id = [] :=
    notesOf_free (fun j held => (later _ own _ (List.mem_map_of_mem held)).symm)
  rw [notesOf] at none_before none_after
  rw [notesOf,List.flatMap_append,List.flatMap_cons,List.filter_append,List.filter_append,none_before,none_after,
    List.append_nil,List.nil_append]

end Suixinji.Retrieval
