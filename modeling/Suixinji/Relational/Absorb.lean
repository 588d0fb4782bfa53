import Mathlib.Data.List.Nodup
import Mathlib.Data.List.Pairwise

/-! One walk over a list in which an element takes the later and earlier ones it is near
to, unless it has been taken itself. Who takes whom, in terms of the list alone. -/
namespace Suixinji.Absorb

variable {ρ κ : Type} [DecidableEq κ] (key : ρ → κ) (near : ρ → ρ → Bool)

structure Merging (ρ κ : Type) where
  consumed : List κ := []
  merged : List (ρ × ρ) := []

/-- Whether the keeper takes the element. -/
def takes (acc : Merging ρ κ) (keeper d : ρ) : Bool := !(key d = key keeper || key d ∈ acc.consumed) && near keeper d

def Merging.take (acc : Merging ρ κ) (keeper d : ρ) : Merging ρ κ :=
  { consumed := acc.consumed ++ [key d],merged := acc.merged ++ [(keeper,d)] }

def takeOne (keeper : ρ) (acc : Merging ρ κ) (d : ρ) : Merging ρ κ :=
  if takes key near acc keeper d then acc.take key keeper d else acc

def takeAll (es : List ρ) (acc : Merging ρ κ) (keeper : ρ) : Merging ρ κ :=
  if key keeper ∈ acc.consumed then acc else es.foldl (takeOne key near keeper) acc

def merging (es : List ρ) : Merging ρ κ := es.foldl (takeAll key near es) {}

/-- The elements that no earlier leader is near to. -/
def leaders (es : List ρ) : List ρ := es.foldl (fun ls e => if ls.any (near · e) then ls else ls ++ [e]) []

/-- The first leader that is near to an element, other than itself. -/
def absorber (es : List ρ) (d : ρ) : Option ρ := (leaders near es).find? (fun k => key k ≠ key d && near k d)

variable {key near} {es : List ρ}

theorem mem_takeOne_consumed {keeper d : ρ} {acc : Merging ρ κ} {c : κ} :
    c ∈ (takeOne key near keeper acc d).consumed ↔
      c ∈ acc.consumed ∨ c = key d ∧ key d ≠ key keeper ∧ near keeper d := by
  by_cases before : key d ∈ acc.consumed
  · have idle : takes key near acc keeper d = false := by simp [takes,before]
    rw [takeOne,idle]
    exact ⟨.inl,fun h => h.elim id (fun h => h.1 ▸ before)⟩
  · by_cases apart : key d = key keeper <;> cases close : near keeper d <;>
      simp [takeOne,takes,Merging.take,before,apart,close]

theorem mem_takeOne_merged {keeper d : ρ} {acc : Merging ρ κ} {p : ρ × ρ} :
    p ∈ (takeOne key near keeper acc d).merged ↔ p ∈ acc.merged ∨ p = (keeper,d) ∧ takes key near acc keeper d := by
  unfold takeOne
  split
  · rename_i taken
    simp [Merging.take,taken]
  · rename_i idle
    simp [idle]

theorem foldl_takeOne (near : ρ → ρ → Bool) (keeper : ρ) (acc : Merging ρ κ) (es : List ρ) (distinct : (es.map key).Nodup) :
    (∀ c, c ∈ (es.foldl (takeOne key near keeper) acc).consumed ↔
      c ∈ acc.consumed ∨ ∃ d ∈ es, c = key d ∧ key d ≠ key keeper ∧ near keeper d) ∧
    ∀ p, p ∈ (es.foldl (takeOne key near keeper) acc).merged ↔
      p ∈ acc.merged ∨ ∃ d ∈ es, p = (keeper,d) ∧ takes key near acc keeper d := by
  induction es generalizing acc with
  | nil => simp
  | cons e es ih =>
    rw [List.map_cons,List.nodup_cons] at distinct
    obtain ⟨absent,distinct⟩ := distinct
    obtain ⟨consumed,merged⟩ := ih (takeOne key near keeper acc e) distinct
    rw [List.foldl_cons]
    -- the first element has a key of its own, so taking it decides nothing about the others
    have kept : ∀ d ∈ es, takes key near (takeOne key near keeper acc e) keeper d = takes key near acc keeper d := by
      intro d member
      have other : key d ≠ key e := fun same => absent (same ▸ List.mem_map_of_mem member)
      have same : key d ∈ (takeOne key near keeper acc e).consumed ↔ key d ∈ acc.consumed := by
        simp [mem_takeOne_consumed,other]
      simp [takes,same]
    constructor
    · intro c
      rw [consumed,mem_takeOne_consumed,or_assoc]
      simp
    · intro p
      rw [merged,mem_takeOne_merged,or_assoc]
      have later : (∃ d ∈ es, p = (keeper,d) ∧ takes key near (takeOne key near keeper acc e) keeper d) ↔
          ∃ d ∈ es, p = (keeper,d) ∧ takes key near acc keeper d :=
        exists_congr (fun d => and_congr_right (fun member => by rw [kept d member]))
      rw [later]
      simp

/-- The walk so far: who is consumed and by whom, by the leaders so far. -/
structure Walked (key : ρ → κ) (near : ρ → ρ → Bool) (es ls : List ρ) (acc : Merging ρ κ) : Prop where
  consumed : ∀ d ∈ es, key d ∈ acc.consumed ↔ ∃ k ∈ ls, key k ≠ key d ∧ near k d
  merged : ∀ k d, (k,d) ∈ acc.merged ↔ d ∈ es ∧ ls.find? (fun k => key k ≠ key d && near k d) = some k

theorem walked_foldl (distinct : (es.map key).Nodup) (rest : List ρ) {ls : List ρ} {acc : Merging ρ κ}
    (inside : ∀ e ∈ rest, e ∈ es) (once : (rest.map key).Nodup) (ahead : ∀ k ∈ ls, ∀ e ∈ rest, key k ≠ key e)
    (walked : Walked key near es ls acc) :
    Walked key near es (rest.foldl (fun ls e => if ls.any (near · e) then ls else ls ++ [e]) ls)
      (rest.foldl (takeAll key near es) acc) := by
  induction rest generalizing ls acc with
  | nil => exact walked
  | cons e rest ih =>
    rw [List.map_cons,List.nodup_cons] at once
    have here : e ∈ es := inside e List.mem_cons_self
    have next : ∀ e ∈ rest, e ∈ es := fun e member => inside e (List.mem_cons_of_mem _ member)
    have taken : key e ∈ acc.consumed ↔ ls.any (near · e) = true := by
      rw [walked.consumed e here,List.any_eq_true]
      exact ⟨fun ⟨k,member,_,close⟩ => ⟨k,member,close⟩,
        fun ⟨k,member,close⟩ => ⟨k,member,ahead k member e List.mem_cons_self,close⟩⟩
    rw [List.foldl_cons,List.foldl_cons,takeAll]
    by_cases led : ls.any (near · e) = true
    · rw [if_pos led,if_pos (taken.mpr led)]
      exact ih next once.2 (fun k member d later => ahead k member d (List.mem_cons_of_mem _ later)) walked
    · rw [if_neg led,if_neg (fun member => led (taken.mp member))]
      obtain ⟨consumed,merged⟩ := foldl_takeOne near e acc es distinct
      apply ih next once.2
      · intro k member d later
        rcases List.mem_append.mp member with old | last
        · exact ahead k old d (List.mem_cons_of_mem _ later)
        · rw [List.mem_singleton.mp last]
          exact fun same => once.1 (same ▸ List.mem_map_of_mem later)
      · constructor
        · intro d member
          rw [consumed,walked.consumed d member]
          constructor
          · rintro (⟨k,old,close⟩ | ⟨f,inside,same,apart,close⟩)
            · exact ⟨k,List.mem_append_left _ old,close⟩
            · rw [List.inj_on_of_nodup_map distinct inside member same.symm] at apart close
              exact ⟨e,by simp,apart.symm,close⟩
          · rintro ⟨k,member',apart,close⟩
            rcases List.mem_append.mp member' with old | last
            · exact .inl ⟨k,old,apart,close⟩
            · rw [List.mem_singleton.mp last] at apart close
              exact .inr ⟨d,member,rfl,apart.symm,close⟩
        · intro k d
          rw [merged,walked.merged,List.find?_append]
          constructor
          · rintro (⟨member,found⟩ | ⟨f,member,same,taking⟩)
            · exact ⟨member,by rw [found,Option.some_or]⟩
            · cases same
              simp only [takes,Bool.and_eq_true,Bool.not_eq_true',Bool.or_eq_false_iff,decide_eq_false_iff_not] at taking
              refine ⟨member,?_⟩
              have vacant : ls.find? (fun k => key k ≠ key d && near k d) = none := by
                rw [List.find?_eq_none]
                intro j old close
                simp only [ne_eq,Bool.and_eq_true,decide_eq_true_eq] at close
                exact taking.1.2 ((walked.consumed d member).mpr ⟨j,old,close⟩)
              rw [vacant,Option.none_or]
              simp [taking.2,Ne.symm taking.1.1]
          · rintro ⟨member,found⟩
            cases first : ls.find? (fun k => key k ≠ key d && near k d) with
            | some j =>
              rw [first,Option.some_or] at found
              exact .inl ⟨member,found⟩
            | none =>
              right
              rw [first,Option.none_or,List.find?_singleton] at found
              split at found
              · rename_i close
                cases found
                simp only [ne_eq,Bool.and_eq_true,decide_eq_true_eq] at close
                refine ⟨d,member,rfl,?_⟩
                have free : key d ∉ acc.consumed := by
                  rw [walked.consumed d member]
                  rintro ⟨j,old,apart,near⟩
                  exact absurd (List.find?_eq_none.mp first j old) (by simp [apart,near])
                simp [takes,close.2,free,Ne.symm close.1]
              · cases found

/-- Who has been taken, and by whom, at the end of the walk. -/
theorem walked (distinct : (es.map key).Nodup) : Walked key near es (leaders near es) (merging key near es) := by
  apply walked_foldl distinct es (fun _ member => member) distinct
  · exact fun k none => absurd none List.not_mem_nil
  · exact ⟨by simp,by simp⟩

theorem consumed_iff (distinct : (es.map key).Nodup) {d : ρ} (member : d ∈ es) :
    key d ∈ (merging key near es).consumed ↔ (absorber key near es d).isSome := by
  rw [(walked distinct).consumed d member,absorber,List.find?_isSome]
  simp

theorem consumed_subset {c : κ} (consumed : c ∈ (merging key near es).consumed) : ∃ d ∈ es, key d = c := by
  have one : ∀ (rest : List ρ) (k : ρ) (acc : Merging ρ κ), (∀ d ∈ rest, d ∈ es) →
      (∀ c ∈ acc.consumed, ∃ d ∈ es, key d = c) →
      ∀ c ∈ (rest.foldl (takeOne key near k) acc).consumed, ∃ d ∈ es, key d = c := by
    intro rest k
    induction rest with
    | nil => exact fun acc _ known => known
    | cons e rest ih =>
      intro acc inside known
      apply ih _ (fun d member => inside d (List.mem_cons_of_mem _ member))
      intro c member
      rcases mem_takeOne_consumed.mp member with old | ⟨rfl,_⟩
      · exact known c old
      · exact ⟨e,inside e List.mem_cons_self,rfl⟩
  have all : ∀ (rest : List ρ) (acc : Merging ρ κ), (∀ c ∈ acc.consumed, ∃ d ∈ es, key d = c) →
      ∀ c ∈ (rest.foldl (takeAll key near es) acc).consumed, ∃ d ∈ es, key d = c := by
    intro rest
    induction rest with
    | nil => exact fun acc known => known
    | cons e rest ih =>
      intro acc known
      apply ih
      unfold takeAll
      split
      · exact known
      · exact one es e acc (fun _ member => member) known
  exact all es {} (by simp) c consumed

theorem merged_iff (distinct : (es.map key).Nodup) {k d : ρ} :
    (k,d) ∈ (merging key near es).merged ↔ d ∈ es ∧ absorber key near es d = some k :=
  (walked distinct).merged k d

theorem leaders_foldl (rest : List ρ) {ls : List ρ} (apart : ls.Pairwise (fun j k => near j k = false)) :
    (rest.foldl (fun ls e => if ls.any (near · e) then ls else ls ++ [e]) ls).Pairwise (fun j k => near j k = false) ∧
      ∀ k ∈ rest.foldl (fun ls e => if ls.any (near · e) then ls else ls ++ [e]) ls, k ∈ ls ∨ k ∈ rest := by
  induction rest generalizing ls with
  | nil => exact ⟨apart,fun _ => .inl⟩
  | cons e rest ih =>
    rw [List.foldl_cons]
    split
    · obtain ⟨pairwise,inside⟩ := ih apart
      exact ⟨pairwise,fun k member => (inside k member).imp id (List.mem_cons_of_mem _)⟩
    · rename_i led
      obtain ⟨pairwise,inside⟩ := @ih (ls ++ [e]) (List.pairwise_append.mpr ⟨apart,List.pairwise_singleton _ _,by
        intro k member d last
        rw [List.mem_singleton.mp last]
        by_contra close
        exact led (List.any_eq_true.mpr ⟨k,member,by simpa using close⟩)⟩)
      refine ⟨pairwise,fun k member => ?_⟩
      rcases inside k member with old | later
      · rcases List.mem_append.mp old with old | last
        · exact .inl old
        · exact .inr (List.mem_singleton.mp last ▸ List.mem_cons_self)
      · exact .inr (List.mem_cons_of_mem _ later)

theorem leaders_subset {k : ρ} (member : k ∈ leaders near es) : k ∈ es := by
  rcases (leaders_foldl es List.Pairwise.nil).2 k member with none | inside
  · cases none
  · exact inside

/-- Where nearness is mutual, one that takes another is never taken. -/
theorem absorber_of_absorber (mutual_ : ∀ j k, near j k = near k j) {k d : ρ}
    (absorbed : absorber key near es d = some k) : absorber key near es k = none := by
  have member : k ∈ leaders near es := List.mem_of_find?_eq_some absorbed
  rw [absorber,List.find?_eq_none]
  intro j leads close
  simp only [ne_eq,Bool.and_eq_true,decide_eq_true_eq] at close
  have symmetric : Std.Symm (fun j k : ρ => near j k = false) := ⟨fun a b far => by rwa [mutual_ b a]⟩
  have far : near j k = false := (leaders_foldl es List.Pairwise.nil).1.forall leads member
    (fun same => close.1 (congrArg key same))
  simp [far] at close

end Suixinji.Absorb
