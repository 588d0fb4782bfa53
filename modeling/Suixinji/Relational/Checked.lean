import Mathlib.Data.List.Forall2

/-! Computations that check as they go: a failed check ends the whole
computation with its error and no result. -/
namespace Suixinji.Checked
variable {ε α β σ : Type}

def require (p : Prop) [Decidable p] (error : ε) : Except ε Unit := if p then .ok () else .error error

@[simp] theorem require_ok {p : Prop} [Decidable p] {error : ε} {u : Unit} :
    require p error = .ok u ↔ p := by
  unfold require
  split <;> simp_all

theorem bind_ok {x : Except ε α} {f : α → Except ε β} {b : β} :
    x >>= f = .ok b ↔ ∃ a, x = .ok a ∧ f a = .ok b := by
  cases x with
  | error e => simp [bind,Except.bind]
  | ok a => simp [bind,Except.bind]

/-- A check that is made in one case only. -/
def whenever (p : Prop) [Decidable p] (check : Except ε Unit) : Except ε Unit := if p then check else .ok ()

@[simp] theorem whenever_ok {p : Prop} [Decidable p] {check : Except ε Unit} {u : Unit} :
    whenever p check = .ok u ↔ (p → check = .ok ()) := by
  unfold whenever
  split <;> simp_all

/-- A value that is looked up and must be there. -/
def demand (x : Option α) (error : ε) : Except ε α := x.elim (.error error) .ok

@[simp] theorem demand_ok {x : Option α} {error : ε} {a : α} : demand x error = .ok a ↔ x = some a := by
  cases x <;> simp [demand]

theorem ok_of_isSome {x : Except ε α} (d : α) (passes : x.toOption.isSome) : x = .ok (x.toOption.getD d) := by
  cases x with
  | error e => cases passes
  | ok a => rfl

theorem ok_of_toOption {x : Except ε α} {a : α} (found : x.toOption = some a) : x = .ok a := by
  cases x with
  | error e => cases found
  | ok b => exact congrArg Except.ok (Option.some.inj found)

/-- Every check of a loop of checks went through. -/
theorem forM_ok {check : α → Except ε Unit} {items : List α} (ok : items.forM check = .ok ()) :
    ∀ item ∈ items, check item = .ok () := by
  induction items with
  | nil => exact fun item listed => absurd listed List.not_mem_nil
  | cons first rest ih =>
    obtain ⟨_,head,tail⟩ := bind_ok.mp ok
    intro item listed
    rcases List.mem_cons.mp listed with rfl | later
    · exact head
    · exact ih tail item later

/-- What every round preserves holds after the loop. -/
theorem foldlM_invariant (P : σ → Prop) {step : σ → α → Except ε σ} {items : List α} {s t : σ}
    (round : ∀ item ∈ items, ∀ s t, P s → step s item = .ok t → P t)
    (run : items.foldlM step s = .ok t) (initial : P s) : P t := by
  induction items generalizing s with
  | nil =>
    cases run
    exact initial
  | cons item items ih =>
    rw [List.foldlM_cons] at run
    obtain ⟨u,head,tail⟩ := bind_ok.mp run
    exact ih (fun item' later => round item' (by simp [later])) tail (round item (by simp) s u initial head)

/-- A loop whose every round goes through ends. -/
theorem foldlM_total (P : σ → Prop) {step : σ → α → Except ε σ} {items : List α} {s : σ}
    (round : ∀ item ∈ items, ∀ s, P s → ∃ t, step s item = .ok t ∧ P t) (initial : P s) :
    ∃ t, items.foldlM step s = .ok t ∧ P t := by
  induction items generalizing s with
  | nil => exact ⟨s,rfl,initial⟩
  | cons item items ih =>
    obtain ⟨u,head,kept⟩ := round item (by simp) s initial
    obtain ⟨t,tail,last⟩ := ih (fun item' later => round item' (by simp [later])) kept
    exact ⟨t,by rw [List.foldlM_cons]; exact bind_ok.mpr ⟨u,head,tail⟩,last⟩

/-- Each item is mapped and all of them pass. -/
theorem mapM_ok {f : α → Except ε β} {items : List α} {results : List β}
    (run : items.mapM f = .ok results) :
    (∀ a ∈ items, ∃ b ∈ results, f a = .ok b) ∧ ∀ b ∈ results, ∃ a ∈ items, f a = .ok b := by
  induction items generalizing results with
  | nil =>
    cases run
    simp
  | cons a items ih =>
    rw [List.mapM_cons] at run
    obtain ⟨b,head,rest⟩ := bind_ok.mp run
    obtain ⟨bs,tail,last⟩ := bind_ok.mp rest
    cases last
    obtain ⟨fore,back⟩ := ih tail
    constructor
    · intro a' inside
      rcases List.mem_cons.mp inside with rfl | inside
      · exact ⟨b,by simp,head⟩
      · obtain ⟨b',there,same⟩ := fore a' inside
        exact ⟨b',by simp [there],same⟩
    · intro b' inside
      rcases List.mem_cons.mp inside with rfl | inside
      · exact ⟨a,by simp,head⟩
      · obtain ⟨a',there,same⟩ := back b' inside
        exact ⟨a',by simp [there],same⟩

theorem mapM_some {f : α → Option β} {items : List α} {results : List β} (run : items.mapM f = some results) :
    ∀ b ∈ results, ∃ a ∈ items, f a = some b := by
  induction items generalizing results with
  | nil =>
    cases run
    exact fun b none => absurd none List.not_mem_nil
  | cons a items ih =>
    rw [List.mapM_cons] at run
    obtain ⟨first,found,run⟩ := Option.bind_eq_some_iff.mp run
    obtain ⟨rest,others,run⟩ := Option.bind_eq_some_iff.mp run
    cases run
    intro b member
    rcases List.mem_cons.mp member with rfl | later
    · exact ⟨a,List.mem_cons_self,found⟩
    · obtain ⟨c,inside,same⟩ := ih others b later
      exact ⟨c,List.mem_cons_of_mem _ inside,same⟩

theorem map_of_mapM_some {f : α → Option β} {g : β → γ} {h : α → γ} (shows : ∀ a b, f a = some b → g b = h a)
    {items : List α} {results : List β} (run : items.mapM f = some results) : results.map g = items.map h := by
  induction items generalizing results with
  | nil =>
    cases run
    rfl
  | cons a items ih =>
    rw [List.mapM_cons] at run
    obtain ⟨b,found,run⟩ := Option.bind_eq_some_iff.mp run
    obtain ⟨rest,others,run⟩ := Option.bind_eq_some_iff.mp run
    cases run
    rw [List.map_cons,List.map_cons,shows a b found,ih others]

theorem map_of_mapM {f : α → Except ε β} {g : β → α} (shows : ∀ a b, f a = .ok b → g b = a)
    {items : List α} {results : List β} (run : items.mapM f = .ok results) : results.map g = items := by
  induction items generalizing results with
  | nil =>
    cases run
    rfl
  | cons a items ih =>
    rw [List.mapM_cons] at run
    obtain ⟨b,head,rest⟩ := bind_ok.mp run
    obtain ⟨bs,tail,last⟩ := bind_ok.mp rest
    cases last
    rw [List.map_cons,shows a b head,ih tail]

theorem mapM_of_each {f : α → Except ε β} {g : α → β} {items : List α} (each : ∀ a ∈ items, f a = .ok (g a)) :
    items.mapM f = .ok (items.map g) := by
  induction items with
  | nil => rfl
  | cons a items ih =>
    rw [List.mapM_cons,each a List.mem_cons_self,ih (fun a' later => each a' (List.mem_cons_of_mem a later))]
    rfl

theorem mapM_demand {g : α → Option β} {error : ε} {items : List α} (there : ∀ a ∈ items, (g a).isSome) :
    items.mapM (fun a => demand (g a) error) = .ok (items.filterMap g) := by
  induction items with
  | nil => rfl
  | cons a items ih =>
    obtain ⟨b,found⟩ := Option.isSome_iff_exists.mp (there a (by simp))
    rw [List.mapM_cons,ih (fun a' later => there a' (by simp [later])),found,List.filterMap_cons_some found]
    rfl

theorem exists_right {R : α → β → Prop} {as : List α} {bs : List β} (paired : List.Forall₂ R as bs) {a : α}
    (member : a ∈ as) : ∃ b ∈ bs, R a b := by
  induction paired with
  | nil => cases member
  | cons related _ ih =>
    rcases List.mem_cons.mp member with rfl | later
    · exact ⟨_,by simp,related⟩
    · obtain ⟨b,inside,related'⟩ := ih later
      exact ⟨b,by simp [inside],related'⟩

theorem exists_left {R : α → β → Prop} {as : List α} {bs : List β} (paired : List.Forall₂ R as bs) {b : β}
    (member : b ∈ bs) : ∃ a ∈ as, R a b := exists_right paired.flip member

end Suixinji.Checked
