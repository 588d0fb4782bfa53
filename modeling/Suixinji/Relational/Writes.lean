import Suixinji.Relational.Table

/-! Several rows written one after the other: the last one under a key stays. -/
namespace Suixinji.Relational
namespace Table
variable {ρ κ σ : Type} {key : ρ → κ}

/-- `r` is among the rows, and no later row has its key. -/
def Last (key : ρ → κ) (rs : List ρ) (r : ρ) : Prop := ∃ before after, rs = before ++ r :: after ∧ ∀ r' ∈ after, key r' ≠ key r

theorem Last.mem {rs : List ρ} {r : ρ} (final : Last key rs r) : r ∈ rs := by
  obtain ⟨before,after,rfl,_⟩ := final
  simp

theorem not_last_nil {r : ρ} : ¬Last key [] r := fun final => absurd final.mem List.not_mem_nil

theorem last_append {rs rs' : List ρ} {r : ρ} :
    Last key (rs ++ rs') r ↔ Last key rs' r ∨ (Last key rs r ∧ ∀ r' ∈ rs', key r' ≠ key r) := by
  constructor
  · rintro ⟨before,after,split,last⟩
    rcases List.append_eq_append_iff.mp split with ⟨more,rfl,rfl⟩ | ⟨more,rfl,tail⟩
    · exact .inl ⟨more,after,rfl,last⟩
    · cases more with
      | nil => exact .inl ⟨[],after,by simpa using tail.symm,last⟩
      | cons r₁ more =>
        obtain ⟨rfl,rfl⟩ := List.cons_eq_cons.mp tail
        exact .inr ⟨⟨before,more,rfl,fun r' later => last r' (by simp [later])⟩,fun r' later => last r' (by simp [later])⟩
  · rintro (⟨before,after,rfl,last⟩ | ⟨⟨before,after,rfl,last⟩,apart⟩)
    · exact ⟨rs ++ before,after,by simp,last⟩
    · refine ⟨before,after ++ rs',by simp,?_⟩
      intro r' inside
      exact (List.mem_append.mp inside).elim (last r') (apart r')

theorem last_cons {rs : List ρ} {r₁ r : ρ} :
    Last key (r₁ :: rs) r ↔ Last key rs r ∨ (r = r₁ ∧ ∀ r' ∈ rs, key r' ≠ key r) := by
  rw [← List.singleton_append,last_append]
  refine or_congr Iff.rfl (and_congr_left fun _ => ?_)
  constructor
  · exact fun final => List.mem_singleton.mp final.mem
  · rintro rfl
    exact ⟨[],[],rfl,by simp⟩

/-- Some row under each of the keys is the last. -/
theorem exists_last {rs : List ρ} {k : κ} (named : ∃ r ∈ rs, key r = k) : ∃ r, Last key rs r ∧ key r = k := by
  induction rs with
  | nil =>
    obtain ⟨_,member,_⟩ := named
    cases member
  | cons r₁ rs ih =>
    by_cases later : ∃ r ∈ rs, key r = k
    · obtain ⟨r,final,same⟩ := ih later
      exact ⟨r,last_cons.mpr (.inl final),same⟩
    · obtain ⟨r,member,rfl⟩ := named
      rcases List.mem_cons.mp member with rfl | member
      · exact ⟨r,last_cons.mpr (.inr ⟨rfl,fun r' inside same => later ⟨r',inside,same⟩⟩),rfl⟩
      · exact absurd ⟨r,member,rfl⟩ later

/-- Rows with keys of their own are all the last. -/
theorem last_of_nodup {rs : List ρ} {r : ρ} (distinct : (rs.map key).Nodup) (member : r ∈ rs) : Last key rs r := by
  obtain ⟨before,after,rfl⟩ := List.append_of_mem member
  refine ⟨before,after,rfl,fun r' later same => ?_⟩
  rw [List.map_append,List.map_cons,List.nodup_append] at distinct
  exact (List.nodup_cons.mp distinct.2.1).1 (List.mem_map.mpr ⟨r',later,same⟩)

theorem last_map {key' : σ → κ} {g : ρ → σ} (same : ∀ r, key' (g r) = key r) {rs : List ρ} {x : σ} :
    Last key' (rs.map g) x ↔ ∃ r, Last key rs r ∧ g r = x := by
  induction rs with
  | nil =>
    constructor
    · exact fun final => absurd final not_last_nil
    · rintro ⟨r,final,_⟩
      exact absurd final not_last_nil
  | cons r₁ rs ih =>
    have apart (r : ρ) : (∀ x' ∈ rs.map g, key' x' ≠ key' (g r)) ↔ ∀ r' ∈ rs, key r' ≠ key r := by
      simp only [List.mem_map,forall_exists_index,and_imp,forall_apply_eq_imp_iff₂,same]
    rw [List.map_cons,last_cons,ih]
    constructor
    · rintro (⟨r,final,rfl⟩ | ⟨rfl,last⟩)
      · exact ⟨r,last_cons.mpr (.inl final),rfl⟩
      · exact ⟨r₁,last_cons.mpr (.inr ⟨rfl,(apart r₁).mp last⟩),rfl⟩
    · rintro ⟨r,final,rfl⟩
      rcases last_cons.mp final with final | ⟨rfl,last⟩
      · exact .inl ⟨r,final,rfl⟩
      · exact .inr ⟨rfl,(apart r).mpr last⟩

variable [DecidableEq κ]

/-- `INSERT ... ON CONFLICT DO UPDATE` for each row in turn. -/
def upsertAll (t : Table key) (rs : List ρ) : Table key := rs.foldl upsert t

theorem upsertAll_append (t : Table key) (rs rs' : List ρ) : t.upsertAll (rs ++ rs') = (t.upsertAll rs).upsertAll rs' :=
  List.foldl_append

/-- A row is there afterwards when it is the last written under its key, or none was. -/
theorem mem_upsertAll {t : Table key} {rs : List ρ} {r : ρ} :
    r ∈ t.upsertAll rs ↔ Last key rs r ∨ (r ∈ t ∧ ∀ r' ∈ rs, key r' ≠ key r) := by
  induction rs generalizing t with
  | nil =>
    refine Iff.trans (b := r ∈ t) Iff.rfl ?_
    simp [not_last_nil]
  | cons r₁ rs ih =>
    change r ∈ (t.upsert r₁).upsertAll rs ↔ _
    rw [ih,mem_upsert,last_cons,List.forall_mem_cons]
    constructor
    · rintro (final | ⟨rfl | ⟨member,other⟩,apart⟩)
      · exact .inl (.inl final)
      · exact .inl (.inr ⟨rfl,apart⟩)
      · exact .inr ⟨member,other.symm,apart⟩
    · rintro ((final | ⟨rfl,apart⟩) | ⟨member,other,apart⟩)
      · exact .inl final
      · exact .inr ⟨.inl rfl,apart⟩
      · exact .inr ⟨.inr ⟨member,other.symm⟩,apart⟩

end Table
end Suixinji.Relational
