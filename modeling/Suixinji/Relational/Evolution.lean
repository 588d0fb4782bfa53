import Suixinji.Relational.Table

/-! What a transaction made of a table: every row has a successor under its key,
and every other row is new. -/
namespace Suixinji.Relational
namespace Table
variable {ρ κ : Type} {key : ρ → κ}

structure Evolves (R : ρ → ρ → Prop) (N : ρ → Prop) (t u : Table key) : Prop where
  kept : ∀ r ∈ t, ∃ s ∈ u, key s = key r ∧ R r s
  origin : ∀ s ∈ u, (∃ r ∈ t, key s = key r ∧ R r s) ∨ N s

namespace Evolves
variable {R S : ρ → ρ → Prop} {N M : ρ → Prop} {t u v : Table key}

theorem refl (reflexive : ∀ r ∈ t, R r r) : Evolves R N t t :=
  ⟨fun r member => ⟨r,member,rfl,reflexive r member⟩,fun r member => .inl ⟨r,member,rfl,reflexive r member⟩⟩

theorem mono (evolves : Evolves R N t u) (weaker : ∀ r ∈ t, ∀ s, R r s → S r s) (wider : ∀ s, N s → M s) :
    Evolves S M t u where
  kept r member := by
    obtain ⟨s,inside,same,related⟩ := evolves.kept r member
    exact ⟨s,inside,same,weaker r member s related⟩
  origin s inside := by
    rcases evolves.origin s inside with ⟨r,member,same,related⟩ | fresh
    · exact .inl ⟨r,member,same,weaker r member s related⟩
    · exact .inr (wider s fresh)

theorem trans (first : Evolves R N t u) (second : Evolves R N u v)
    (transitive : ∀ {r s q}, R r s → R s q → R r q) (settled : ∀ {s q}, key q = key s → N s → R s q → N q) :
    Evolves R N t v where
  kept r member := by
    obtain ⟨s,inside,same,related⟩ := first.kept r member
    obtain ⟨q,there,same',related'⟩ := second.kept s inside
    exact ⟨q,there,same'.trans same,transitive related related'⟩
  origin q there := by
    rcases second.origin q there with ⟨s,inside,same,related⟩ | fresh
    · rcases first.origin s inside with ⟨r,member,same',related'⟩ | fresh
      · exact .inl ⟨r,member,same.trans same',transitive related' related⟩
      · exact .inr (settled same fresh related)
    · exact .inr fresh

theorem successor (evolves : Evolves R N t u) {r s : ρ} (member : r ∈ t) (inside : s ∈ u)
    (same : key s = key r) : R r s := by
  obtain ⟨q,there,same',related⟩ := evolves.kept r member
  exact u.unique inside there (same.trans same'.symm) ▸ related

/-- A property of all rows that rows hand on and new rows have. -/
theorem forall_mem {P : ρ → Prop} (evolves : Evolves R N t u) (all : ∀ r ∈ t, P r)
    (handed : ∀ r ∈ t, ∀ s, P r → R r s → P s) (fresh : ∀ s, N s → P s) : ∀ s ∈ u, P s := by
  intro s inside
  rcases evolves.origin s inside with ⟨r,member,_,related⟩ | new
  · exact handed r member s (all r member) related
  · exact fresh s new

/-- Every row is rewritten in its place. -/
theorem of_map {g : ρ → ρ} (rows : u.rows = t.rows.map g)
    (related : ∀ r ∈ t, key (g r) = key r ∧ R r (g r)) : Evolves R N t u := by
  constructor
  · intro r member
    exact ⟨g r,by rw [mem_def,rows]; exact List.mem_map_of_mem member,related r member⟩
  · intro s inside
    rw [mem_def,rows] at inside
    obtain ⟨r,member,rfl⟩ := List.mem_map.mp inside
    exact .inl ⟨r,member,related r member⟩

theorem of_updateWhere {p : ρ → Bool} {f : ρ → ρ} (rows : u.rows = t.rows.map (fun r => if p r then f r else r))
    (hit : ∀ r ∈ t, p r → key (f r) = key r ∧ R r (f r)) (missed : ∀ r ∈ t, p r = false → R r r) :
    Evolves R N t u := by
  apply of_map rows
  intro r member
  split
  · rename_i chosen
    exact hit r member chosen
  · rename_i other
    exact ⟨rfl,missed r member (by simpa using other)⟩

theorem put [DecidableEq κ] {r : ρ} (hit : ∀ old ∈ t, key old = key r → R old r)
    (missed : ∀ s ∈ t, key s ≠ key r → R s s) : Evolves R N t (t.put r) := by
  constructor
  · intro s member
    by_cases same : key s = key r
    · exact ⟨r,mem_put.mpr (.inr ⟨rfl,s,member,same⟩),same.symm,hit s member same⟩
    · exact ⟨s,mem_put.mpr (.inl ⟨member,same⟩),rfl,missed s member same⟩
  · intro s inside
    rcases mem_put.mp inside with ⟨member,other⟩ | ⟨rfl,old,member,same⟩
    · exact .inl ⟨s,member,rfl,missed s member other⟩
    · exact .inl ⟨old,member,same.symm,hit old member same⟩

/-- One row is written back. -/
theorem put_of_mem [DecidableEq κ] {r r' : ρ} (member : r ∈ t) (same : key r' = key r) (related : R r r')
    (reflexive : ∀ s ∈ t, key s ≠ key r → R s s) : Evolves R N t (t.put r') := by
  apply put
  · intro old inside same'
    exact t.unique inside member (same'.trans same) ▸ related
  · exact fun s inside other => reflexive s inside (same ▸ other)

theorem insert [DecidableEq κ] {r : ρ} (ok : t.insert r = some u) (reflexive : ∀ s ∈ t, R s s) (new : N r) :
    Evolves R N t u := by
  constructor
  · exact fun s member => ⟨s,(mem_insert ok).mpr (.inl member),rfl,reflexive s member⟩
  · intro s inside
    rcases (mem_insert ok).mp inside with member | rfl
    · exact .inl ⟨s,member,rfl,reflexive s member⟩
    · exact .inr new

/-- A row is written back, or is new. -/
theorem upsert [DecidableEq κ] {r : ρ} (hit : ∀ old ∈ t, key old = key r → R old r)
    (missed : ∀ s ∈ t, key s ≠ key r → R s s) (new : t.find? (key r) = none → N r) : Evolves R N t (t.upsert r) := by
  constructor
  · intro s member
    by_cases same : key s = key r
    · exact ⟨r,mem_upsert.mpr (.inl rfl),same.symm,hit s member same⟩
    · exact ⟨s,mem_upsert.mpr (.inr ⟨member,same⟩),rfl,missed s member same⟩
  · intro s inside
    rcases mem_upsert.mp inside with rfl | ⟨member,other⟩
    · cases found : t.find? (key s) with
      | none => exact .inr (new found)
      | some old =>
        obtain ⟨member,same⟩ := find?_eq_some.mp found
        exact .inl ⟨old,member,same.symm,hit old member same⟩
    · exact .inl ⟨s,member,rfl,missed s member other⟩

end Evolves
end Table

end Suixinji.Relational
