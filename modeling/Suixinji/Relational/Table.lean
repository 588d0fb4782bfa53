import Mathlib.Data.List.Nodup

/-! Tables of rows under a primary key, with the statements that touch them.
The key constraint is a field of the table, so no statement can break it. -/
namespace Suixinji.Relational

structure Table {ρ κ : Type} (key : ρ → κ) where
  rows : List ρ
  keyed : (rows.map key).Nodup

namespace Table
variable {ρ κ : Type} {key : ρ → κ}

instance : Membership ρ (Table key) := ⟨fun t r => r ∈ t.rows⟩

theorem mem_def {t : Table key} {r : ρ} : r ∈ t ↔ r ∈ t.rows := Iff.rfl

instance [DecidableEq ρ] (r : ρ) (t : Table key) : Decidable (r ∈ t) := inferInstanceAs (Decidable (r ∈ t.rows))

instance {p : ρ → Prop} [DecidablePred p] (t : Table key) : Decidable (∃ r ∈ t, p r) :=
  inferInstanceAs (Decidable (∃ r ∈ t.rows, p r))

instance {p : ρ → Prop} [DecidablePred p] (t : Table key) : Decidable (∀ r ∈ t, p r) :=
  inferInstanceAs (Decidable (∀ r ∈ t.rows, p r))

theorem ext_rows {t u : Table key} (same : t.rows = u.rows) : t = u := by
  cases t; cases u; cases same; rfl

/-- Primary key: two rows of a table with one key are one row. -/
theorem unique (t : Table key) {r s : ρ} (hr : r ∈ t) (hs : s ∈ t) (same : key r = key s) : r = s :=
  List.inj_on_of_nodup_map t.keyed hr hs same

def empty : Table key := ⟨[],by simp⟩

@[simp] theorem not_mem_empty (r : ρ) : r ∉ (empty : Table key) := by
  simp [mem_def,empty]

/-- `SELECT * WHERE key = k`. -/
def find? [DecidableEq κ] (t : Table key) (k : κ) : Option ρ := t.rows.find? (fun r => key r = k)

theorem find?_eq_some [DecidableEq κ] {t : Table key} {k : κ} {r : ρ} :
    t.find? k = some r ↔ r ∈ t ∧ key r = k := by
  constructor
  · intro found
    exact ⟨List.mem_of_find?_eq_some found,by simpa using List.find?_some found⟩
  · rintro ⟨member,rfl⟩
    cases found : t.find? (key r) with
    | none => exact absurd (List.find?_eq_none.mp found r member) (by simp)
    | some s =>
      have inside : s ∈ t := List.mem_of_find?_eq_some found
      have same : key s = key r := by simpa using List.find?_some found
      rw [t.unique inside member same]

theorem find?_eq_none [DecidableEq κ] {t : Table key} {k : κ} :
    t.find? k = none ↔ ∀ r ∈ t, key r ≠ k := by
  simp [find?,mem_def]

theorem find?_mem [DecidableEq κ] {t : Table key} {r : ρ} (member : r ∈ t) : t.find? (key r) = some r :=
  find?_eq_some.mpr ⟨member,rfl⟩

theorem find?_of_distinct [DecidableEq κ] {rows : List ρ} (distinct : (rows.map key).Nodup) {r : ρ} (member : r ∈ rows) :
    rows.find? (fun s => key s = key r) = some r := find?_mem (t := ⟨rows,distinct⟩) member

/-- `UPDATE ... SET f`, for an `f` that leaves the key column alone. -/
def update (t : Table key) (f : ρ → ρ) (hf : ∀ r, key (f r) = key r := by intro _; rfl) : Table key :=
  ⟨t.rows.map f,by simpa [List.map_map,Function.comp_def,hf] using t.keyed⟩

/-- `UPDATE ... SET f WHERE p`. -/
def updateWhere (t : Table key) (p : ρ → Bool) (f : ρ → ρ)
    (hf : ∀ r, key (f r) = key r := by intro _; rfl) : Table key :=
  t.update (fun r => if p r then f r else r) (by intro r; split <;> simp [hf])

@[simp] theorem rows_update (t : Table key) (f : ρ → ρ) (hf : ∀ r, key (f r) = key r) :
    (t.update f hf).rows = t.rows.map f := rfl

@[simp] theorem rows_updateWhere (t : Table key) (p : ρ → Bool) (f : ρ → ρ) (hf : ∀ r, key (f r) = key r) :
    (t.updateWhere p f hf).rows = t.rows.map (fun r => if p r then f r else r) := rfl

theorem mem_updateWhere {t : Table key} {p : ρ → Bool} {f : ρ → ρ} {hf : ∀ r, key (f r) = key r} {s : ρ} :
    s ∈ t.updateWhere p f hf ↔ ∃ r ∈ t, (if p r then f r else r) = s := by
  simp [mem_def]

theorem find?_updateWhere [DecidableEq κ] (t : Table key) (p : ρ → Bool) (f : ρ → ρ)
    (hf : ∀ r, key (f r) = key r) (k : κ) :
    (t.updateWhere p f hf).find? k = (t.find? k).map (fun r => if p r then f r else r) := by
  have sameKey (r : ρ) : key (if p r then f r else r) = key r := by split <;> simp [hf]
  simp only [find?,rows_updateWhere,List.find?_map,Function.comp_def,sameKey]

/-- A statement that selects no row changes nothing. -/
theorem updateWhere_of_none {t : Table key} {p : ρ → Bool} {f : ρ → ρ} {hf : ∀ r, key (f r) = key r}
    (none : ∀ r ∈ t, p r = false) : t.updateWhere p f hf = t := by
  apply ext_rows
  rw [rows_updateWhere]
  conv_rhs => rw [← List.map_id t.rows]
  apply List.map_congr_left
  intro r member
  simp [none r member]

/-- `INSERT`: refused when the key is taken. -/
def insert [DecidableEq κ] (t : Table key) (r : ρ) : Option (Table key) :=
  if fresh : key r ∉ t.rows.map key then
    some ⟨t.rows ++ [r],by
      rw [List.map_append,List.nodup_append]
      refine ⟨t.keyed,by simp,?_⟩
      intro a inside b single same
      rw [List.map_singleton,List.mem_singleton] at single
      exact fresh (by rwa [← single,← same])⟩
  else none

theorem insert_eq_some [DecidableEq κ] {t u : Table key} {r : ρ} :
    t.insert r = some u ↔ (∀ s ∈ t, key s ≠ key r) ∧ u.rows = t.rows ++ [r] := by
  unfold insert
  split
  · rename_i fresh
    have absent : ∀ s ∈ t, key s ≠ key r := fun s inside same =>
      fresh (List.mem_map.mpr ⟨s,inside,same⟩)
    constructor
    · intro ok
      cases Option.some.inj ok
      exact ⟨absent,rfl⟩
    · rintro ⟨_,rows⟩
      exact congrArg some (ext_rows rows.symm)
  · rename_i taken
    obtain ⟨s,inside,same⟩ := List.mem_map.mp (Classical.not_not.mp taken)
    simp only [reduceCtorEq,false_iff,not_and]
    exact fun absent => absurd same (absent s inside)

theorem mem_insert [DecidableEq κ] {t u : Table key} {r s : ρ} (ok : t.insert r = some u) :
    s ∈ u ↔ s ∈ t ∨ s = r := by
  rw [mem_def,(insert_eq_some.mp ok).2]
  simp [mem_def]

/-- Several `INSERT`s in a row; the first refused one refuses them all. -/
def insertAll [DecidableEq κ] (t : Table key) (rs : List ρ) : Option (Table key) := rs.foldlM insert t

/-- `INSERT ... ON CONFLICT DO NOTHING`. -/
def insertNew [DecidableEq κ] (t : Table key) (rs : List ρ) : Table key :=
  rs.foldl (fun t r => (t.insert r).getD t) t

theorem rows_insertAll [DecidableEq κ] {t u : Table key} {rs : List ρ} (ok : t.insertAll rs = some u) :
    u.rows = t.rows ++ rs := by
  induction rs generalizing t with
  | nil => cases Option.some.inj ok; simp
  | cons r rs ih =>
    simp only [insertAll,List.foldlM_cons,Option.bind_eq_bind,Option.bind_eq_some_iff] at ok
    obtain ⟨v,first,rest⟩ := ok
    rw [ih rest,(insert_eq_some.mp first).2]
    simp

/-- New keys, pairwise distinct, are all accepted. -/
theorem insertAll_of_fresh [DecidableEq κ] (t : Table key) (rs : List ρ) (distinct : (rs.map key).Nodup)
    (fresh : ∀ r ∈ rs, ∀ s ∈ t, key s ≠ key r) : ∃ u, t.insertAll rs = some u := by
  induction rs generalizing t with
  | nil => exact ⟨t,rfl⟩
  | cons r rs ih =>
    rw [List.map_cons,List.nodup_cons] at distinct
    obtain ⟨absent,distinct⟩ := distinct
    cases first : t.insert r with
    | none =>
      unfold insert at first
      split at first
      · cases first
      · rename_i taken
        obtain ⟨s,inside,same⟩ := List.mem_map.mp (Classical.not_not.mp taken)
        exact absurd same (fresh r (by simp) s inside)
    | some v =>
      obtain ⟨u,rest⟩ := ih v distinct (by
        intro q member s inside
        rcases (mem_insert first).mp inside with old | rfl
        · exact fresh q (by simp [member]) s old
        · exact fun same => absent (List.mem_map.mpr ⟨q,member,same.symm⟩))
      exact ⟨u,by simpa [insertAll,first] using rest⟩

theorem rows_insertNew_of_fresh [DecidableEq κ] (t : Table key) (rs : List ρ)
    (distinct : (rs.map key).Nodup) (fresh : ∀ r ∈ rs, ∀ s ∈ t, key s ≠ key r) :
    (t.insertNew rs).rows = t.rows ++ rs := by
  obtain ⟨u,ok⟩ := t.insertAll_of_fresh rs distinct fresh
  rw [← rows_insertAll ok]
  congr 1
  clear distinct fresh
  induction rs generalizing t with
  | nil => cases Option.some.inj ok; rfl
  | cons r rs ih =>
    simp only [insertAll,List.foldlM_cons,Option.bind_eq_bind,Option.bind_eq_some_iff] at ok
    obtain ⟨v,first,rest⟩ := ok
    simp only [insertNew,List.foldl_cons,first,Option.getD_some]
    exact ih v rest

/-- What is there stays there. -/
theorem mem_insertNew_of_mem [DecidableEq κ] {t : Table key} {r : ρ} (member : r ∈ t) (rs : List ρ) : r ∈ t.insertNew rs := by
  induction rs generalizing t with
  | nil => exact member
  | cons s rs ih =>
    refine ih (t := (t.insert s).getD t) ?_
    cases taken : t.insert s with
    | none => exact member
    | some u => exact (mem_insert taken).mpr (.inl member)

/-- A row that is its own key is there afterwards. -/
theorem mem_insertNew_of_given [DecidableEq ρ] {t : Table (fun r : ρ => r)} {r : ρ} {rs : List ρ} (given : r ∈ rs) : r ∈ t.insertNew rs := by
  induction rs generalizing t with
  | nil => cases given
  | cons s rs ih =>
    change r ∈ Table.insertNew ((t.insert s).getD t) rs
    rcases List.mem_cons.mp given with rfl | later
    · refine mem_insertNew_of_mem ?_ rs
      cases taken : t.insert r with
      | some u => exact (mem_insert taken).mpr (.inr rfl)
      | none =>
        by_contra absent
        obtain ⟨u,ok⟩ := t.insertAll_of_fresh [r] (by simp) (fun q given p member same => by
          rw [List.mem_singleton.mp given] at same
          exact absent (same ▸ member))
        simp [insertAll,taken] at ok
    · exact ih later

/-- What is there was there or is given. -/
theorem mem_of_insertNew [DecidableEq κ] {t : Table key} {r : ρ} {rs : List ρ} (member : r ∈ t.insertNew rs) : r ∈ t ∨ r ∈ rs := by
  induction rs generalizing t with
  | nil => exact .inl member
  | cons a rs ih =>
    rcases ih member with before | later
    · change r ∈ (t.insert a).getD t at before
      cases inserted : t.insert a with
      | none =>
        rw [inserted] at before
        exact .inl before
      | some u =>
        rw [inserted] at before
        rcases (mem_insert inserted).mp before with old | rfl
        · exact .inl old
        · exact .inr List.mem_cons_self
    · exact .inr (List.mem_cons_of_mem _ later)

/-- One row that may be there already. -/
theorem find?_insertNew [DecidableEq κ] (t : Table key) (r : ρ) (k : κ) :
    (t.insertNew [r]).find? k = if k = key r then some ((t.find? k).getD r) else t.find? k := by
  have inserted : t.insertNew [r] = (t.insert r).getD t := rfl
  rw [inserted]
  cases taken : t.insert r with
  | some u =>
    obtain ⟨fresh,_⟩ := insert_eq_some.mp taken
    split
    · rename_i same
      rw [same,find?_eq_none.mpr fresh]
      exact find?_eq_some.mpr ⟨(mem_insert taken).mpr (.inr rfl),rfl⟩
    · rename_i other
      cases found : t.find? k with
      | none =>
        rw [find?_eq_none] at found
        refine find?_eq_none.mpr (fun s inside => ?_)
        rcases (mem_insert taken).mp inside with member | rfl
        · exact found s member
        · exact fun same => other same.symm
      | some s =>
        obtain ⟨member,same⟩ := find?_eq_some.mp found
        exact find?_eq_some.mpr ⟨(mem_insert taken).mpr (.inl member),same⟩
  | none =>
    split
    · rename_i same
      cases found : t.find? k with
      | none =>
        rw [same,find?_eq_none] at found
        obtain ⟨u,ok⟩ := t.insertAll_of_fresh [r] (by simp) (fun q given s inside => by
          rw [List.mem_singleton.mp given]
          exact found s inside)
        simp [insertAll,taken] at ok
      | some s => simpa using found
    · rfl

/-- Write back one row by its key: `UPDATE ... WHERE key = key r`, all columns. -/
def put [DecidableEq κ] (t : Table key) (r : ρ) : Table key :=
  t.update (fun s => if key s = key r then r else s) (by intro s; split <;> simp_all)

@[simp] theorem rows_put [DecidableEq κ] (t : Table key) (r : ρ) :
    (t.put r).rows = t.rows.map (fun s => if key s = key r then r else s) := rfl

theorem mem_put [DecidableEq κ] {t : Table key} {r s : ρ} :
    s ∈ t.put r ↔ (s ∈ t ∧ key s ≠ key r) ∨ (s = r ∧ ∃ old ∈ t, key old = key r) := by
  simp only [mem_def,rows_put,List.mem_map]
  constructor
  · rintro ⟨old,member,rfl⟩
    split
    · rename_i same
      exact .inr ⟨rfl,old,member,same⟩
    · rename_i other
      exact .inl ⟨member,other⟩
  · rintro (⟨member,other⟩ | ⟨rfl,old,member,same⟩)
    · exact ⟨s,member,if_neg other⟩
    · exact ⟨old,member,if_pos same⟩

theorem put_self [DecidableEq κ] {t : Table key} {r : ρ} (member : r ∈ t) : t.put r = t := by
  apply ext_rows
  rw [rows_put]
  conv_rhs => rw [← List.map_id t.rows]
  apply List.map_congr_left
  intro s inside
  split
  · rename_i same
    exact t.unique member inside same.symm
  · rfl

/-- The last of two writes of one row stays. -/
theorem put_put [DecidableEq κ] (t : Table key) {r r' : ρ} (same : key r = key r') : (t.put r).put r' = t.put r' := by
  apply ext_rows
  simp only [rows_put,List.map_map]
  apply List.map_congr_left
  intro s _
  simp only [Function.comp_apply]
  by_cases hit : key s = key r
  · rw [if_pos hit,if_pos same,if_pos (hit.trans same)]
  · rw [if_neg hit]

theorem find?_put [DecidableEq κ] (t : Table key) (r : ρ) (k : κ) :
    (t.put r).find? k = (t.find? k).map (fun s => if key s = key r then r else s) := by
  have sameKey (s : ρ) : key (if key s = key r then r else s) = key s := by split <;> simp_all
  simp only [find?,rows_put,List.find?_map,Function.comp_def,sameKey]

/-- Writing back a row that is there. -/
theorem find?_put_of [DecidableEq κ] (t : Table key) {r old : ρ} (found : t.find? (key r) = some old) (k : κ) :
    (t.put r).find? k = if k = key r then some r else t.find? k := by
  rw [find?_put]
  split
  · rename_i same
    rw [same,found,Option.map_some,if_pos (find?_eq_some.mp found).2]
  · rename_i other
    cases there : t.find? k with
    | none => rfl
    | some s =>
      obtain ⟨_,rfl⟩ := find?_eq_some.mp there
      rw [Option.map_some,if_neg other]

/-- `INSERT ... ON CONFLICT DO UPDATE`, all columns. -/
def upsert [DecidableEq κ] (t : Table key) (r : ρ) : Table key :=
  if taken : key r ∈ t.rows.map key then t.put r
  else ⟨t.rows ++ [r],by
    rw [List.map_append,List.nodup_append]
    refine ⟨t.keyed,by simp,?_⟩
    intro a inside b single same
    rw [List.map_singleton,List.mem_singleton] at single
    exact taken (by rwa [← single,← same])⟩

theorem mem_upsert [DecidableEq κ] {t : Table key} {r s : ρ} :
    s ∈ t.upsert r ↔ s = r ∨ (s ∈ t ∧ key s ≠ key r) := by
  unfold upsert
  split
  · rename_i taken
    obtain ⟨old,member,same⟩ := List.mem_map.mp taken
    rw [mem_put]
    constructor
    · rintro (⟨inside,other⟩ | ⟨rfl,_⟩)
      · exact .inr ⟨inside,other⟩
      · exact .inl rfl
    · rintro (rfl | ⟨inside,other⟩)
      · exact .inr ⟨rfl,old,member,same⟩
      · exact .inl ⟨inside,other⟩
  · rename_i fresh
    have absent : ∀ old ∈ t, key old ≠ key r := fun old inside same => fresh (List.mem_map.mpr ⟨old,inside,same⟩)
    simp only [mem_def,List.mem_append,List.mem_singleton]
    constructor
    · rintro (inside | rfl)
      · exact .inr ⟨inside,absent s inside⟩
      · exact .inl rfl
    · rintro (rfl | ⟨inside,_⟩)
      · exact .inr rfl
      · exact .inl inside

theorem find?_upsert [DecidableEq κ] (t : Table key) (r : ρ) (k : κ) :
    (t.upsert r).find? k = if k = key r then some r else t.find? k := by
  by_cases same : k = key r
  · rw [if_pos same,find?_eq_some]
    exact ⟨mem_upsert.mpr (.inl rfl),same.symm⟩
  · rw [if_neg same]
    cases found : t.find? k with
    | none =>
      rw [find?_eq_none] at found ⊢
      intro s inside
      rcases mem_upsert.mp inside with rfl | ⟨member,_⟩
      · exact fun hit => same hit.symm
      · exact found s member
    | some s =>
      obtain ⟨member,rfl⟩ := find?_eq_some.mp found
      exact find?_eq_some.mpr ⟨mem_upsert.mpr (.inr ⟨member,same⟩),rfl⟩

theorem mem_of_upserts [DecidableEq κ] {rows : List ρ} {t : Table key} {r : ρ} (member : r ∈ rows.foldl upsert t) : r ∈ t ∨ r ∈ rows := by
  induction rows generalizing t with
  | nil => exact .inl member
  | cons first rows ih =>
    rcases ih member with before | later
    · rcases mem_upsert.mp before with rfl | ⟨old,_⟩
      · exact .inr List.mem_cons_self
      · exact .inl old
    · exact .inr (List.mem_cons_of_mem _ later)

theorem upserts_known [DecidableEq κ] {rows : List ρ} {t : Table key} {k : κ} (known : (∃ r ∈ t, key r = k) ∨ ∃ r ∈ rows, key r = k) :
    ∃ r ∈ rows.foldl upsert t, key r = k := by
  induction rows generalizing t with
  | nil => simpa using known
  | cons first rows ih =>
    apply ih
    rcases known with ⟨r,member,rfl⟩ | ⟨r,member,rfl⟩
    · by_cases same : key r = key first
      · exact .inl ⟨first,mem_upsert.mpr (.inl rfl),same.symm⟩
      · exact .inl ⟨r,mem_upsert.mpr (.inr ⟨member,same⟩),rfl⟩
    · rcases List.mem_cons.mp member with rfl | later
      · exact .inl ⟨r,mem_upsert.mpr (.inl rfl),rfl⟩
      · exact .inr ⟨r,later,rfl⟩

/-- Where a key always comes with the same row, the dict of some rows holds just these. -/
theorem mem_upserts [DecidableEq κ] {rows : List ρ} (single : ∀ r ∈ rows, ∀ s ∈ rows, key r = key s → r = s) {r : ρ} :
    r ∈ rows.foldl upsert (empty : Table key) ↔ r ∈ rows := by
  constructor
  · exact fun member => (mem_of_upserts member).resolve_left (not_mem_empty r)
  · intro listed
    have known : ∃ s ∈ rows.foldl upsert (empty : Table key), key s = key r := upserts_known (.inr ⟨r,listed,rfl⟩)
    obtain ⟨s,member,same⟩ := known
    have listed' := (mem_of_upserts member).resolve_left (not_mem_empty s)
    rwa [single r listed s listed' same.symm]

/-- A selection by the key of a row finds just that row. -/
theorem filter_rows {t : Table key} {p : ρ → Bool} {r : ρ} (member : r ∈ t) (only : ∀ s ∈ t, p s ↔ key s = key r) :
    t.rows.filter p = [r] := by
  obtain ⟨rows,keyed⟩ := t
  change r ∈ rows at member
  change ∀ s ∈ rows, p s ↔ key s = key r at only
  change rows.filter p = [r]
  induction rows with
  | nil => cases member
  | cons a rows ih =>
    rw [List.map_cons,List.nodup_cons] at keyed
    obtain ⟨apart,keyed⟩ := keyed
    rcases List.mem_cons.mp member with rfl | later
    · rw [List.filter_cons_of_pos ((only r List.mem_cons_self).mpr rfl),List.filter_eq_nil_iff.mpr]
      intro s inside chosen
      exact apart (List.mem_map.mpr ⟨s,inside,(only s (List.mem_cons_of_mem _ inside)).mp chosen⟩)
    · have other : ¬p a := fun chosen =>
        apart (List.mem_map.mpr ⟨r,later,((only a List.mem_cons_self).mp chosen).symm⟩)
      rw [List.filter_cons_of_neg other]
      exact ih keyed later (fun s inside => only s (List.mem_cons_of_mem _ inside))

/-- `SELECT * WHERE p`, as a table of its own. -/
def filter (t : Table key) (p : ρ → Bool) : Table key :=
  ⟨t.rows.filter p,t.keyed.sublist (List.filter_sublist.map key)⟩

@[simp] theorem mem_filter {t : Table key} {p : ρ → Bool} {r : ρ} : r ∈ t.filter p ↔ r ∈ t ∧ p r := by
  simp [mem_def,filter]

theorem find?_filter [DecidableEq κ] {t : Table key} {p : ρ → Bool} {k : κ} (kept : ∀ r, key r = k → p r) :
    (t.filter p).find? k = t.find? k := by
  cases found : t.find? k with
  | none =>
    rw [find?_eq_none] at found ⊢
    exact fun r inside => found r (mem_filter.mp inside).1
  | some r =>
    obtain ⟨member,same⟩ := find?_eq_some.mp found
    exact find?_eq_some.mpr ⟨mem_filter.mpr ⟨member,kept r same⟩,same⟩

end Table

end Suixinji.Relational
