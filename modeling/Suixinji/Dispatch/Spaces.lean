import Suixinji.Dispatch.Effects

/-! Which space a platform's id stands for, over any history of `ensure_tenant_space` calls. -/
namespace Suixinji.Dispatch
open Suixinji.Relational

/-- The arguments of `ensure_tenant_space`. -/
structure SpaceCall where
  spaceId : String
  tenantId : TenantId := defaultTenantId
  source : String := "feishu"
  deriving DecidableEq

def SpaceCall.identity (c : SpaceCall) : TenantId × String × String := (c.tenantId,c.source,c.spaceId)

def SpaceCall.run (host : Host) (db : Db) (c : SpaceCall) : Option (Db × SpaceId) :=
  ensureTenantSpace host db c.spaceId c.tenantId c.source

/-- The calls one after the other; one that raises leaves nothing behind. -/
def ensureAll (host : Host) (db : Db) (calls : List SpaceCall) : Db :=
  calls.foldl (fun db c => ((c.run host db).map Prod.fst).getD db) db

/-- A row has the platform's id for its own, or another tenant's row has that id;
no two rows stand for one platform id. -/
structure Sourced (db : Db) : Prop where
  named : ∀ s ∈ db.spaces, s.id = s.sourceSpaceId ∨ ∃ o ∈ db.spaces, o.id = s.sourceSpaceId ∧ o.tenantId ≠ s.tenantId
  single : ∀ s ∈ db.spaces, ∀ t ∈ db.spaces, s.identity = t.identity → s = t

/-- The id found for a call: the tenant's own row under the platform's id, or where
another tenant has that id, the row of the platform identity. -/
def Stands (db : Db) (c : SpaceCall) (id : SpaceId) : Prop :=
  (id = c.spaceId ∧ ∃ s ∈ db.spaces, s.id = c.spaceId ∧ s.tenantId = c.tenantId) ∨
  (∃ o ∈ db.spaces, o.id = c.spaceId ∧ o.tenantId ≠ c.tenantId) ∧
    ∃ s ∈ db.spaces, s.identity = c.identity ∧ s.id = id

theorem Stands.mono {db db' : Db} {c : SpaceCall} {id : SpaceId} (stands : Stands db c id)
    (grows : ∀ s ∈ db.spaces, s ∈ db'.spaces) : Stands db' c id := by
  rcases stands with ⟨same,s,member,own⟩ | ⟨⟨o,other,taken⟩,s,member,own⟩
  · exact .inl ⟨same,s,grows s member,own⟩
  · exact .inr ⟨⟨o,grows o other,taken⟩,s,grows s member,own⟩

theorem Stands.housed {db : Db} {c : SpaceCall} {id : SpaceId} (stands : Stands db c id) :
    ∃ s ∈ db.spaces, s.id = id ∧ s.tenantId = c.tenantId := by
  rcases stands with ⟨rfl,own⟩ | ⟨_,s,member,identity,same⟩
  · exact own
  · exact ⟨s,member,same,congrArg Prod.fst identity⟩

theorem insertSpace_refused {db : Db} {s t : Space} (member : t ∈ db.spaces) (same : t.identity = s.identity) :
    db.insertSpace s = (db,none) := by
  have taken : db.spaces.rows.any (fun other => other.identity = s.identity) = true :=
    List.any_eq_true.mpr ⟨t,member,decide_eq_true same⟩
  simp only [Db.insertSpace,taken,if_true]

theorem Sourced.found {db : Db} (sourced : Sourced db) {s : Space} (member : s ∈ db.spaces) :
    db.spaceByIdentity? s.identity = some s.id := by
  cases look : db.spaceByIdentity? s.identity with
  | none =>
    simp only [Db.spaceByIdentity?,Option.map_eq_none_iff,List.find?_eq_none] at look
    exact absurd (decide_eq_true rfl) (look s member)
  | some id =>
    obtain ⟨t,inside,rfl,same⟩ := spaceByIdentity?_spec look
    rw [sourced.single t inside s member same]

theorem Stands.run {host : Host} {db : Db} {c : SpaceCall} {id : SpaceId} (sourced : Sourced db)
    (stands : Stands db c id) : c.run host db = some (db,id) := by
  rcases stands with ⟨rfl,s,member,same,own⟩ | ⟨⟨o,other,taken,foreign⟩,s,member,identity,rfl⟩
  · have look : db.spaces.find? c.spaceId = some s := Table.find?_eq_some.mpr ⟨member,same⟩
    simp [SpaceCall.run,ensureTenantSpace,look,own]
  · have look : db.spaces.find? c.spaceId = some o := Table.find?_eq_some.mpr ⟨other,taken⟩
    have known : db.spaceByIdentity? (c.tenantId,c.source,c.spaceId) = some s.id := by
      rw [← sourced.found member,identity]
      rfl
    have refused (id : SpaceId) : db.insertSpace (newSpace c.tenantId c.source c.spaceId id) = (db,none) :=
      insertSpace_refused member identity
    simp only [SpaceCall.run,ensureTenantSpace,look,known,refused,Option.any_some,decide_eq_true_eq,if_neg foreign]
    cases here : truthy (some s.id) with
    | some text =>
      cases Option.some.inj (truthy_eq_some here)
      rfl
    | none => simp [truthy]

theorem insertSpace_taken {db : Db} {s t : Space} (member : t ∈ db.spaces) (same : t.id = s.id) :
    db.insertSpace s = (db,none) := by
  unfold Db.insertSpace
  split
  · rfl
  · cases inserted : db.spaces.insert s with
    | none => rfl
    | some spaces => exact absurd same ((Table.insert_eq_some.mp inserted).1 t member)

theorem insertSpace_fresh {db : Db} {s : Space} (identity : ∀ t ∈ db.spaces, t.identity ≠ s.identity)
    (key : ∀ t ∈ db.spaces, t.id ≠ s.id) :
    ∃ spaces, db.spaces.insert s = some spaces ∧ db.insertSpace s = ({db with spaces},some s.id) := by
  obtain ⟨spaces,inserted⟩ := db.spaces.insertAll_of_fresh [s] (by simp) (fun r given t member => by
    rw [List.mem_singleton.mp given]
    exact key t member)
  have inserted : db.spaces.insert s = some spaces := by simpa [Table.insertAll] using inserted
  refine ⟨spaces,inserted,?_⟩
  have free : db.spaces.rows.any (fun other => other.identity = s.identity) = false :=
    List.any_eq_false.mpr (fun t member => by simpa using identity t member)
  simp [Db.insertSpace,free,inserted]

theorem unknown_identity {db : Db} {identity : TenantId × String × String}
    (free : ∀ s ∈ db.spaces, s.identity ≠ identity) : db.spaceByIdentity? identity = none := by
  simp only [Db.spaceByIdentity?,Option.map_eq_none_iff,List.find?_eq_none]
  exact fun s member => by simpa using free s member

/-- A call for a platform id that is not known: its row is new, under the platform's id
or, where another tenant has that id, under the digest. -/
theorem run_new {host : Host} {db db' : Db} {c : SpaceCall} {id : SpaceId}
    (free : ∀ s ∈ db.spaces, s.identity ≠ c.identity) (own : ∀ s ∈ db.spaces, s.id = c.spaceId → s.tenantId ≠ c.tenantId)
    (ok : c.run host db = some (db',id)) :
    ∃ spaces, db.spaces.insert (newSpace c.tenantId c.source c.spaceId id) = some spaces ∧
      db' = {db with spaces} ∧ (id = c.spaceId ∨ ∃ o ∈ db.spaces, o.id = c.spaceId ∧ o.tenantId ≠ c.tenantId) := by
  have unknown : db.spaceByIdentity? (c.tenantId,c.source,c.spaceId) = none := unknown_identity free
  have nothing : truthy none = none := rfl
  cases look : db.spaces.find? c.spaceId with
  | none =>
    obtain ⟨spaces,inserted,raw⟩ := insertSpace_fresh (s := newSpace c.tenantId c.source c.spaceId c.spaceId) free
      (Table.find?_eq_none.mp look)
    have sourced : ({db with spaces} : Db).spaceByIdentity? (c.tenantId,c.source,c.spaceId) = some c.spaceId := by
      have rows : spaces.rows = _ := (Table.insert_eq_some.mp inserted).2
      have absent : db.spaces.rows.find? (fun s => s.identity = (c.tenantId,c.source,c.spaceId)) = none := by
        simpa only [Db.spaceByIdentity?,Option.map_eq_none_iff] using unknown
      simp only [Db.spaceByIdentity?,rows,List.find?_append,absent,Option.none_or]
      simp [newSpace,Space.identity]
    have refused : ({db with spaces} : Db).insertSpace (newSpace c.tenantId c.source c.spaceId
        (digestSpaceId host c.tenantId c.source c.spaceId)) = ({db with spaces},none) :=
      insertSpace_refused ((Table.mem_insert inserted).mpr (.inr rfl)) rfl
    simp only [SpaceCall.run,ensureTenantSpace,look,unknown,nothing,raw,refused,sourced,Option.any_none,
      Bool.false_eq_true,if_false] at ok
    refine ⟨spaces,?_⟩
    split at ok
    · rename_i text answer
      cases truthy_eq_some answer
      cases ok
      exact ⟨inserted,rfl,.inl rfl⟩
    · cases ok
      exact ⟨inserted,rfl,.inl rfl⟩
  | some o =>
    obtain ⟨member,taken⟩ := Table.find?_eq_some.mp look
    have foreign := own o member taken
    have raw : db.insertSpace (newSpace c.tenantId c.source c.spaceId c.spaceId) = (db,none) :=
      insertSpace_taken member taken
    simp only [SpaceCall.run,ensureTenantSpace,look,unknown,nothing,raw,Option.any_some,decide_eq_true_eq,
      if_neg foreign] at ok
    generalize second : db.insertSpace _ = r at ok
    obtain ⟨db₂,created⟩ := r
    rcases insertSpace_spec second with ⟨rfl,rfl⟩ | ⟨rfl,_,spaces,inserted,rfl⟩
    · simp [nothing,unknown] at ok
    · have named : truthy (some (digestSpaceId host c.tenantId c.source c.spaceId)) =
          some (digestSpaceId host c.tenantId c.source c.spaceId) := by
        simp [truthy,digestSpaceId]
      simp only [newSpace,named] at ok
      cases ok
      exact ⟨spaces,inserted,rfl,.inr ⟨o,member,taken,foreign⟩⟩

theorem Sourced.insert {db : Db} (sourced : Sourced db) {s : Space} {spaces : Table Space.id}
    (inserted : db.spaces.insert s = some spaces) (free : ∀ t ∈ db.spaces, t.identity ≠ s.identity)
    (named : s.id = s.sourceSpaceId ∨ ∃ o ∈ db.spaces, o.id = s.sourceSpaceId ∧ o.tenantId ≠ s.tenantId) :
    Sourced {db with spaces} where
  named t member := by
    have old : ∀ {text tenant}, (∃ o ∈ db.spaces, o.id = text ∧ o.tenantId ≠ tenant) →
        ∃ o ∈ spaces, o.id = text ∧ o.tenantId ≠ tenant :=
      fun ⟨o,other,taken⟩ => ⟨o,(Table.mem_insert inserted).mpr (.inl other),taken⟩
    rcases (Table.mem_insert inserted).mp member with before | rfl
    · exact (sourced.named t before).imp id old
    · exact named.imp id old
  single t member u inside same := by
    rcases (Table.mem_insert inserted).mp member with before | rfl
    · rcases (Table.mem_insert inserted).mp inside with before' | rfl
      · exact sourced.single t before u before' same
      · exact absurd same (free t before)
    · rcases (Table.mem_insert inserted).mp inside with before' | rfl
      · exact absurd same.symm (free u before')
      · rfl

theorem run_stands {host : Host} {db db' : Db} {c : SpaceCall} {id : SpaceId} (sourced : Sourced db)
    (ok : c.run host db = some (db',id)) :
    Sourced db' ∧ (∀ s ∈ db.spaces, s ∈ db'.spaces) ∧ Stands db' c id := by
  by_cases known : ∃ found, Stands db c found
  · obtain ⟨found,stands⟩ := known
    cases (stands.run sourced).symm.trans ok
    exact ⟨sourced,fun _ member => member,stands⟩
  · have own : ∀ s ∈ db.spaces, s.id = c.spaceId → s.tenantId ≠ c.tenantId :=
      fun s member same mine => known ⟨_,.inl ⟨rfl,s,member,same,mine⟩⟩
    have free : ∀ s ∈ db.spaces, s.identity ≠ c.identity := by
      intro s member same
      have text : s.sourceSpaceId = c.spaceId := congrArg (·.2.2) same
      have tenant : s.tenantId = c.tenantId := congrArg (·.1) same
      rcases sourced.named s member with raw | ⟨o,other,taken,foreign⟩
      · exact own s member (raw.trans text) tenant
      · exact known ⟨_,.inr ⟨⟨o,other,taken.trans text,tenant ▸ foreign⟩,s,member,same,rfl⟩⟩
    obtain ⟨spaces,inserted,rfl,named⟩ := run_new free own ok
    have grown : ∀ s ∈ db.spaces, s ∈ spaces := fun s member => (Table.mem_insert inserted).mpr (.inl member)
    have new : newSpace c.tenantId c.source c.spaceId id ∈ spaces := (Table.mem_insert inserted).mpr (.inr rfl)
    refine ⟨sourced.insert inserted free named,grown,?_⟩
    rcases named with rfl | ⟨o,other,taken⟩
    · exact .inl ⟨rfl,_,new,rfl,rfl⟩
    · exact .inr ⟨⟨o,grown o other,taken⟩,_,new,rfl,rfl⟩

theorem ensureAll_kept (host : Host) {db : Db} (sourced : Sourced db) (calls : List SpaceCall) :
    Sourced (ensureAll host db calls) ∧ ∀ s ∈ db.spaces, s ∈ (ensureAll host db calls).spaces := by
  induction calls generalizing db with
  | nil => exact ⟨sourced,fun _ member => member⟩
  | cons c calls ih =>
    rw [ensureAll,List.foldl_cons]
    cases ok : c.run host db with
    | none => exact ih sourced
    | some answer =>
      obtain ⟨db',found⟩ := answer
      obtain ⟨sourced,grown,_⟩ := run_stands sourced ok
      obtain ⟨kept,more⟩ := ih sourced
      exact ⟨kept,fun s member => more s (grown s member)⟩

theorem sourced_empty : Sourced {} where
  named s member := absurd member (Table.not_mem_empty s)
  single s member := absurd member (Table.not_mem_empty s)

/-- In every history, an answered call gives a space of its tenant, which no call of another
tenant is ever given, and which the same call, or one with the answer as the id, gives again. -/
theorem space_resolution (host : Host) (earlier later : List SpaceCall) (c : SpaceCall) (db : Db) (id : SpaceId)
    (answered : c.run host (ensureAll host {} earlier) = some (db,id)) :
    (∃ s ∈ (ensureAll host db later).spaces, s.id = id ∧ s.tenantId = c.tenantId) ∧
    (∀ (c' : SpaceCall) db', c'.run host (ensureAll host db later) = some (db',id) → c'.tenantId = c.tenantId) ∧
    c.run host (ensureAll host db later) = some (ensureAll host db later,id) ∧
    ∀ source, SpaceCall.run host (ensureAll host db later) ⟨id,c.tenantId,source⟩ =
      some (ensureAll host db later,id) := by
  obtain ⟨sourced,_,stands⟩ := run_stands (ensureAll_kept host sourced_empty earlier).1 answered
  obtain ⟨kept,grown⟩ := ensureAll_kept host sourced later
  have stands := stands.mono grown
  obtain ⟨s,member,same,own⟩ := stands.housed
  refine ⟨⟨s,member,same,own⟩,?_,stands.run kept,?_⟩
  · intro c' db' answered'
    obtain ⟨_,more,stands'⟩ := run_stands kept answered'
    obtain ⟨t,inside,same',own'⟩ := stands'.housed
    rw [← own',← own,db'.spaces.unique inside (more s member) (same'.trans same.symm)]
  · exact fun source => Stands.run kept (.inl ⟨rfl,s,member,same,own⟩)

/-- Two tenants name their space alike; a later call of the first one names the other's by its internal id. -/
theorem space_resolution_shared :
    ∃ db id, SpaceCall.run asciiHost (ensureAll asciiHost {} [{spaceId := "chat",tenantId := "a"}])
        {spaceId := "chat",tenantId := "b"} = some (db,id) ∧ id = "space_b:feishu:chat" ∧
      SpaceCall.run asciiHost (ensureAll asciiHost db [{spaceId := id,tenantId := "a"}]) {spaceId := "chat",tenantId := "b"} =
        some (ensureAll asciiHost db [{spaceId := id,tenantId := "a"}],id) := by
  have given : (SpaceCall.run asciiHost (ensureAll asciiHost {} [{spaceId := "chat",tenantId := "a"}])
      {spaceId := "chat",tenantId := "b"}).map Prod.snd = some "space_b:feishu:chat" := by decide +kernel
  obtain ⟨⟨db,_⟩,answered,rfl⟩ := Option.map_eq_some_iff.mp given
  exact ⟨db,_,answered,rfl,(space_resolution asciiHost _ [{spaceId := "space_b:feishu:chat",tenantId := "a"}] _ db _ answered).2.2.1⟩

end Suixinji.Dispatch
