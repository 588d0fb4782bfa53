import Suixinji.Memories.Local
import Suixinji.Memories.Projections
import Suixinji.Memories.Effects
import Suixinji.Relational.Absorb
import Suixinji.Relational.Evolution

/-! `merge_duplicate_episodic` (memory/consolidator.py) on either store, with the scores that
`score_memory` gives to a keeper's content and another record as a parameter. -/
namespace Suixinji.Memories
open Relational Checked Ranking Absorb

variable {σ : Type}

/-- `update_memory` of memory/repository.py; the columns it does not take are not in `c`. -/
def Local.updateMemory (lib : Library σ) (id : MemoryId) (c : Changes σ) (reason : Option String)
    (sourceNoteId : Option NoteId) (now : Time) (s : Store σ) : Except Error (Store σ) :=
  match s.memories.find? id with
  | none => .ok s
  | some m => do
    let content := c.content.getD m.content
    let row := { m with
      content
      memoryKey := if m.memoryKeyVersion.keyKept ∧ orEmpty m.memoryKey ≠ "" then m.memoryKey
        else some (lib.memoryKeyFor m.memoryType m.subject m.predicate m.objectValue content)
      status := c.status.getD m.status
      taskStatus := c.taskStatus <|> m.taskStatus
      validUntil := c.validUntil <|> m.validUntil
      confidence := c.confidence.getD m.confidence
      importance := c.importance.getD m.importance
      lastConfirmedAt := c.lastConfirmedAt <|> m.lastConfirmedAt
      updatedAt := now
      currentVersion := m.currentVersion + 1 }
    require (∀ n ∈ s.memories.rows, ¬row.sameCard n) .integrityError
    return Local.addVersion row row.taskStatus reason sourceNoteId { s with memories := s.memories.put row }

/-- `STORAGE_BACKEND`. -/
inductive Backend where
  | local
  | postgres
  deriving DecidableEq

/-- `add_source`. -/
def Backend.addSource (lib : Library σ) (id : MemoryId) (noteId : NoteId) (relation : SourceRelation) (s : Store σ) :
    Backend → Store σ
  | .local => (Local.addSourceRow id noteId relation s).2
  | .postgres => addSourceCommand lib id noteId relation s

def Backend.updateMemory (lib : Library σ) (id : MemoryId) (c : Changes σ) (reason : Option String) (now : Time)
    (s : Store σ) : Backend → Except Error (Store σ)
  | .local => Local.updateMemory lib id c reason none now s
  | .postgres => Memories.updateMemory lib id c reason none now s

/-- `ORDER BY updated_at DESC`, on PostgreSQL with the id for a second column. -/
def Backend.newestFirst : Backend → List (Memory σ) → List (Memory σ)
  | .local => fun memories => memories.mergeSort (fun m n => n.updatedAt ≤ m.updatedAt)
  | .postgres => fun memories => memories.mergeSort (fun m n => !byThen Memory.updatedAt (less Memory.id) m n)

/-- A memory as `list_memories` returns it, with its sources. -/
structure Episode (σ : Type) where
  memory : Memory σ
  noteIds : List NoteId

abbrev Episode.id (e : Episode σ) : MemoryId := e.memory.id

/-- `list_memories(space_id, status="active", memory_type="episodic", limit=100)`. -/
def Store.listEpisodic (s : Store σ) (backend : Backend) (spaceId : SpaceId) (now : Time) : List (Episode σ) :=
  ((backend.newestFirst (s.memories.rows.filter (fun m => m.spaceId = spaceId && m.status = .active &&
    m.memoryType = .episodic && m.validUntil.all (now < ·)))).take 100).map (fun m => ⟨m,s.noteIds m.id⟩)

/-- The arguments of one run: the space, what `score_memory` makes of two records, `min_score` and the clock. -/
structure Merge (σ : Type) where
  backend : Backend
  spaceId : SpaceId
  scoreMemory : Memory σ → Memory σ → ℚ
  minScore : ℚ := 18/25
  now : Time

def Merge.near (g : Merge σ) (keeper duplicate : Episode σ) : Bool :=
  !(g.scoreMemory keeper.memory duplicate.memory < g.minScore)

abbrev Merged (σ : Type) := Merging (Episode σ) MemoryId × Store σ

/-- The body of the inner loop. -/
def Merge.mergeOne (lib : Library σ) (g : Merge σ) (keeper : Episode σ) (acc : Merged σ) (duplicate : Episode σ) :
    Except Error (Merged σ) :=
  if duplicate.id = keeper.id ∨ duplicate.id ∈ acc.1.consumed then .ok acc
  else if g.scoreMemory keeper.memory duplicate.memory < g.minScore then .ok acc
  else do
    let sourced := duplicate.noteIds.foldl (fun s note => g.backend.addSource lib keeper.id note .supportedBy s) acc.2
    let s ← g.backend.updateMemory lib duplicate.id { status := some .superseded,validUntil := some g.now }
      (some "weekly_duplicate_episodic_merge") g.now sourced
    return (acc.1.take Episode.id keeper duplicate,s)

def Merge.mergeAll (lib : Library σ) (g : Merge σ) (episodic : List (Episode σ)) (acc : Merged σ) (keeper : Episode σ) :
    Except Error (Merged σ) :=
  if keeper.id ∈ acc.1.consumed then .ok acc else episodic.foldlM (g.mergeOne lib keeper) acc

def Merge.mergeDuplicateEpisodic (lib : Library σ) (g : Merge σ) (s : Store σ) : Except Error (Merged σ) :=
  let episodic := s.listEpisodic g.backend g.spaceId g.now
  episodic.foldlM (g.mergeAll lib episodic) ({},s)

/-! ### What the statements do to the sources -/

def Store.cites (s : Store σ) (id : MemoryId) (note : NoteId) : Prop :=
  ∃ r ∈ s.sources, r.memoryId = id ∧ r.noteId = note

def Store.episode (s : Store σ) (spaceId : SpaceId) (id : MemoryId) : Prop :=
  ∃ m ∈ s.memories, m.id = id ∧ m.spaceId = spaceId ∧ m.memoryType = .episodic ∧ m.status = .active

theorem noteIds_cites {s : Store σ} {id : MemoryId} {note : NoteId} : note ∈ s.noteIds id ↔ s.cites id note := by
  simp [Store.noteIds,Store.cites,Table.mem_def,and_assoc]

theorem mem_insertNew_singleton {ρ κ : Type} [DecidableEq κ] {key : ρ → κ} {t : Table key} {r s : ρ}
    (whole : ∀ r s, key r = key s → r = s) : s ∈ t.insertNew [r] ↔ s ∈ t ∨ s = r := by
  have inserted : t.insertNew [r] = (t.insert r).getD t := rfl
  rw [inserted]
  cases taken : t.insert r with
  | some u => exact Table.mem_insert taken
  | none =>
    have inside : r ∈ t := by
      by_contra absent
      obtain ⟨u,ok⟩ := t.insertAll_of_fresh [r] (by simp) (fun q given p member same => by
        rw [List.mem_singleton.mp given] at same
        exact absent (whole p r same ▸ member))
      simp [Table.insertAll,taken] at ok
    exact ⟨.inl,fun member => member.elim id (fun same => same ▸ inside)⟩

theorem cites_insertNew {s : Store σ} {id : MemoryId} {note : NoteId} {relation : SourceRelation} {id' : MemoryId}
    {note' : NoteId} :
    Store.cites { s with sources := s.sources.insertNew [⟨id,note,relation⟩] } id' note' ↔
      s.cites id' note' ∨ id' = id ∧ note' = note := by
  simp only [Store.cites,mem_insertNew_singleton (fun _ _ same => same)]
  constructor
  · rintro ⟨r,member | rfl,rfl,rfl⟩
    · exact .inl ⟨r,member,rfl,rfl⟩
    · exact .inr ⟨rfl,rfl⟩
  · rintro (⟨r,member,same⟩ | ⟨rfl,rfl⟩)
    · exact ⟨r,.inl member,same⟩
    · exact ⟨_,.inr rfl,rfl,rfl⟩

theorem addSource_memories {lib : Library σ} {b : Backend} {id : MemoryId} {note : NoteId} {relation : SourceRelation}
    {s : Store σ} : (b.addSource lib id note relation s).memories = s.memories := by
  cases b with
  | «local» =>
    change (Local.addSourceRow id note relation s).2.memories = _
    unfold Local.addSourceRow
    split <;> rfl
  | postgres =>
    change (addSourceCommand lib id note relation s).memories = _
    unfold addSourceCommand
    split
    · rfl
    · dsimp only
      split <;> rfl

theorem addSource_cites {lib : Library σ} {b : Backend} {id : MemoryId} {note : NoteId} {relation : SourceRelation}
    {s : Store σ} (known : ∃ m ∈ s.memories, m.id = id) (id' : MemoryId) (note' : NoteId) :
    (b.addSource lib id note relation s).cites id' note' ↔ s.cites id' note' ∨ id' = id ∧ note' = note := by
  cases b with
  | «local» =>
    change (Local.addSourceRow id note relation s).2.cites id' note' ↔ _
    unfold Local.addSourceRow
    split
    · rename_i there
      exact ⟨.inl,fun h => h.elim (fun there => there) (fun h => h.1 ▸ h.2 ▸ there)⟩
    · exact cites_insertNew
  | postgres =>
    obtain ⟨m,member,rfl⟩ := known
    change (addSourceCommand lib m.id note relation s).cites id' note' ↔ _
    simp only [addSourceCommand,Table.find?_mem member]
    split <;> exact cites_insertNew

theorem addSources_spec (lib : Library σ) (b : Backend) {id : MemoryId} (relation : SourceRelation) (notes : List NoteId)
    {s : Store σ} (known : ∃ m ∈ s.memories, m.id = id) :
    (notes.foldl (fun s note => b.addSource lib id note relation s) s).memories = s.memories ∧
      ∀ id' note', (notes.foldl (fun s note => b.addSource lib id note relation s) s).cites id' note' ↔
        s.cites id' note' ∨ id' = id ∧ note' ∈ notes := by
  induction notes generalizing s with
  | nil => simp
  | cons note notes ih =>
    have same : (b.addSource lib id note relation s).memories = s.memories := addSource_memories
    obtain ⟨memories,cites⟩ := ih (s := b.addSource lib id note relation s) (by rwa [same])
    rw [List.foldl_cons]
    refine ⟨memories.trans same,fun id' note' => ?_⟩
    rw [cites,addSource_cites known,or_assoc,← and_or_left,List.mem_cons]

theorem updateMemory_spec {lib : Library σ} {b : Backend} {id : MemoryId} {c : Changes σ} {reason : Option String}
    {now : Time} {s s' : Store σ} (ok : b.updateMemory lib id c reason now s = .ok s') :
    s'.sources = s.sources ∧ Table.Evolves (fun m m' : Memory σ => m'.spaceId = m.spaceId ∧
      m'.memoryType = m.memoryType ∧ m'.status = if m.id = id then c.status.getD m.status else m.status)
      (fun _ => False) s.memories s'.memories := by
  have same : ∀ m ∈ s.memories, m.id ≠ id → m.spaceId = m.spaceId ∧ m.memoryType = m.memoryType ∧
      m.status = if m.id = id then c.status.getD m.status else m.status :=
    fun m _ other => ⟨rfl,rfl,(if_neg other).symm⟩
  have absent : s.memories.find? id = none → ∀ m ∈ s.memories, m.id ≠ id := Table.find?_eq_none.mp
  cases b with
  | «local» =>
    change Local.updateMemory lib id c reason none now s = .ok s' at ok
    unfold Local.updateMemory at ok
    split at ok
    · rename_i missing
      cases ok
      exact ⟨rfl,.refl (fun m member => same m member (absent missing m member))⟩
    · rename_i m found
      obtain ⟨member,rfl⟩ := Table.find?_eq_some.mp found
      simp only [bind_ok,require_ok] at ok
      obtain ⟨_,_,written⟩ := ok
      cases written
      exact ⟨rfl,.put_of_mem member rfl ⟨rfl,rfl,(if_pos rfl).symm⟩ same⟩
  | postgres =>
    change Memories.updateMemory lib id c reason none now s = .ok s' at ok
    unfold Memories.updateMemory at ok
    split at ok
    · rename_i missing
      cases ok
      exact ⟨rfl,.refl (fun m member => same m member (absent (by simpa using missing) m member))⟩
    · simp only [bind_ok,versionedUpdate_ok] at ok
      obtain ⟨_,⟨m,found,_,rfl⟩,written⟩ := ok
      cases written
      obtain ⟨member,rfl⟩ := Table.find?_eq_some.mp found
      exact ⟨rfl,.put_of_mem member rfl ⟨rfl,rfl,(if_pos rfl).symm⟩ same⟩

/-! ### The loops -/

/-- The store against the one the records were read from, by what has been merged. -/
structure Carried (s₀ : Store σ) (acc : Merged σ) : Prop where
  known : ∀ id, (∃ m ∈ acc.2.memories, m.id = id) ↔ ∃ m ∈ s₀.memories, m.id = id
  episode : ∀ spaceId id, acc.2.episode spaceId id ↔ s₀.episode spaceId id ∧ id ∉ acc.1.consumed
  cites : ∀ id note, acc.2.cites id note ↔
    s₀.cites id note ∨ ∃ k d, (k,d) ∈ acc.1.merged ∧ k.id = id ∧ note ∈ d.noteIds

theorem Carried.take {lib : Library σ} {b : Backend} {s₀ s : Store σ} {acc : Merged σ} {keeper d : Episode σ}
    {until_ : Option Time} {reason : Option String} {now : Time} (carried : Carried s₀ acc)
    (known : ∃ m ∈ s₀.memories, m.id = keeper.id)
    (ok : b.updateMemory lib d.id { status := some .superseded,validUntil := until_ } reason now
      (d.noteIds.foldl (fun s note => b.addSource lib keeper.id note .supportedBy s) acc.2) = .ok s) :
    Carried s₀ (acc.1.take Episode.id keeper d,s) := by
  obtain ⟨memories,cites⟩ := addSources_spec lib b .supportedBy d.noteIds
    ((carried.known keeper.id).mpr known)
  obtain ⟨sources,rows⟩ := updateMemory_spec ok
  rw [memories] at rows
  constructor
  · intro id
    rw [← carried.known]
    constructor
    · rintro ⟨m',member,rfl⟩
      rcases rows.origin m' member with ⟨m,before,same,_⟩ | none
      · exact ⟨m,before,same.symm⟩
      · cases none
    · rintro ⟨m,member,rfl⟩
      obtain ⟨m',after,same,_⟩ := rows.kept m member
      exact ⟨m',after,same⟩
  · intro spaceId id
    simp only [Merging.take,List.mem_append,List.mem_singleton,not_or,← and_assoc,← carried.episode]
    constructor
    · rintro ⟨m',member,rfl,space,type,active⟩
      rcases rows.origin m' member with ⟨m,before,same,space',type',status⟩ | none
      · by_cases hit : m.id = d.id
        · simp [hit,active] at status
        · rw [if_neg hit] at status
          exact ⟨⟨m,before,same.symm,space'.symm.trans space,type'.symm.trans type,status.symm.trans active⟩,
            fun same' => hit (same.symm.trans same')⟩
      · cases none
    · rintro ⟨⟨m,member,rfl,space,type,active⟩,other⟩
      obtain ⟨m',after,same,space',type',status⟩ := rows.kept m member
      rw [if_neg other] at status
      exact ⟨m',after,same,space'.trans space,type'.trans type,status.trans active⟩
  · intro id note
    have step : s.cites id note ↔
        (d.noteIds.foldl (fun s note => b.addSource lib keeper.id note .supportedBy s) acc.2).cites id note := by
      simp only [Store.cites,sources]
    change s.cites id note ↔ _
    rw [step,cites,carried.cites,or_assoc]
    simp only [Merging.take,List.mem_append,List.mem_singleton,Prod.mk.injEq]
    apply or_congr_right
    constructor
    · rintro (⟨k,e,old,given⟩ | ⟨rfl,given⟩)
      · exact ⟨k,e,.inl old,given⟩
      · exact ⟨keeper,d,.inr ⟨rfl,rfl⟩,rfl,given⟩
    · rintro ⟨k,e,old | ⟨rfl,rfl⟩,same,given⟩
      · exact .inl ⟨k,e,old,same,given⟩
      · exact .inr ⟨same.symm,given⟩

variable {lib : Library σ} {g : Merge σ} {s₀ : Store σ}

theorem mergeOne_carried {keeper d : Episode σ} {acc acc' : Merged σ} (carried : Carried s₀ acc)
    (known : ∃ m ∈ s₀.memories, m.id = keeper.id) (ok : g.mergeOne lib keeper acc d = .ok acc') :
    Carried s₀ acc' ∧ acc'.1 = takeOne Episode.id g.near keeper acc.1 d := by
  unfold Merge.mergeOne at ok
  split at ok
  · rename_i passed
    cases ok
    have idle : takes Episode.id g.near acc.1 keeper d = false := by
      rcases passed with same | taken
      · simp [takes,same]
      · simp [takes,taken]
    exact ⟨carried,by simp [takeOne,idle]⟩
  · rename_i open_
    split at ok
    · rename_i far
      cases ok
      have idle : takes Episode.id g.near acc.1 keeper d = false := by simp [takes,Merge.near,far]
      exact ⟨carried,by simp [takeOne,idle]⟩
    · rename_i close
      obtain ⟨s,updated,same⟩ := bind_ok.mp ok
      cases same
      have taking : takes Episode.id g.near acc.1 keeper d = true := by
        rw [not_or] at open_
        simp [takes,Merge.near,close,open_.1,open_.2]
      exact ⟨carried.take known updated,by simp [takeOne,taking]⟩

theorem mergeAll_carried {es : List (Episode σ)} {keeper : Episode σ} {acc acc' : Merged σ} (carried : Carried s₀ acc)
    (known : ∃ m ∈ s₀.memories, m.id = keeper.id) (ok : g.mergeAll lib es acc keeper = .ok acc') :
    Carried s₀ acc' ∧ acc'.1 = takeAll Episode.id g.near es acc.1 keeper := by
  unfold Merge.mergeAll at ok
  unfold takeAll
  split at ok
  · rename_i passed
    cases ok
    exact ⟨carried,(if_pos passed).symm⟩
  · rename_i leads
    rw [if_neg leads]
    clear leads
    induction es generalizing acc with
    | nil =>
      cases ok
      exact ⟨carried,rfl⟩
    | cons d es ih =>
      obtain ⟨acc₁,first,rest⟩ := bind_ok.mp ok
      obtain ⟨carried,same⟩ := mergeOne_carried carried known first
      obtain ⟨carried,same'⟩ := ih carried rest
      exact ⟨carried,by rw [same',same,List.foldl_cons]⟩

theorem mergeEach_carried {all es : List (Episode σ)} {acc acc' : Merged σ} (carried : Carried s₀ acc)
    (known : ∀ e ∈ es, ∃ m ∈ s₀.memories, m.id = e.id) (ok : es.foldlM (g.mergeAll lib all) acc = .ok acc') :
    Carried s₀ acc' ∧ acc'.1 = es.foldl (takeAll Episode.id g.near all) acc.1 := by
  induction es generalizing acc with
  | nil =>
    cases ok
    exact ⟨carried,rfl⟩
  | cons e es ih =>
    obtain ⟨acc₁,first,rest⟩ := bind_ok.mp ok
    obtain ⟨carried,same⟩ := mergeAll_carried carried (known e List.mem_cons_self) first
    obtain ⟨carried,same'⟩ := ih carried (fun e member => known e (List.mem_cons_of_mem _ member)) rest
    exact ⟨carried,by rw [same',same,List.foldl_cons]⟩

/-! ### The records -/

theorem mem_listEpisodic {s : Store σ} {b : Backend} {spaceId : SpaceId} {now : Time} {e : Episode σ}
    (listed : e ∈ s.listEpisodic b spaceId now) : s.episode spaceId e.id ∧ e.noteIds = s.noteIds e.id := by
  obtain ⟨m,taken,rfl⟩ := List.mem_map.mp listed
  have member := List.mem_of_mem_take taken
  have member : m ∈ s.memories.rows.filter (fun m => m.spaceId = spaceId && m.status = .active &&
      m.memoryType = .episodic && m.validUntil.all (now < ·)) := by
    cases b <;> exact List.mem_mergeSort.mp member
  simp only [List.mem_filter,Bool.and_eq_true,decide_eq_true_eq] at member
  exact ⟨⟨m,member.1,rfl,member.2.1.1.1,member.2.1.2,member.2.1.1.2⟩,rfl⟩

theorem listEpisodic_nodup {s : Store σ} {b : Backend} {spaceId : SpaceId} {now : Time} :
    ((s.listEpisodic b spaceId now).map Episode.id).Nodup := by
  simp only [Store.listEpisodic,List.map_map,Function.comp_def]
  apply List.Nodup.sublist ((List.take_sublist _ _).map _)
  have perm : ∀ ms : List (Memory σ), (b.newestFirst ms).Perm ms := by
    intro ms
    cases b <;> exact List.mergeSort_perm _ _
  exact ((perm _).map _).nodup_iff.mpr (s.memories.keyed.sublist (List.filter_sublist.map _))

/-- The records of the run. -/
def Merge.listed (g : Merge σ) (s : Store σ) : List (Episode σ) := s.listEpisodic g.backend g.spaceId g.now

/-- The first leader, other than the record itself, whose score with it reaches the threshold;
a leader is a record that no leader before it scores so with. -/
def Merge.absorber (g : Merge σ) (s : Store σ) (d : Episode σ) : Option (Episode σ) :=
  Absorb.absorber Episode.id g.near (g.listed s) d

def Merge.Secure (g : Merge σ) (s : Store σ) (id : MemoryId) : Prop :=
  ∀ d ∈ g.listed s, d.id = id → ∀ k, g.absorber s d = some k → g.absorber s k = none

def Store.evidence (s : Store σ) (spaceId : SpaceId) (note : NoteId) : Prop :=
  ∃ id, s.episode spaceId id ∧ s.cites id note

/-- What a run has merged, by the absorbers of the records. -/
structure Outcome (g : Merge σ) (s : Store σ) (acc : Merged σ) : Prop where
  carried : Carried s acc
  merged : ∀ k d, (k,d) ∈ acc.1.merged ↔ d ∈ g.listed s ∧ g.absorber s d = some k
  consumed : ∀ d ∈ g.listed s, d.id ∈ acc.1.consumed ↔ (g.absorber s d).isSome
  listed : ∀ id ∈ acc.1.consumed, ∃ d ∈ g.listed s, d.id = id

theorem merge_outcome {s : Store σ} {acc : Merged σ} (ok : g.mergeDuplicateEpisodic lib s = .ok acc) : Outcome g s acc := by
  have start : Carried s ({},s) := ⟨by simp,by simp,by simp⟩
  obtain ⟨carried,same⟩ := mergeEach_carried start (fun e listed => by
    obtain ⟨m,member,same,_⟩ := (mem_listEpisodic listed).1
    exact ⟨m,member,same⟩) ok
  have distinct : ((g.listed s).map Episode.id).Nodup := listEpisodic_nodup
  refine ⟨carried,?_,?_,?_⟩
  all_goals rw [same]
  · exact fun k d => merged_iff distinct
  · exact fun d listed => consumed_iff distinct listed
  · exact fun id taken => consumed_subset taken

theorem mem_listed_of_absorber {s : Store σ} {d k : Episode σ} (absorbed : g.absorber s d = some k) : k ∈ g.listed s :=
  leaders_subset (List.mem_of_find?_eq_some absorbed)

theorem Outcome.free {s : Store σ} {acc : Merged σ} (outcome : Outcome g s acc) {d : Episode σ} (listed : d ∈ g.listed s)
    (left : d.id ∉ acc.1.consumed) : g.absorber s d = none := by
  rw [outcome.consumed d listed] at left
  exact Option.not_isSome_iff_eq_none.mp left

theorem Outcome.secure {s : Store σ} {acc : Merged σ} (outcome : Outcome g s acc) {note : NoteId}
    (after : acc.2.evidence g.spaceId note) : ∃ id, s.episode g.spaceId id ∧ s.cites id note ∧ g.Secure s id := by
  have distinct : ((g.listed s).map Episode.id).Nodup := listEpisodic_nodup
  obtain ⟨id,active,cites⟩ := after
  obtain ⟨was,left⟩ := (outcome.carried.episode g.spaceId id).mp active
  rcases (outcome.carried.cites id note).mp cites with own | ⟨k,d,taken,rfl,given⟩
  · refine ⟨id,was,own,?_⟩
    rintro d listed rfl k absorbed
    rw [outcome.free listed left] at absorbed
    cases absorbed
  · obtain ⟨listed,absorbed⟩ := (outcome.merged k d).mp taken
    obtain ⟨wasToo,notes⟩ := mem_listEpisodic listed
    refine ⟨d.id,wasToo,noteIds_cites.mp (notes ▸ given),?_⟩
    intro e listed' same k' absorbed'
    rw [List.inj_on_of_nodup_map distinct listed' listed same,absorbed] at absorbed'
    cases absorbed'
    exact outcome.free (mem_listed_of_absorber absorbed) left

theorem Outcome.evidence {s : Store σ} {acc : Merged σ} (outcome : Outcome g s acc) {note : NoteId} {id : MemoryId}
    (was : s.episode g.spaceId id) (own : s.cites id note) (safe : g.Secure s id) : acc.2.evidence g.spaceId note := by
  by_cases left : id ∈ acc.1.consumed
  · obtain ⟨d,listed,rfl⟩ := outcome.listed id left
    obtain ⟨k,absorbed⟩ := Option.isSome_iff_exists.mp ((outcome.consumed d listed).mp left)
    have known := mem_listed_of_absorber absorbed
    have stays : k.id ∉ acc.1.consumed := by
      rw [outcome.consumed k known,safe d listed rfl k absorbed]
      simp
    refine ⟨k.id,(outcome.carried.episode _ _).mpr ⟨(mem_listEpisodic known).1,stays⟩,?_⟩
    refine (outcome.carried.cites _ _).mpr (.inr ⟨k,d,(outcome.merged k d).mpr ⟨listed,absorbed⟩,rfl,?_⟩)
    rw [(mem_listEpisodic listed).2]
    exact noteIds_cites.mpr own
  · exact ⟨id,(outcome.carried.episode _ _).mpr ⟨was,left⟩,(outcome.carried.cites _ _).mpr (.inl own)⟩

/-- No evidence is lost exactly when every note has a memory that is not taken by a
record which is taken in its turn. -/
theorem merge_keeps_evidence_iff {s : Store σ} {acc : Merged σ} (ok : g.mergeDuplicateEpisodic lib s = .ok acc) :
    (∀ note, s.evidence g.spaceId note → acc.2.evidence g.spaceId note) ↔
      ∀ note, s.evidence g.spaceId note → ∃ id, s.episode g.spaceId id ∧ s.cites id note ∧ g.Secure s id := by
  constructor
  · exact fun kept note before => (merge_outcome ok).secure (kept note before)
  · intro secure note before
    obtain ⟨id,was,own,safe⟩ := secure note before
    exact (merge_outcome ok).evidence was own safe

/-- Where the scores pass the threshold both ways or not at all, no evidence is lost. -/
theorem merge_keeps_evidence_of_mutual {s : Store σ} {acc : Merged σ} (mutual_ : ∀ d e, g.near d e = g.near e d)
    (ok : g.mergeDuplicateEpisodic lib s = .ok acc) {note : NoteId} (before : s.evidence g.spaceId note) :
    acc.2.evidence g.spaceId note := by
  obtain ⟨id,active,cites⟩ := before
  exact (merge_outcome ok).evidence active cites (fun d _ _ k absorbed => absorber_of_absorber mutual_ absorbed)

def episodeRow (id : MemoryId) (updatedAt : Time) : Memory Unit where
  id
  spaceId := 0
  memoryType := .episodic
  content := "episode"
  importance := 1
  confidence := 1
  status := .active
  memoryKey := none
  scope := ()
  updatedAt

def threeEpisodes : Store Unit := { Store.empty Unit with
  memories := ⟨[episodeRow 1 3,episodeRow 2 2,episodeRow 3 1],by decide⟩
  sources := ⟨[⟨1,11,.createdFrom⟩,⟨2,12,.createdFrom⟩,⟨3,13,.createdFrom⟩],by decide⟩ }

theorem threeEpisodes_listed : threeEpisodes.listEpisodic .local 0 4 =
    [⟨episodeRow 1 3,[11]⟩,⟨episodeRow 2 2,[12]⟩,⟨episodeRow 3 1,[13]⟩] := by
  have found : threeEpisodes.memories.rows.filter (fun m => m.spaceId = 0 && m.status = .active &&
      m.memoryType = .episodic && m.validUntil.all ((4 : Time) < ·)) = [episodeRow 1 3,episodeRow 2 2,episodeRow 3 1] := by
    decide +kernel
  have sorted : [episodeRow 1 3,episodeRow 2 2,episodeRow 3 1].mergeSort (fun m n => n.updatedAt ≤ m.updatedAt) =
      [episodeRow 1 3,episodeRow 2 2,episodeRow 3 1] := List.mergeSort_of_pairwise (by decide +kernel)
  simp only [Store.listEpisodic,Backend.newestFirst,found,sorted]
  rfl

/-- A run in which the pairs given score high. -/
def mergeBy (pairs : List (MemoryId × MemoryId)) : Merge Unit where
  backend := .local
  spaceId := 0
  scoreMemory k d := if (k.id,d.id) ∈ pairs then 1 else 0
  now := 4

/-- The first episode takes the second with its note, and is then taken by the third without it. -/
theorem merge_loses_note : ∃ acc, (mergeBy [(1,2),(3,1)]).mergeDuplicateEpisodic (.plain Unit) threeEpisodes = .ok acc ∧
    threeEpisodes.evidence 0 12 ∧ ¬acc.2.evidence 0 12 := by
  have result : ((mergeBy [(1,2),(3,1)]).mergeDuplicateEpisodic (.plain Unit) threeEpisodes).toOption.map
      (fun acc => (acc.2.memories.rows.map (fun m => (m.id,m.status)),acc.2.sources.rows.map (fun r => (r.memoryId,r.noteId)))) =
      some ([(1,.superseded),(2,.superseded),(3,.active)],[(1,11),(2,12),(3,13),(1,12),(3,11)]) := by
    unfold Merge.mergeDuplicateEpisodic
    simp only [mergeBy,threeEpisodes_listed]
    decide +kernel
  obtain ⟨acc,ran,same⟩ := Option.map_eq_some_iff.mp result
  obtain ⟨statuses,notes⟩ := Prod.mk.inj same
  refine ⟨acc,Checked.ok_of_toOption ran,⟨2,?_,?_⟩,?_⟩
  · exact ⟨episodeRow 2 2,by simp [threeEpisodes,Table.mem_def],rfl,rfl,rfl,rfl⟩
  · exact ⟨⟨2,12,.createdFrom⟩,by simp [threeEpisodes,Table.mem_def],rfl,rfl⟩
  · rintro ⟨id,⟨m,member,rfl,_,_,active⟩,r,source,of,note⟩
    have status : (m.id,m.status) ∈ acc.2.memories.rows.map (fun m => (m.id,m.status)) := List.mem_map_of_mem member
    have cited : (r.memoryId,r.noteId) ∈ acc.2.sources.rows.map (fun r => (r.memoryId,r.noteId)) := List.mem_map_of_mem source
    rw [statuses,active] at status
    rw [notes,of,note] at cited
    simp only [List.mem_cons,Prod.mk.injEq,List.not_mem_nil,or_false] at status cited
    rcases status with ⟨_,other⟩ | ⟨_,other⟩ | ⟨here,_⟩
    · cases other
    · cases other
    · rw [here] at cited
      revert cited
      decide

theorem merge_keeps_evidence_shared :
    ∃ acc, (mergeBy [(1,2),(3,2)]).mergeDuplicateEpisodic (.plain Unit) threeEpisodes = .ok acc ∧
      ((∀ note, threeEpisodes.evidence 0 note → acc.2.evidence 0 note) ↔ ∀ note, threeEpisodes.evidence 0 note →
        ∃ id, threeEpisodes.episode 0 id ∧ threeEpisodes.cites id note ∧ (mergeBy [(1,2),(3,2)]).Secure threeEpisodes id) := by
  have ran : ((mergeBy [(1,2),(3,2)]).mergeDuplicateEpisodic (.plain Unit) threeEpisodes).toOption.isSome := by
    unfold Merge.mergeDuplicateEpisodic
    simp only [mergeBy,threeEpisodes_listed]
    decide +kernel
  have ok := Checked.ok_of_isSome ({},threeEpisodes) ran
  exact ⟨_,ok,merge_keeps_evidence_iff (g := mergeBy [(1,2),(3,2)]) ok⟩

end Suixinji.Memories
