import Suixinji.Memories.Forgotten
import Suixinji.Ask.Lookups

/-! Which of the reads behind a question still quote a memory that was forgotten. -/
namespace Suixinji.Ask
open Relational Transition
open Memories (Memory Store MemoryId Command Version)

variable {σ : Type}

/-- A question, with the units of its plan and the route of its history. -/
structure Question where
  units : List QueryUnit
  asked : Option Nat
  text : String
  routed : Bool
  maxSteps : Nat

namespace Reader

variable (r : Reader σ) (s : Store σ)

/-- A record of a unit, by its tool or by the repair, or of the history evidence is made
of the memory's row or of one of its versions. -/
def Quoted (q : Question) (m : MemoryId) : Prop :=
  (∃ unit ∈ q.units, ∃ f ∈ (r.executeDomainTool s q.asked unit).2 ++ r.repairRecords s unit, f.origin.Of m) ∨
    ∃ f ∈ r.historyEvidence s q.text q.routed q.maxSteps, f.origin.Of m

/-- Of a list of rows that stops at so many records: the row of the memory has none, or the
rows before it are enough. -/
def Beyond (n : Nat) (rows : List (Memory σ)) (records : Memory σ → List Found) (m : MemoryId) : Prop :=
  ∀ before row after, rows = before ++ row::after → row.id = m → records row = [] ∨ n ≤ (before.flatMap records).length

/-- No query locates the memory for a timeline that would show it, and where a fallback
takes the place of what was not found it has enough before it comes to the memory. -/
structure Hidden (q : Question) (m : MemoryId) : Prop where
  timeline : ∀ unit ∈ q.units, unit.intent = .memoryHistory → ∀ query ∈ timelineQueries unit, ∀ row ∈ r.located s query 10,
    row.id = m → r.shown s row = []
  fallback : ∀ unit ∈ q.units, unit.intent = .semanticCurrent → r.currentSemantic s unit = [] →
    Beyond 8 (r.inactiveSemantic s unit) (r.fallbackVersions s) m
  stale : r.currentEvidence s q.text (evidenceLimit q.maxSteps) = [] →
    (q.routed → r.memoryHistory s q.text (evidenceLimit q.maxSteps) = []) →
    Beyond (max 1 (min (evidenceLimit q.maxSteps) 20)) (r.staleMemories s q.text (evidenceLimit q.maxSteps)) (r.staleRows s) m

end Reader

variable {r : Reader σ} {s : Store σ} {m : MemoryId} {f : Found} {unit : QueryUnit}

@[simp] theorem of_rowRecord {row : Memory σ} : (r.rowRecord row).origin.Of m ↔ row.id = m := Iff.rfl

@[simp] theorem of_versionRecord {row : Memory σ} {v : Version × Nat} : (r.versionRecord row v).origin.Of m ↔ row.id = m := Iff.rfl

theorem of_map_versionRecord {row : Memory σ} {versions : List (Version × Nat)} (member : f ∈ versions.map (r.versionRecord row)) :
    f.origin.Of m ↔ row.id = m := by
  obtain ⟨v,_,rfl⟩ := List.mem_map.mp member
  exact of_versionRecord

theorem of_shown {row : Memory σ} (member : f ∈ r.shown s row) : f.origin.Of m ↔ row.id = m := by
  unfold Reader.shown at member
  split at member
  · cases member
  · split at member
    · exact of_map_versionRecord member
    · cases member

theorem of_staleRows {row : Memory σ} (member : f ∈ r.staleRows s row) : f.origin.Of m ↔ row.id = m := by
  unfold Reader.staleRows at member
  split at member
  · obtain rfl := List.mem_singleton.mp member
    exact of_rowRecord
  · exact of_map_versionRecord member

theorem mem_rowsWhere {p : Memory σ → Bool} {limit : Nat} {row : Memory σ} (member : row ∈ r.rowsWhere s p limit) :
    row ∈ s.memories ∧ row.spaceId = r.spaceId ∧ p row := by
  have kept := (List.perm_insertionSort _ _).mem_iff.mp (List.mem_of_mem_take member)
  obtain ⟨inside,meets⟩ := List.mem_filter.mp kept
  simp only [Bool.and_eq_true,decide_eq_true_eq] at meets
  exact ⟨inside,meets⟩

theorem mem_rowOf {id : MemoryId} {row : Memory σ} (member : row ∈ r.rowOf s id) : row.id = id := by
  simpa using (mem_rowsWhere member).2.2

theorem of_fallbackVersions {row : Memory σ} (member : f ∈ r.fallbackVersions s row) : f.origin.Of m ↔ row.id = m := by
  obtain ⟨_,_,member⟩ := List.mem_flatMap.mp member
  exact of_map_versionRecord member

theorem beyond_iff {n : Nat} {rows : List (Memory σ)} {records : Memory σ → List Found}
    (same : ∀ row, ∀ f ∈ records row, f.origin.Of m ↔ row.id = m) :
    Reader.Beyond n rows records m ↔ ¬∃ f ∈ (rows.flatMap records).take n, f.origin.Of m := by
  rw [Ranking.exists_take_flatMap same]
  constructor
  · rintro beyond ⟨before,row,after,split,here,some_one,room⟩
    rcases beyond before row after split here with none | enough
    · exact some_one none
    · omega
  · intro hidden before row after split here
    by_contra visible
    rw [not_or,Nat.not_le] at visible
    exact hidden ⟨before,row,after,split,here,visible.1,visible.2⟩

def Free (m : MemoryId) (items : List Found) : Prop := ∀ f ∈ items, ¬f.origin.Of m

theorem keep_subset (stage : Stage) (items : List Found) : r.keep stage items ⊆ items := by
  intro f member
  obtain ⟨place,_,there⟩ := List.mem_filterMap.mp member
  exact List.mem_of_getElem? there

theorem Free.keep {items : List Found} (free : Free m items) (stage : Stage) : Free m (r.keep stage items) :=
  fun f member => free f (keep_subset stage items member)

theorem Free.filter {items : List Found} (free : Free m items) (p : Found → Bool) : Free m (items.filter p) :=
  fun f member => free f (List.mem_of_mem_filter member)

theorem Free.append {items more : List Found} (free : Free m items) (also : Free m more) : Free m (items ++ more) :=
  fun f member => (List.mem_append.mp member).elim (free f) (also f)

theorem Free.flatMap {α : Type} {items : List α} {g : α → List Found} (each : ∀ a ∈ items, Free m (g a)) : Free m (items.flatMap g) := by
  intro f member
  obtain ⟨a,inside,member⟩ := List.mem_flatMap.mp member
  exact each a inside f member

theorem Free.rows {rows : List (Memory σ)} (others : ∀ row ∈ rows, row.id ≠ m) : Free m (rows.map r.rowRecord) := by
  intro f member
  obtain ⟨row,inside,rfl⟩ := List.mem_map.mp member
  exact others row inside

theorem free_noteFallback (query : String) : Free m (r.noteFallback query) := by
  intro f member
  obtain ⟨_,_,rfl⟩ := List.mem_map.mp member
  exact id

section
variable (deleted : s.deleted m)
include deleted

theorem other_of_status {row : Memory σ} (member : row ∈ s.memories) (status : row.status ≠ .deleted) : row.id ≠ m := by
  rintro rfl
  exact status (deleted row (Table.find?_mem member))

theorem free_memorySearch (query : String) (kind : Option Memories.MemoryType) (limit : Nat) : Free m (r.memorySearch s query kind limit) := by
  refine Free.keep (Free.append (Free.rows (fun row member => ?_)) (fun f member => ?_)) _
  · obtain ⟨inside,meets⟩ := List.mem_filter.mp member
    simp only [Bool.and_eq_true,decide_eq_true_eq] at meets
    exact other_of_status deleted inside (by rw [meets.1.1.2]; decide)
  · obtain ⟨_,_,rfl⟩ := List.mem_map.mp member
    exact id

theorem free_searchAll (kind : Memories.MemoryType) (limit merged : Nat) : Free m (r.searchAll s unit kind limit merged) :=
  Free.keep (Free.flatMap (fun query _ => free_memorySearch deleted query _ _)) _

theorem other_of_active {kind : Option Memories.MemoryType} {limit : Nat} {row : Memory σ}
    (member : row ∈ r.listMemories s (some .active) kind limit) : row.id ≠ m := by
  obtain ⟨inside,_,meets⟩ := mem_rowsWhere member
  simp only [Option.all_some,Bool.and_eq_true,decide_eq_true_eq] at meets
  exact other_of_status deleted inside (by rw [meets.1.1]; decide)

theorem free_currentSemantic : Free m (r.currentSemantic s unit) := by
  refine Free.filter (Free.append (Free.rows (fun row member => ?_)) ?_) _
  · exact other_of_active deleted (List.mem_of_mem_filter member)
  · exact (Free.filter (free_searchAll deleted _ _ _) _).keep _

theorem free_pending : Free m (r.pendingPreferenceRecords s unit) := by
  refine Free.rows (fun row member => ?_)
  obtain ⟨kept,waits⟩ := List.mem_filter.mp member
  obtain ⟨inside,_⟩ := mem_rowsWhere (List.mem_of_mem_filter kept)
  refine other_of_status deleted inside ?_
  simp only [Bool.or_eq_true,decide_eq_true_eq] at waits
  rcases waits with waits | waits <;> rw [waits] <;> decide

theorem free_inventory (limit : Nat) : Free m (r.taskInventoryRecords s limit) := by
  intro f member
  have rows : Free m (((r.listMemories s (some .active) (some .task) (max (limit * 3) 12)).filter
      (fun row => r.itemAllowed row && r.supports s row)).map r.rowRecord) :=
    Free.rows (fun row member => other_of_active deleted (List.mem_of_mem_filter member))
  exact rows f (List.mem_of_mem_take member)

theorem free_repair : Free m (r.repairRecords s unit) := by
  refine Free.filter ?_ _
  split
  · exact free_memorySearch deleted _ _ _
  · exact free_noteFallback _

theorem free_memoryHistory (question : String) (limit : Int) : Free m (r.memoryHistory s question limit) := by
  have hits := (free_memorySearch (r := r) deleted question none limit.toNat).keep (r := r) (.history question)
  have rows : Free m ((r.keep (.history question) (r.memorySearch s question none limit.toNat)).flatMap (r.historyOf s)) := by
    refine Free.flatMap (fun found member => ?_)
    have free := hits found member
    unfold Reader.historyOf
    split
    · rename_i id origin
      refine Free.flatMap (fun row inside => ?_)
      intro f member
      rw [of_map_versionRecord member,mem_rowOf (List.mem_of_mem_filter inside)]
      rwa [origin] at free
    · exact fun f member => absurd member List.not_mem_nil
  unfold Reader.memoryHistory
  dsimp only
  split
  · exact rows
  · exact fun f member => (hits.filter _).append rows f (firstOf_subset limit _ member)

end

theorem exists_unseen {P : Origin → Prop} (items : List Found) (seen : List Origin) :
    (∃ f ∈ Reader.unseen items seen, P f.origin) ↔ ∃ f ∈ items, f.origin ∉ seen ∧ P f.origin := by
  induction items generalizing seen with
  | nil => simp [Reader.unseen]
  | cons g rest ih =>
    unfold Reader.unseen
    split
    · rename_i known
      rw [ih]
      constructor
      · rintro ⟨f,member,rest⟩
        exact ⟨f,List.mem_cons_of_mem _ member,rest⟩
      · rintro ⟨f,member,new,here⟩
        rcases List.mem_cons.mp member with rfl | member
        · exact absurd known new
        · exact ⟨f,member,new,here⟩
    · rename_i new
      constructor
      · rintro ⟨f,member,here⟩
        rcases List.mem_cons.mp member with rfl | member
        · exact ⟨f,List.mem_cons_self,new,here⟩
        · obtain ⟨f,member,unknown,here⟩ := (ih _).mp ⟨f,member,here⟩
          exact ⟨f,List.mem_cons_of_mem _ member,fun known => unknown (List.mem_cons_of_mem _ known),here⟩
      · rintro ⟨f,member,unknown,here⟩
        by_cases same : f.origin = g.origin
        · exact ⟨g,List.mem_cons_self,same ▸ here⟩
        · rcases List.mem_cons.mp member with rfl | member
          · exact absurd rfl same
          · obtain ⟨f,member,here⟩ := (ih (g.origin::seen)).mpr ⟨f,member,by simp [same,unknown],here⟩
            exact ⟨f,List.mem_cons_of_mem _ member,here⟩

section
variable (deleted : s.deleted m)
include deleted

theorem timeline_quotes : (∃ f ∈ r.timelineVersionRecords s unit, f.origin.Of m) ↔
    ∃ query ∈ Reader.timelineQueries unit, ∃ row ∈ r.located s query 10, row.id = m ∧ r.shown s row ≠ [] := by
  unfold Reader.timelineVersionRecords
  rw [exists_unseen]
  constructor
  · rintro ⟨f,member,_,here⟩
    rcases List.mem_append.mp member with direct | more
    · obtain ⟨query,listed,member⟩ := List.mem_flatMap.mp direct
      obtain ⟨row,there,member⟩ := List.mem_flatMap.mp member
      exact ⟨query,listed,row,there,(of_shown member).mp here,List.ne_nil_of_mem member⟩
    · -- the candidates are what a search has found, and the memory is none of them
      obtain ⟨id,candidate,member⟩ := List.mem_flatMap.mp more
      obtain ⟨row,there,member⟩ := List.mem_flatMap.mp member
      obtain ⟨found,inside,origin⟩ := List.mem_filterMap.mp (List.mem_eraseDups.mp candidate)
      have free := Free.flatMap (fun query _ => free_memorySearch (r := r) deleted query none 6) found inside
      split at origin
      · rename_i named
        cases origin
        rw [named] at free
        exact absurd ((mem_rowOf there).symm.trans ((of_shown member).mp here)) free
      · cases origin
  · rintro ⟨query,listed,row,there,here,some_one⟩
    obtain ⟨f,member⟩ := List.exists_mem_of_ne_nil _ some_one
    exact ⟨f,List.mem_append_left _ (List.mem_flatMap.mpr ⟨query,listed,List.mem_flatMap.mpr ⟨row,there,member⟩⟩),
      List.not_mem_nil,(of_shown member).mpr here⟩

/-- Of the eight intents two can quote the memory: the timeline and, where no current
memory is found, the history that stands in for it. -/
theorem tool_quotes (asked : Option Nat) : (∃ f ∈ (r.executeDomainTool s asked unit).2, f.origin.Of m) ↔
    (unit.intent = .memoryHistory ∧ ∃ query ∈ Reader.timelineQueries unit, ∃ row ∈ r.located s query 10, row.id = m ∧ r.shown s row ≠ []) ∨
      unit.intent = .semanticCurrent ∧ r.currentSemantic s unit = [] ∧
        ¬Reader.Beyond 8 (r.inactiveSemantic s unit) (r.fallbackVersions s) m := by
  have none {items : List Found} (free : Free m items) : ¬∃ f ∈ items, f.origin.Of m := fun ⟨f,member,here⟩ => free f member here
  unfold Reader.executeDomainTool
  cases intent : unit.intent with
  | taskInventory => simpa using none (free_inventory deleted _)
  | taskState =>
    have each (query : String) : Free m (r.keep (.taskStatus query 8)
        (r.memorySearch s query (some .task) 24 ++ r.memorySearch s query (some .episodic) 16)) :=
      (Free.append (free_memorySearch deleted _ _ _) (free_memorySearch deleted _ _ _)).keep _
    simpa using none (((Free.flatMap (fun query _ => each query)).keep (r := r) (.merge 8)).keep (r := r) .rerank)
  | preferenceCurrent =>
    have current : Free m (r.searchAll s unit .preference 6 12) := free_searchAll deleted _ _ _
    simpa using none ((((current.filter (r.isRelevant unit)).append (free_pending deleted)).keep (r := r) (.merge 6)).keep (r := r) .rerank)
  | semanticCurrent =>
    by_cases found : r.currentSemantic s unit = []
    · rw [beyond_iff (fun row f member => of_fallbackVersions member)]
      simp [found,Reader.semanticHistoryFallbackRecords]
    · have current : Free m (r.currentSemantic s unit) := free_currentSemantic deleted
      simpa [found] using none current
  | semanticHistory =>
    have ranked : Free m (r.searchAll s unit .semantic 10 12) := free_searchAll deleted _ _ _
    simpa using none ((ranked.filter (r.isRelevant unit)).keep (r := r) .rerank)
  | episodicHistory =>
    have ranked : Free m (r.searchAll s unit .episodic 10 10) := free_searchAll deleted _ _ _
    simpa using none (ranked.keep (r := r) .rerank)
  | memoryHistory => simpa using timeline_quotes deleted
  | noteLookup =>
    simpa using none (((Free.flatMap (fun query _ => free_noteFallback (r := r) query)).keep (r := r) (.merge 50)).keep (r := r) .rerank)

theorem history_quotes (question : String) (routed : Bool) (maxSteps : Nat) :
    (∃ f ∈ r.historyEvidence s question routed maxSteps, f.origin.Of m) ↔
      r.currentEvidence s question (Reader.evidenceLimit maxSteps) = [] ∧ (routed → r.memoryHistory s question (Reader.evidenceLimit maxSteps) = []) ∧
        ¬Reader.Beyond (max 1 (min (Reader.evidenceLimit maxSteps) 20)) (r.staleMemories s question (Reader.evidenceLimit maxSteps)) (r.staleRows s) m := by
  rw [beyond_iff (fun row f member => of_staleRows member),not_not]
  have free : Free m (if routed then r.memoryHistory s question (Reader.evidenceLimit maxSteps) else []) := by
    split
    · exact free_memoryHistory deleted _ _
    · exact fun f member => absurd member List.not_mem_nil
  have empty : (if routed then r.memoryHistory s question (Reader.evidenceLimit maxSteps) else []) = [] ↔
      (routed → r.memoryHistory s question (Reader.evidenceLimit maxSteps) = []) := by cases routed <;> simp
  unfold Reader.historyEvidence
  rw [← empty]
  dsimp only
  generalize (if routed then r.memoryHistory s question (Reader.evidenceLimit maxSteps) else []) = history at free ⊢
  cases history with
  | nil =>
    cases current : r.currentEvidence s question (Reader.evidenceLimit maxSteps) with
    | cons => simp
    | nil =>
      have listed : r.staleHistoryFallback s question (Reader.evidenceLimit maxSteps) =
        ((r.staleMemories s question (Reader.evidenceLimit maxSteps)).flatMap (r.staleRows s)).take
          (max 1 (min (Reader.evidenceLimit maxSteps) 20)) := rfl
      rw [← listed]
      cases r.staleHistoryFallback s question (Reader.evidenceLimit maxSteps) <;> simp
  | cons f history =>
    refine iff_of_false ?_ (fun both => by cases both.2.1)
    rintro ⟨g,member,here⟩
    exact free g (by simpa using member) here

end

theorem unquoted_iff (deleted : s.deleted m) (q : Question) : ¬r.Quoted s q m ↔ r.Hidden s q m := by
  constructor
  · intro unquoted
    have units (unit : QueryUnit) (listed : unit ∈ q.units) : ¬∃ f ∈ (r.executeDomainTool s q.asked unit).2, f.origin.Of m :=
      fun ⟨f,member,here⟩ => unquoted (.inl ⟨unit,listed,f,List.mem_append_left _ member,here⟩)
    refine ⟨?_,?_,?_⟩
    · intro unit listed intent query asked row there here
      by_contra shows
      exact units unit listed ((tool_quotes deleted q.asked).mpr (.inl ⟨intent,query,asked,row,there,here,shows⟩))
    · intro unit listed intent missing
      by_contra shown
      exact units unit listed ((tool_quotes deleted q.asked).mpr (.inr ⟨intent,missing,shown⟩))
    · intro current history
      by_contra shown
      exact unquoted (.inr ((history_quotes deleted q.text q.routed q.maxSteps).mpr ⟨current,history,shown⟩))
  · rintro hidden (⟨unit,listed,f,member,here⟩ | quoted)
    · rcases List.mem_append.mp member with tool | repair
      · rcases (tool_quotes deleted q.asked).mp ⟨f,tool,here⟩ with ⟨intent,query,asked,row,there,same,shows⟩ | ⟨intent,missing,shown⟩
        · exact shows (hidden.timeline unit listed intent query asked row there same)
        · exact shown (hidden.fallback unit listed intent missing)
      · exact free_repair deleted f repair here
    · obtain ⟨current,history,shown⟩ := (history_quotes deleted q.text q.routed q.maxSteps).mp quoted
      exact shown (hidden.stale current history)

theorem evidence_unquoted {lib : Library} {bundle : UnitEvidenceBundle} {q : Question} (unquoted : ¬r.Quoted s q m) (listed : unit ∈ q.units)
    (ran : lib.resolve unit (r.executeDomainTool s q.asked unit).1 ((r.executeDomainTool s q.asked unit).2.map (·.item)) = .ok bundle) :
    ∀ e ∈ bundle.evidence, ∃ f ∈ (r.executeDomainTool s q.asked unit).2, ¬f.origin.Of m ∧
      ∃ memoryType role, e = evidenceOf f.item memoryType (r.executeDomainTool s q.asked unit).1 role := by
  intro e member
  obtain ⟨item,inside,made⟩ := resolve_evidence ran e member
  obtain ⟨f,found,rfl⟩ := List.mem_map.mp inside
  exact ⟨f,found,fun here => unquoted (.inl ⟨unit,listed,f,List.mem_append_left _ found,here⟩),made⟩

/-- After a memory was forgotten and as long as the commands leave it so: whoever asks
whatever question, the memory is not quoted just where it is hidden. -/
theorem forgotten_unquoted {lib : Memories.Library σ} {t u : Store σ} {cs : List (Command σ)} {now : Memories.Time}
    (forgets : Memories.Step lib t (.softDelete m now) u)
    (run : Run (Guarded (fun s c => c.leaves m s) (Memories.Step lib)) u cs s) (r : Reader σ) (q : Question) :
    ¬r.Quoted s q m ↔ r.Hidden s q m :=
  unquoted_iff (Memories.run_deleted forgets run) q

/-- Texts as they stand, the active memories in the order of the table, and no other source. -/
def Reader.simple : Reader σ where
  spaceId := 0
  now := 0
  allowed := fun _ => true
  exportable := fun _ => true
  relevant := fun _ _ => true
  overlap := fun question m => if question = m.content then 1 else 0
  idText := fun _ => ⟨"m",by decide⟩
  versionText := fun _ _ => ⟨"v",by decide⟩
  topic := fun _ => none
  closedCard := fun _ => false
  contradicts := fun _ => false
  migrated := fun _ => false
  normalize := id
  ilike := fun _ _ => false
  terms := fun _ => []
  profiled := fun _ => []
  places := fun _ items => List.range items.length
  facts := fun _ _ => []
  notes := fun _ => []
  recordRelevant := fun _ _ => true

def teaRemembered : Store Unit := (Store.empty Unit).after (.plain Unit) [.insert 1 0 Memories.teaMemory 1 .active 0]

def teaForgotten : Store Unit := teaRemembered.after (.plain Unit) [.softDelete 1 1]

theorem tea_forgets : Memories.Step (.plain Unit) teaRemembered (.softDelete 1 1) teaForgotten := by
  have run : Run (Memories.Step (.plain Unit)) teaRemembered [.softDelete 1 1] teaForgotten :=
    Memories.run_after _ _ _ (by decide +kernel)
  cases run with
  | cons head tail =>
    cases tail
    exact head

def teaHistory : Question where
  units := [{ fallbackUnit "tea" with intent := .memoryHistory }]
  asked := none
  text := "coffee"
  routed := false
  maxSteps := 4

/-- The timeline answers with the version of the forgotten tea. -/
theorem forgotten_tea_quoted : Run (Memories.Step (.plain Unit)) (.empty Unit)
      [.insert 1 0 Memories.teaMemory 1 .active 0,.softDelete 1 1] teaForgotten ∧
    teaForgotten.deleted 1 ∧ Reader.simple.Quoted teaForgotten teaHistory 1 ∧
    ((Reader.simple.executeDomainTool teaForgotten none { fallbackUnit "tea" with intent := .memoryHistory }).2.map
      (·.item.content)) = ["tea","tea"] := by
  refine ⟨?_,Memories.softDelete_deleted tea_forgets,?_,by decide +kernel⟩
  · exact Run.append (Memories.run_after _ _ _ (by decide +kernel)) (.single tea_forgets)
  · rw [← not_not (a := Reader.Quoted _ _ _ _),unquoted_iff (Memories.softDelete_deleted tea_forgets)]
    intro hidden
    have none := hidden.timeline _ List.mem_cons_self rfl "tea" (by decide +kernel)
    revert none
    decide +kernel

def teaTasks : Question := { teaHistory with units := [{ fallbackUnit "tea" with intent := .taskState }] }

/-- Asked for a task, nothing is quoted. -/
theorem forgotten_unquoted_tasks : ¬Reader.simple.Quoted teaForgotten teaTasks 1 :=
  (forgotten_unquoted tea_forgets (.nil _) .simple teaTasks).mpr {
    timeline := by decide
    fallback := by
      intro unit listed intent
      obtain rfl := List.mem_singleton.mp listed
      cases intent
    stale := by
      intro _ _ before row after split
      have none : Reader.simple.staleMemories teaForgotten "coffee" (Reader.evidenceLimit 4) = [] := by decide +kernel
      exact absurd (none.symm.trans split) (by simp) }

end Suixinji.Ask
