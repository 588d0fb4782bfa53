import Suixinji.Ask.Quoted
import Suixinji.Ask.Tools
import Suixinji.Ask.Complete

/-! The access rule over the tools of a question: each of them reads by it but
`list_recent_episodes`, which has a rule of its own. -/
namespace Suixinji.Ask
open Checked Relational
open Memories (Memory Store MemoryId MemoryType)
open Facts (Scope Supplied)

/-- The rows of which a tool or a unit shows the item: active ones, and preferences under review. -/
def Exposed (m : Memory Scope) : Prop :=
  m.status = .active ∨ (m.memoryType = .preference ∧ (m.status = .pendingReview ∨ m.status = .conflicted))

namespace Toolbox

variable (b : Toolbox) (s : Store Scope)

def Permits (f : Found) : Prop := ∀ id, f.origin.Of id → ∃ m ∈ s.memories, m.id = id ∧ m.spaceId = b.r.spaceId ∧ b.allowed m.scope

def CardsScoped : Prop := ∀ m ∈ s.memories, m.spaceId = b.r.spaceId → Exposed m → itemScope m = [] → b.allowed m.scope

/-- The rows that pass the own rule of `list_recent_episodes` and not that of the others
have so many later items before them that they are cut. -/
def EpisodesPlaced (limit : Int) : Prop :=
  ∀ m ∈ b.recentRows s limit, b.passesOwnRule m.scope → ¬b.allowed m.scope →
    ∀ before f after, b.recentItems s limit = before ++ f::after → f.origin = .row m.id → clamp limit 100 ≤ before.length

def Evidenced (asked : Option Nat) (plan : AskPlan) (e : EvidenceItem) (f : Found) : Prop :=
  ∃ unit ∈ plan.units, f ∈ (b.r.executeDomainTool s asked unit).2 ++ b.r.repairRecords s unit ∧
    ∃ memoryType tool role, e = evidenceOf f.item memoryType tool role

/-- What the tools of a question and its evidence are made of is permitted. -/
structure Uniform : Prop where
  tools : ∀ call, ∀ f ∈ b.executeTool s call, b.Permits s f
  evidence : ∀ lib asked plan raises timing budget bundles, b.askEvidence s lib asked plan raises timing budget = .ok bundles →
    ∀ bundle ∈ bundles, ∀ e ∈ bundle.evidence, ∃ f, b.Evidenced s asked plan e f ∧ b.Permits s f

end Toolbox

/-! ### The rule on an item -/

section Scope

variable {key : String} {scope : Scope}

theorem get_filter {name : String} (other : name ≠ key) : Scope.get (scope.filter (·.1 ≠ key)) name = scope.get name := by
  suffices same : List.lookup name (scope.filter (·.1 ≠ key)) = List.lookup name scope from congrArg Option.join same
  induction scope with
  | nil => rfl
  | cons field rest ih =>
    rw [List.filter_cons]
    by_cases dropped : field.1 = key
    · have apart : (name == field.1) = false := by simpa [dropped] using other
      rw [if_neg (by simpa using dropped),ih,List.lookup_cons,apart]
    · rw [if_pos (by simpa using dropped),List.lookup_cons,List.lookup_cons,ih]

/-- A field that the rule does not read decides nothing, as long as another is there. -/
theorem memoryAccessAllowed_filter {lib : Facts.Library} {context : Supplied}
    (unread : key ∉ ["sensitivity","access_scope","scope","owner_id"]) (some_left : scope.filter (·.1 ≠ key) ≠ []) :
    Facts.memoryAccessAllowed lib (scope.filter (·.1 ≠ key)) context = Facts.memoryAccessAllowed lib scope context := by
  have some_field : scope ≠ [] := by
    rintro rfl
    exact some_left rfl
  have read {name : String} (known : name ∈ ["sensitivity","access_scope","scope","owner_id"]) :
      Scope.get (scope.filter (·.1 ≠ key)) name = scope.get name := by
    apply get_filter
    rintro rfl
    exact unread known
  unfold Facts.memoryAccessAllowed Facts.accessDecision
  rw [if_neg some_left,if_neg some_field,read (by simp),read (by simp),read (by simp),read (by simp)]

end Scope

section Reads

variable {b : Toolbox} {s : Store Scope} {f : Found} {row : Memory Scope} {unit : QueryUnit}

theorem allowed_of_item (cards : b.CardsScoped s) (inside : row ∈ s.memories) (here : row.spaceId = b.r.spaceId)
    (exposed : Exposed row) (passes : b.r.itemAllowed row) : b.allowed row.scope := by
  by_cases alone : itemScope row = []
  · exact cards row inside here exposed alone
  change b.allowed (itemScope row) = true at passes
  unfold itemScope at passes alone
  split at passes
  · rw [if_pos ‹_›] at alone
    exact (memoryAccessAllowed_filter (by decide) alone).symm.trans passes
  · rw [if_neg ‹_›] at alone
    split at passes
    · rw [if_pos ‹_›] at alone
      exact (memoryAccessAllowed_filter (by decide) alone).symm.trans passes
    · exact passes

theorem permits_row (inside : row ∈ s.memories) (here : row.spaceId = b.r.spaceId) (allowed : b.allowed row.scope)
    (of : ∀ id, f.origin.Of id ↔ row.id = id) : b.Permits s f :=
  fun id origin => ⟨row,inside,(of id).mp origin,here,allowed⟩

theorem permits_apart (apart : ∀ id, ¬f.origin.Of id) : b.Permits s f := fun id origin => absurd origin (apart id)

theorem permits_noted {items : List Record} (member : f ∈ items.map (⟨.note,·⟩)) : b.Permits s f := by
  obtain ⟨_,_,rfl⟩ := List.mem_map.mp member
  exact permits_apart (fun _ => id)

theorem permits_facts {items : List Record} (member : f ∈ items.map (⟨.fact,·⟩)) : b.Permits s f := by
  obtain ⟨_,_,rfl⟩ := List.mem_map.mp member
  exact permits_apart (fun _ => id)

theorem active_of_listMemories {kind : Option MemoryType} {limit : Nat}
    (member : row ∈ b.r.listMemories s (some .active) kind limit) : Exposed row := by
  have meets := (mem_rowsWhere member).2.2
  simp only [Bool.and_eq_true] at meets
  exact .inl (by simpa using meets.1.1)

theorem mem_listMemories {status : Option Memories.MemoryStatus} {kind : Option MemoryType} {limit : Nat}
    (member : row ∈ b.r.listMemories s status kind limit) : row ∈ s.memories ∧ row.spaceId = b.r.spaceId :=
  ⟨(mem_rowsWhere member).1,(mem_rowsWhere member).2.1⟩

theorem allowed_of_timeline {versions : List (Memories.Version × Nat)} (shows : b.r.timeline s row = some versions) : b.allowed row.scope := by
  unfold Reader.timeline at shows
  split at shows
  · cases shows
  · rename_i passes
    change ¬(!b.allowed row.scope) = true at passes
    simpa using passes

theorem permits_shown (inside : row ∈ s.memories) (here : row.spaceId = b.r.spaceId) (member : f ∈ b.r.shown s row) : b.Permits s f := by
  apply permits_row inside here ?_ (fun _ => of_shown member)
  unfold Reader.shown at member
  split at member
  · cases member
  · exact allowed_of_timeline ‹_›

theorem permits_fallbackVersions (member : f ∈ b.r.fallbackVersions s row) : b.Permits s f := by
  obtain ⟨found,there,member⟩ := List.mem_flatMap.mp member
  have same := mem_rowOf there
  obtain ⟨inside,here,_⟩ := mem_rowsWhere there
  apply permits_row inside here ?_ (fun id => by rw [of_map_versionRecord member,same])
  cases shows : b.r.timeline s found with
  | none =>
    rw [shows] at member
    cases member
  | some versions => exact allowed_of_timeline shows

theorem permits_timelineVersions (member : f ∈ b.r.timelineVersionRecords s unit) : b.Permits s f := by
  obtain ⟨g,there,same⟩ := (exists_unseen (P := (· = f.origin)) _ _).mp ⟨f,member,rfl⟩
  have permitted : b.Permits s g := by
    rcases List.mem_append.mp there with direct | more
    · obtain ⟨_,_,inside⟩ := List.mem_flatMap.mp direct
      obtain ⟨row,located,shown⟩ := List.mem_flatMap.mp inside
      obtain ⟨inside,here,_⟩ := mem_rowsWhere located
      exact permits_shown inside here shown
    · obtain ⟨_,_,inside⟩ := List.mem_flatMap.mp more
      obtain ⟨row,located,shown⟩ := List.mem_flatMap.mp inside
      obtain ⟨inside,here,_⟩ := mem_rowsWhere located
      exact permits_shown inside here shown
  exact fun id origin => permitted id (same.2 ▸ origin)

theorem mergeEvidence_subset (current more : List Found) : mergeEvidence current more ⊆ current ++ more := by
  unfold mergeEvidence
  induction more generalizing current with
  | nil => simp
  | cons g rest ih =>
    rw [List.foldl_cons]
    intro f member
    have inside := ih _ member
    split at inside
    · simpa [or_assoc] using inside
    · rcases List.mem_append.mp inside with old | new
      · exact List.mem_append_left _ old
      · exact List.mem_append_right _ (List.mem_cons_of_mem _ new)

theorem permits_select {view : View} {limit : Nat} {current history : List Found} (now : ∀ f ∈ current, b.Permits s f)
    (then_ : ∀ f ∈ history, b.Permits s f) (member : f ∈ view.select limit current history) : b.Permits s f := by
  cases view with
  | current => exact now f (List.mem_of_mem_take member)
  | history => exact then_ f (List.mem_of_mem_take member)
  | all => exact (List.mem_append.mp (mergeEvidence_subset _ _ (List.mem_of_mem_take member))).elim (now f) (then_ f)

theorem permits_typed {memoryType : Option String} {search : Option MemoryType → List Found}
    (each : ∀ kind, ∀ f ∈ search kind, b.Permits s f) (member : f ∈ Toolbox.typed memoryType search) : b.Permits s f := by
  unfold Toolbox.typed at member
  split at member
  · exact each _ f member
  · cases known : parseMemoryType ‹_› with
    | none =>
      rw [known] at member
      cases member
    | some kind =>
      rw [known] at member
      exact each _ f member

theorem permits_listTasks {status : Option String} {limit : Int} (member : f ∈ b.listTasks s status limit) : b.Permits s f := by
  obtain ⟨row,kept,rfl⟩ := List.mem_map.mp (List.mem_of_mem_filter (keep_subset _ _ member))
  obtain ⟨listed,allowed⟩ := List.mem_filter.mp kept
  obtain ⟨inside,here⟩ := mem_listMemories listed
  exact permits_row inside here allowed (fun _ => of_rowRecord)

/-- What `list_recent_episodes` shows is permitted just where its own rule lets nothing
more through to the first so many. -/
theorem recentEpisodes_iff {limit : Int} : (∀ f ∈ b.listRecentEpisodes s limit, b.Permits s f) ↔ b.EpisodesPlaced s limit := by
  constructor
  · intro permitted m listed _ denied before f after split origin
    by_contra early
    have shown : f ∈ b.listRecentEpisodes s limit := by
      unfold Toolbox.listRecentEpisodes
      rw [split,List.take_append,← Nat.succ_pred_eq_of_pos (Nat.sub_pos_of_lt (Nat.not_le.mp early))]
      exact List.mem_append_right _ List.mem_cons_self
    obtain ⟨other,inside,same,_,allowed⟩ := permitted f shown m.id (by rw [origin]; rfl)
    rw [s.memories.unique inside (mem_listMemories listed).1 same] at allowed
    exact denied allowed
  · intro placed f member
    have item := (Best.ranked_perm _).mem_iff.mp (List.mem_of_mem_take member)
    rcases List.mem_append.mp item with fact | row
    · split at fact
      · exact permits_facts fact
      · cases fact
    · obtain ⟨m,kept,rfl⟩ := List.mem_map.mp row
      obtain ⟨listed,passes⟩ := List.mem_filter.mp kept
      by_cases allowed : b.allowed m.scope
      · exact permits_row (mem_listMemories listed).1 (mem_listMemories listed).2 allowed (fun _ => of_rowRecord)
      · obtain ⟨before,after,split⟩ := List.append_of_mem member
        have whole := List.take_append_drop (clamp limit 100) (b.recentItems s limit)
        change (b.recentItems s limit).take (clamp limit 100) = _ at split
        rw [split,List.append_assoc,List.cons_append] at whole
        have cut := placed m listed passes allowed _ _ _ whole.symm rfl
        have short := congrArg List.length split
        have room := List.length_take_le (clamp limit 100) (b.recentItems s limit)
        rw [short,List.length_append,List.length_cons] at room
        omega

/-! ### Where evidence comes from -/

theorem executed_evidence {lib : Library} {plan : AskPlan} {tools : Nat → Outcome} {timing : Timing} {result : Progress}
    (ran : executeAskPlan lib plan tools timing = .ok result) : ∀ bundle ∈ result.bundles, ∀ e ∈ bundle.evidence,
      ∃ future ∈ plan.units.zipIdx, ∃ item ∈ (tools future.2).result.2, ∃ memoryType role,
        e = evidenceOf item memoryType (tools future.2).result.1 role := by
  obtain ⟨s,ended,same⟩ := bind_ok.mp ran
  cases same
  obtain ⟨run,t,left,inner,bundles⟩ := rounds_bundles (Ran.initial timing) ended
  intro bundle member e inside
  have there := (Ranking.sortBy_perm _ s.bundles).mem_iff.mp member
  rw [bundles] at there
  rcases List.mem_append.mp there with own | unresolved
  · obtain ⟨future,started,rfl⟩ := List.mem_map.mp own
    refine ⟨future,inner.inside started,?_⟩
    unfold bundleOf ownBundle at inside
    split at inside
    · cases resolved : lib.resolve future.1 (tools future.2).result.1 (tools future.2).result.2 with
      | error =>
        rw [resolved] at inside
        cases inside
      | ok bundle =>
        rw [resolved] at inside
        exact resolve_evidence resolved e inside
    · cases inside
  · obtain ⟨_,_,rfl⟩ := List.mem_map.mp unresolved
    cases inside

theorem evidenced {lib : Library} {asked : Option Nat} {plan : AskPlan} {raises : Nat → Option (String × String)} {timing : Timing}
    {budget : Nat} {bundles : List UnitEvidenceBundle} (ran : b.askEvidence s lib asked plan raises timing budget = .ok bundles) :
    ∀ bundle ∈ bundles, ∀ e ∈ bundle.evidence, ∃ f, b.Evidenced s asked plan e f := by
  obtain ⟨result,executed,repaired⟩ := bind_ok.mp ran
  obtain ⟨repair,looped,same⟩ := bind_ok.mp repaired
  cases same
  refine repairLoop_evidence plan.units ?_ (fun bundle member e inside => ?_) looped
  · intro unit listed item there memoryType tool role
    rw [b.fallbackReaders_records s] at there
    obtain ⟨f,member,rfl⟩ := List.mem_map.mp there
    exact ⟨f,unit,listed,List.mem_append_right _ member,memoryType,tool,role,rfl⟩
  · obtain ⟨⟨unit,place⟩,there,item,returned,memoryType,role,made⟩ := executed_evidence executed bundle member e inside
    unfold Toolbox.answers at returned
    dsimp only at returned
    split at returned
    · cases returned
    · rw [List.mem_zipIdx_iff_getElem?.mp there] at returned
      obtain ⟨f,found,rfl⟩ := List.mem_map.mp returned
      exact ⟨f,unit,List.fst_mem_of_mem_zipIdx there,List.mem_append_left _ found,memoryType,_,role,made⟩

/-! ### What the rule permits -/

section
variable (cards : b.CardsScoped s)
include cards

theorem permits_filtered {rows : List (Memory Scope)} (listed : ∀ m ∈ rows, m ∈ s.memories ∧ m.spaceId = b.r.spaceId)
    (member : row ∈ b.r.filtered unit rows) (exposed : Exposed row) : b.Permits s (b.r.rowRecord row) := by
  obtain ⟨there,passes⟩ := List.mem_filter.mp member
  simp only [Bool.and_eq_true] at passes
  obtain ⟨inside,here⟩ := listed row there
  exact permits_row inside here (allowed_of_item cards inside here exposed passes.1.2) (fun _ => of_rowRecord)

theorem permits_memorySearch {query : String} {kind : Option MemoryType} {limit : Nat}
    (member : f ∈ b.r.memorySearch s query kind limit) : b.Permits s f := by
  rcases List.mem_append.mp (keep_subset _ _ member) with found | fact
  · obtain ⟨row,there,rfl⟩ := List.mem_map.mp found
    obtain ⟨inside,meets⟩ := List.mem_filter.mp there
    simp only [Bool.and_eq_true,Bool.or_eq_true,decide_eq_true_eq] at meets
    obtain ⟨⟨⟨here,active⟩,_⟩,passes⟩ := meets
    refine permits_row inside here ?_ (fun _ => of_rowRecord)
    exact passes.elim id (fun item => allowed_of_item cards inside here (.inl active) item.2)
  · exact permits_facts fact

theorem permits_searchAll {kind : MemoryType} {limit merged : Nat} (member : f ∈ b.r.searchAll s unit kind limit merged) : b.Permits s f := by
  obtain ⟨query,_,found⟩ := List.mem_flatMap.mp (keep_subset _ _ member)
  exact permits_memorySearch cards found

theorem permits_memoryHistory {query : String} {limit : Int} {kind : Option MemoryType}
    (member : f ∈ b.r.memoryHistory s query limit kind) : b.Permits s f := by
  have rows {found : Found} (inside : f ∈ b.r.historyOf s found) : b.Permits s f := by
    unfold Reader.historyOf at inside
    split at inside
    · obtain ⟨row,there,member⟩ := List.mem_flatMap.mp inside
      obtain ⟨listed,allowed⟩ := List.mem_filter.mp there
      obtain ⟨inside,here,_⟩ := mem_rowsWhere listed
      exact permits_row inside here allowed (fun _ => of_map_versionRecord member)
    · cases inside
  unfold Reader.memoryHistory at member
  dsimp only at member
  split at member
  · obtain ⟨_,_,inside⟩ := List.mem_flatMap.mp member
    exact rows inside
  · rcases List.mem_append.mp (firstOf_subset _ _ member) with fact | version
    · exact permits_memorySearch cards (keep_subset _ _ (List.mem_of_mem_filter fact))
    · obtain ⟨_,_,inside⟩ := List.mem_flatMap.mp version
      exact rows inside

/-! ### The units of a plan -/

theorem permits_inventory {limit : Nat} (member : f ∈ b.r.taskInventoryRecords s limit) : b.Permits s f := by
  obtain ⟨row,kept,rfl⟩ := List.mem_map.mp (List.mem_of_mem_take member)
  obtain ⟨listed,passes⟩ := List.mem_filter.mp kept
  rw [Bool.and_eq_true] at passes
  obtain ⟨inside,here⟩ := mem_listMemories listed
  exact permits_row inside here (allowed_of_item cards inside here (active_of_listMemories listed) passes.1)
    (fun _ => of_rowRecord)

theorem permits_pending (member : f ∈ b.r.pendingPreferenceRecords s unit) : b.Permits s f := by
  obtain ⟨row,kept,rfl⟩ := List.mem_map.mp member
  obtain ⟨kept,waits⟩ := List.mem_filter.mp kept
  have preference := (mem_rowsWhere (List.mem_filter.mp kept).1).2.2
  simp only [Bool.and_eq_true,Option.all_some,decide_eq_true_eq] at preference
  exact permits_filtered cards (fun _ => mem_listMemories) kept (.inr ⟨preference.1.2,by simpa using waits⟩)

theorem permits_currentSemantic (member : f ∈ b.r.currentSemantic s unit) : b.Permits s f := by
  rcases List.mem_append.mp (List.mem_of_mem_filter member) with profiled | ranked
  · obtain ⟨row,kept,rfl⟩ := List.mem_map.mp profiled
    obtain ⟨listed,passes⟩ := List.mem_filter.mp kept
    simp only [Bool.and_eq_true] at passes
    obtain ⟨inside,here⟩ := mem_listMemories listed
    exact permits_row inside here (allowed_of_item cards inside here (active_of_listMemories listed) passes.2)
      (fun _ => of_rowRecord)
  · exact permits_searchAll cards (List.mem_of_mem_filter (keep_subset _ _ ranked))

theorem permits_domainTool {asked : Option Nat} (member : f ∈ (b.r.executeDomainTool s asked unit).2) : b.Permits s f := by
  unfold Reader.executeDomainTool at member
  cases intent : unit.intent with
  | taskInventory =>
    simp only [intent] at member
    exact permits_inventory cards member
  | taskState =>
    simp only [intent] at member
    obtain ⟨query,_,found⟩ := List.mem_flatMap.mp (keep_subset _ _ (keep_subset _ _ member))
    exact (List.mem_append.mp (keep_subset _ _ found)).elim (permits_memorySearch cards) (permits_memorySearch cards)
  | preferenceCurrent =>
    simp only [intent] at member
    rcases List.mem_append.mp (keep_subset _ _ (keep_subset _ _ member)) with current | pending
    · exact permits_searchAll cards (List.mem_of_mem_filter current)
    · exact permits_pending cards pending
  | semanticCurrent =>
    simp only [intent] at member
    split at member
    · obtain ⟨_,_,version⟩ := List.mem_flatMap.mp (List.mem_of_mem_take member)
      exact permits_fallbackVersions version
    · exact permits_currentSemantic cards member
  | semanticHistory =>
    simp only [intent] at member
    exact permits_searchAll cards (List.mem_of_mem_filter (keep_subset _ _ member))
  | episodicHistory =>
    simp only [intent] at member
    exact permits_searchAll cards (keep_subset _ _ member)
  | memoryHistory =>
    simp only [intent] at member
    exact permits_timelineVersions member
  | noteLookup =>
    simp only [intent] at member
    obtain ⟨query,_,noted⟩ := List.mem_flatMap.mp (keep_subset _ _ (keep_subset _ _ member))
    exact permits_noted noted

theorem permits_repair (member : f ∈ b.r.repairRecords s unit) : b.Permits s f := by
  have inside := List.mem_of_mem_filter member
  split at inside
  · exact permits_memorySearch cards inside
  · exact permits_noted inside

/-! ### The tools -/

theorem permits_taskStatusSearch {query : String} {limit : Int} (member : f ∈ b.taskStatusSearch s query limit) : b.Permits s f :=
  (List.mem_append.mp (keep_subset _ _ member)).elim (permits_memorySearch cards) (permits_memorySearch cards)

theorem permits_searchTasks {query view : String} {status : Option String} {limit : Int}
    (member : f ∈ b.searchTasks s query view status limit) : b.Permits s f := by
  refine permits_select (fun f inside => ?_) (fun f inside => ?_) member
  · have found := List.mem_of_mem_filter inside
    split at found
    · exact permits_taskStatusSearch cards found
    · exact permits_listTasks found
  · split at inside
    · cases inside
    · exact permits_memoryHistory cards (List.mem_of_mem_filter inside)

theorem permits_histories {query : String} {limit : Int} (kinds : List MemoryType) (rows : List Found) (before : ∀ f ∈ rows, b.Permits s f) :
    ∀ f ∈ kinds.foldl (fun rows kind => mergeEvidence rows (b.r.memoryHistory s query limit (some kind))) rows, b.Permits s f := by
  induction kinds generalizing rows with
  | nil => exact before
  | cons kind rest ih =>
    apply ih
    intro f member
    exact (List.mem_append.mp (mergeEvidence_subset _ _ member)).elim (before f) (permits_memoryHistory cards)

theorem permits_searchMemories {query timeScope : String} {memoryTypes : List String} {limit : Int}
    (member : f ∈ b.searchMemories s query memoryTypes timeScope limit) : b.Permits s f := by
  unfold Toolbox.searchMemories at member
  dsimp only at member
  split at member
  · exact permits_searchTasks cards member
  · refine permits_select (fun f inside => ?_) (fun f inside => ?_) member
    · split at inside
      · exact permits_memorySearch cards (List.mem_of_mem_filter (List.mem_of_mem_take inside))
      · obtain ⟨_,_,found⟩ := List.mem_flatMap.mp (keep_subset _ _ inside)
        exact permits_memorySearch cards found
    · split at inside
      · exact permits_memoryHistory cards (List.mem_of_mem_filter inside)
      · exact permits_histories cards _ _ (fun _ none => absurd none List.not_mem_nil) f inside

theorem permits_profileSummary {query : String} {limit : Int} (member : f ∈ b.profileSummary s query limit) : b.Permits s f := by
  obtain ⟨_,_,kept⟩ := List.mem_flatMap.mp member
  exact permits_memorySearch cards (keep_subset _ _ kept)

theorem permits_executeTool (placed : ∀ limit, b.EpisodesPlaced s limit) (call : ToolCall) : ∀ f ∈ b.executeTool s call, b.Permits s f := by
  intro f member
  cases call with
  | ofNotes => exact permits_noted member
  | searchMemories => exact permits_searchMemories cards member
  | searchTasks => exact permits_searchTasks cards member
  | memorySearch query memoryType limit =>
    have each (kind : Option MemoryType) : ∀ f ∈ b.r.memorySearch s query kind limit.toNat, b.Permits s f :=
      fun _ => permits_memorySearch cards
    exact permits_typed each member
  | taskStatusSearch => exact permits_taskStatusSearch cards member
  | memoryHistory query memoryType limit =>
    have each (kind : Option MemoryType) : ∀ f ∈ b.r.memoryHistory s query limit kind, b.Permits s f :=
      fun _ => permits_memoryHistory cards
    exact permits_typed each member
  | listTasks => exact permits_listTasks member
  | listRecentEpisodes limit => exact recentEpisodes_iff.mpr (placed limit) f member
  | profileSummary => exact permits_profileSummary cards member
  | unknown => cases member

theorem permits_evidenced {asked : Option Nat} {plan : AskPlan} {e : EvidenceItem} (evidence : b.Evidenced s asked plan e f) : b.Permits s f := by
  obtain ⟨unit,_,found,_⟩ := evidence
  exact (List.mem_append.mp found).elim (permits_domainTool cards) (permits_repair cards)

end

/-- Where no card stands alone in its scope, everything the tools read and the evidence is
made of goes by the one rule just where the recent episodes that do not are cut. -/
theorem uniform_iff (cards : b.CardsScoped s) : b.Uniform s ↔ ∀ limit, b.EpisodesPlaced s limit := by
  constructor
  · intro uniform limit
    exact recentEpisodes_iff.mp (uniform.tools (.listRecentEpisodes limit))
  · intro placed
    refine ⟨permits_executeTool cards placed,?_⟩
    intro lib asked plan raises timing budget bundles ran bundle member e inside
    obtain ⟨f,evidence⟩ := evidenced ran bundle member e inside
    exact ⟨f,evidence,permits_evidenced cards evidence⟩

end Reads

/-! ### A restricted episode -/

/-- A visitor, who may read neither what is sensitive nor what is restricted. -/
def visitor : Toolbox where
  reader := .simple
  library := Facts.asciiLibrary
  context := .data (some "visitor") (some "owner") none false false
  given := nofun
  noteRecords := fun _ _ => []
  recentFacts := fun _ => []
  texts := BusinessItems.plainTexts
  business := fun f => {id := f.item.ownId,memoryType := f.item.memoryType.getD "",content := f.item.content}

/-- One episode, restricted and without a sensitivity. -/
def episode (accessScope : String) : Memory Scope where
  id := 1
  spaceId := 0
  memoryType := .episodic
  content := "left early"
  importance := 1
  confidence := 1
  status := .active
  memoryKey := none
  scope := [("access_scope",some accessScope)]
  updatedAt := 0

def diary (accessScope : String) : Store Scope :=
  { Store.empty Scope with memories := ⟨[episode accessScope],List.pairwise_singleton _ _⟩ }

theorem diary_cardsScoped (accessScope : String) : visitor.CardsScoped (diary accessScope) := by
  intro m inside _ _ alone
  rw [List.mem_singleton.mp inside] at alone
  cases alone

/-- A visitor may read an episode that is public, and everything the tools give is that. -/
theorem uniform_iff_public : visitor.CardsScoped (diary "public") ∧ visitor.Uniform (diary "public") := by
  refine ⟨diary_cardsScoped _,(uniform_iff (diary_cardsScoped _)).mpr ?_⟩
  intro limit m listed _ denied
  rw [List.mem_singleton.mp (mem_listMemories listed).1] at denied
  exact absurd (by decide +kernel) denied

/-- The recent episodes show the visitor one that is restricted, which a search would not. -/
theorem restricted_episode_listed : visitor.CardsScoped (diary "restricted") ∧
    visitor.executeTool (diary "restricted") (.memorySearch "left early" none 10) = [] ∧
    ¬visitor.Uniform (diary "restricted") := by
  refine ⟨diary_cardsScoped _,List.isEmpty_iff.mp (by decide +kernel),fun uniform => ?_⟩
  · have shown : visitor.r.rowRecord (episode "restricted") ∈ visitor.executeTool (diary "restricted") (.listRecentEpisodes 10) :=
      List.mem_singleton.mpr rfl
    obtain ⟨m,inside,_,_,allowed⟩ := uniform.tools (.listRecentEpisodes 10) _ shown 1 rfl
    rw [List.mem_singleton.mp inside] at allowed
    exact absurd allowed (by decide +kernel)

end Suixinji.Ask
