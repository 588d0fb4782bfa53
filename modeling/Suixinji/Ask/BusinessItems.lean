import Mathlib.Data.List.Infix
import Mathlib.Data.List.Lex
import Mathlib.Data.String.Basic
import Suixinji.Facts.Access
import Suixinji.Relational.Best

/-! List answers (agent/query_agent.py): which record stands for an identity key, the order of
the answer, and when it depends on the order of the repository. A text that is missing or null is empty. -/
namespace Suixinji.Ask

/-- `max(1, min(int(limit), cap))`. -/
def clamp (limit : Int) (cap : Nat) : Nat := max 1 (min limit.toNat cap)

namespace BusinessItems
open Best
open Facts (AccessContext)
open Text (contains mentionsAny)

structure Source where
  evidenceText : String := ""
  content : String := ""
  eventTime : String := ""
  observedAt : String := ""
  deriving DecidableEq

structure Scope where
  canonicalTopic : String := ""
  eventTime : String := ""
  eventAt : String := ""
  validFrom : String := ""
  sensitivity : String := ""
  ownerId : String := ""
  deriving DecidableEq

/-- The fields of a record's dict that an answer reads. -/
structure Item where
  id : String
  memoryType : String := ""
  memoryKey : String := ""
  canonicalTopic : String := ""
  objectValue : String := ""
  content : String := ""
  currentValue : String := ""
  taskStatus : String := ""
  status : String := ""
  scope : Scope := {}
  sources : List Source := []
  versioned : Bool := false
  eventTime : String := ""
  eventAt : String := ""
  businessTime : String := ""
  validFrom : String := ""
  updatedAt : String := ""
  createdAt : String := ""
  deriving DecidableEq

/-- What the code takes from a text: its ISO form as a time (`_time_value`), the first date in it, whether
it names a status, and `casefold`. -/
structure Texts where
  timeValue : String → String
  contentDate : String → Option String
  structuredStatus : String → Bool
  casefold : String → String

variable (texts : Texts)

/-- The first text that is not empty: `a or b or ""`. -/
def firstText (values : List String) : String := (values.find? (· ≠ "")).getD ""

/-- `latest`. -/
def latest (values : List String) : String := ((values.map texts.timeValue).filter (· ≠ "")).foldl max ""

def businessTimeSortKey (item : Item) : List String :=
  [latest texts [item.eventTime,item.eventAt,item.businessTime,item.scope.eventTime,item.scope.eventAt],
    latest texts [item.validFrom,item.scope.validFrom],
    (texts.contentDate item.content).elim "" texts.timeValue,
    latest texts (item.sources.map Source.eventTime),
    latest texts (item.sources.map Source.observedAt),
    texts.timeValue item.updatedAt,
    texts.timeValue item.createdAt]

def businessTimeValue (item : Item) : String := firstText (businessTimeSortKey texts item)

def itemCompletenessScore (item : Item) : Nat :=
  (if item.memoryType ≠ "" then 1 else 0) +
  (if firstText [item.canonicalTopic,item.memoryKey,item.objectValue] ≠ "" then 1 else 0) +
  (if firstText [item.taskStatus,item.status] ≠ "" then 1 else 0) +
  (if item.currentValue ≠ "" then 2 else 0) +
  (if item.content ≠ "" then 1 else 0) +
  (if item.sources ≠ [] then 1 else 0) +
  (if item.versioned then 1 else 0)

def statusRank : String → Nat
  | "todo" => 5
  | "blocked" => 4
  | "done" => 3
  | "canceled" => 2
  | "cancelled" => 2
  | "pending_review" => 1
  | "pending" => 1
  | _ => 0

abbrev Score := ℕ ×ₗ ℕ ×ₗ ℕ ×ₗ ℕ ×ₗ ℕ ×ₗ ℕ ×ₗ ℕ ×ₗ String ×ₗ String

def itemBusinessScore (item : Item) : Score :=
  let topic := firstText [item.scope.canonicalTopic,item.canonicalTopic,item.memoryKey,item.objectValue,item.content]
  let sourceText := " ".intercalate (item.sources.map (fun source => firstText [source.evidenceText,source.content]))
  let structured := texts.structuredStatus (" ".intercalate [item.content,sourceText,item.currentValue,item.objectValue])
  let stateMatches := item.taskStatus ≠ "" &&
    texts.casefold (firstText [item.objectValue,item.currentValue]) = texts.casefold item.taskStatus
  let current := item.currentValue ≠ "" || structured || stateMatches
  let explicit := mentionsAny item.content ["当前","现在"] || mentionsAny sourceText ["当前","现在","是todo","是blocked","是done"] || current
  let irrelevant := mentionsAny sourceText ["无关信息","无关"] || mentionsAny item.content ["无关"]
  let duplicate := topic ≠ "" && (item.content ≠ "" && contains item.content topic || sourceText ≠ "" && contains sourceText topic)
  toLex (current.toNat,toLex (explicit.toNat,toLex (itemCompletenessScore item,toLex (item.sources.length,toLex (1 - irrelevant.toNat,
    toLex (duplicate.toNat,toLex (statusRank item.taskStatus,toLex (businessTimeValue texts item,item.updatedAt))))))))

def itemIdentityKey (item : Item) : String :=
  firstText [item.scope.canonicalTopic,item.canonicalTopic,item.memoryKey,item.objectValue,item.id,item.content]

/-- `_sorted_business_items`: the best record of each identity key, sorted by id, and then by score. -/
def sortedBusinessItems (items : List Item) (limit : Int) : List Item :=
  shown itemIdentityKey Item.id (itemBusinessScore texts) (clamp limit 100) items

/-- The rule of `list_recent_episodes` on a scope. It is not that of memory/access.py: without a
sensitivity it passes whatever the access scope is. -/
def passesOwnRule (ctx : AccessContext) (sensitivity ownerId : Option String) : Bool :=
  (sensitivity.filter (· ≠ "")).isNone || ctx.allowSensitive ||
    Facts.orText ctx.requester "owner" = Facts.orText ownerId (Facts.orText ctx.ownerId "owner")

def shows (ctx : AccessContext) (item : Item) : Bool := passesOwnRule ctx (some item.scope.sensitivity) (some item.scope.ownerId)

def episodeScore (item : Item) : List String ×ₗ ℕ ×ₗ String :=
  toLex (businessTimeSortKey texts item,toLex (itemCompletenessScore item,item.updatedAt))

/-- The order of `list_recent_episodes`, of elements that each have a dict. -/
def recentFirst {α : Type} (item : α → Item) (as : List α) : List α := ranked (Item.id ∘ item) (episodeScore texts ∘ item) as

/-- `list_recent_episodes`, of the episodes of the fact memory, where it is on, and of the records. -/
def listRecentEpisodes (ctx : Option AccessContext) (facts records : List Item) (limit : Int) : List Item :=
  (recentFirst texts id (facts ++ records.filter (fun item => ctx.all (shows · item)))).take (clamp limit 100)

structure OrderFree (texts : Texts) (items : List Item) (limit : Int) : Prop where
  same : ∀ items', items'.Perm items → sortedBusinessItems texts items' limit = sortedBusinessItems texts items limit
  listed : ∀ item ∈ sortedBusinessItems texts items limit, item ∈ items
  once : ((sortedBusinessItems texts items limit).map itemIdentityKey).Nodup
  full : (sortedBusinessItems texts items limit).length = min (clamp limit 100) (items.map itemIdentityKey).dedup.length
  each_key : (items.map itemIdentityKey).dedup.length ≤ clamp limit 100 →
    ∀ item ∈ items, ∃ answer ∈ sortedBusinessItems texts items limit, itemIdentityKey answer = itemIdentityKey item
  episodes : ∀ ctx facts facts' items', facts'.Perm facts → items'.Perm items → ((facts ++ items).map Item.id).Nodup →
    listRecentEpisodes texts ctx facts' items' limit = listRecentEpisodes texts ctx facts items limit

theorem listRecentEpisodes_perm (ctx : Option AccessContext) {facts facts' records records' : List Item} (limit : Int)
    (permF : facts'.Perm facts) (permR : records'.Perm records) (distinct : ((facts ++ records).map Item.id).Nodup) :
    listRecentEpisodes texts ctx facts' records' limit = listRecentEpisodes texts ctx facts records limit := by
  unfold listRecentEpisodes
  congr 1
  have shorter : (facts ++ records.filter (fun item => ctx.all (shows · item))).Sublist (facts ++ records) :=
    List.filter_sublist.append_left facts
  have perm := permF.append (permR.filter (fun item => ctx.all (shows · item)))
  exact (ranked_eq_of_perm (distinct.sublist (shorter.map Item.id)) perm.symm).symm

/-- A list answer does not depend on the order of the repository exactly when, where several records are
the best of one identity key, so many keys come before all of these that none of them is in the answer. -/
theorem order_free_iff (texts : Texts) (items : List Item) (limit : Int) (distinct : (items.map Item.id).Nodup) :
    OrderFree texts items limit ↔ Settled itemIdentityKey Item.id (itemBusinessScore texts) (clamp limit 100) items := by
  constructor
  · exact fun free => (shown_eq_iff distinct).mp free.same
  · intro settled
    exact {
      same := (shown_eq_iff distinct).mpr settled
      listed := fun item inside => best_subset ((ranked_perm _).mem_iff.mp (List.mem_of_mem_take inside))
      once := shown_once items
      full := length_shown items
      each_key := fun room item inside => exists_shown room inside
      episodes := fun ctx facts facts' items' permF permR once => listRecentEpisodes_perm texts ctx limit permF permR once }

/-- Texts without times, dates and statuses, in lower case. -/
def plainTexts : Texts where
  timeValue _ := ""
  contentDate _ := none
  structuredStatus _ := false
  casefold := id

def reportTask (id content : String) : Item := {id := id,memoryType := "task",memoryKey := "task:用户:周报",content := content,taskStatus := "todo"}

/-- Two records of one task, one of which says more. -/
def reportTasks : List Item := [reportTask "m1" "写周报",{reportTask "m2" "写周报" with currentValue := "写了一半"}]

theorem order_free_of_better : OrderFree plainTexts reportTasks 10 := by
  apply (order_free_iff _ _ _ (by decide)).mpr
  intro a b first second _ apart
  have better : ∀ a ∈ reportTasks, ∀ b ∈ reportTasks, a ≠ b → itemIdentityKey a = itemIdentityKey b ∧
      ¬(itemBusinessScore plainTexts a ≤ itemBusinessScore plainTexts b ∧ itemBusinessScore plainTexts b ≤ itemBusinessScore plainTexts a) := by
    decide +kernel
  obtain ⟨same,differ⟩ := better a first.1 b second.1 apart
  exact absurd ⟨second.2 a first.1 same,first.2 b second.1 same.symm⟩ differ

/-- Two records of one task with equal scores: the one that comes first is the answer. -/
theorem order_decides : ([reportTask "m1" "写周报",reportTask "m2" "交周报"].map Item.id).Nodup ∧
    ¬OrderFree plainTexts [reportTask "m1" "写周报",reportTask "m2" "交周报"] 10 := by
  refine ⟨by decide,fun free => ?_⟩
  have same := congrArg (List.map Item.id) (free.same [reportTask "m2" "交周报",reportTask "m1" "写周报"] (.swap _ _ _))
  exact absurd same (by decide +kernel)

end BusinessItems

end Suixinji.Ask
