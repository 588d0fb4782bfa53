import Mathlib.Algebra.Order.Ring.Rat
import Mathlib.Data.Prod.Lex
import Mathlib.Data.String.Basic
import Suixinji.Relational.Lanes
import Suixinji.Relational.Ranking
import Suixinji.Relational.Table

/-! Retrieval lanes merged into one list: `_merge_records` (agent/ask_executor.py), in exact
arithmetic. The dicts `items`, `scores` and `ranks` are one table keyed by record key. -/
namespace Suixinji.Ask.Merge
open Suixinji.Relational Suixinji.Firsts Suixinji.Lanes Suixinji.Ranking

/-- A record: the texts that may be its key, empty where they are missing, and its other fields. -/
structure Hit (F : Type) where
  id : String := ""
  memoryId : String := ""
  content : String := ""
  fields : F
  deriving DecidableEq

variable {F : Type}

def Hit.key (item : Hit F) : String :=
  let itemId := if item.id ≠ "" then item.id else item.memoryId
  if itemId ≠ "" then itemId else item.content

/-- What the dicts hold for a key: the record, its score, and its rank by group. -/
structure Entry (F : Type) where
  key : String
  item : Hit F
  score : ℚ
  ranks : List (Nat × Nat)

abbrev Entries (F : Type) := Table (Entry.key (F := F))

structure Gathered (F : Type) where
  entries : Entries F
  primaryOrder : List String

def weight (group : Nat) : ℚ := if group = 0 then 23/20 else 1

/-- `setdefault` of the record and the ranks, and the sum of the scores. -/
def ranked (entries : Entries F) (group : Nat) (item : Hit F) (rank : Nat) : Entries F :=
  let gain := weight group / (60 + rank)
  match entries.find? item.key with
  | none => entries.upsert ⟨item.key,item,gain,[(group,rank)]⟩
  | some e => entries.upsert ⟨e.key,e.item,e.score + gain,(group,rank)::e.ranks⟩

/-- One turn of the inner loop, with the set `seen_in_group`. -/
def visit (group : Nat) (s : Gathered F × List String) (numbered : Hit F × Nat) : Gathered F × List String :=
  let key := numbered.1.key
  if key = "" ∨ key ∈ s.2 then s
  else (⟨ranked s.1.entries group numbered.1 numbered.2,if group = 0 then s.1.primaryOrder ++ [key] else s.1.primaryOrder⟩,
    s.2 ++ [key])

def gatherGroup (s : Gathered F) (numbered : List (Hit F) × Nat) : Gathered F :=
  ((numbered.1.zipIdx 1).foldl (visit numbered.2) (s,[])).1

def gather (groups : List (List (Hit F))) : Gathered F := groups.zipIdx.foldl gatherGroup ⟨.empty,[]⟩

/-- `ranks[key][group_index]`. -/
def rankOf (entries : Entries F) (key : String) (group : Nat) : Option Nat :=
  (entries.find? key).bind (fun e => e.ranks.lookup group)

def target (limit : ℤ) : Nat := (max 1 limit).toNat

/-- The part that is kept of the original query's group. -/
def primaryFloor (target : Nat) (primaryOrder : List String) : List String :=
  firsts id (primaryOrder.take (min primaryOrder.length (max 1 (target / 2))))

/-- The one opportunity of a further lane. -/
def laneTurn (entries : Entries F) (target : Nat) (selected : List String) (group : Nat) : List String :=
  let available := (entries.rows.map Entry.key).filter (fun key => key ∉ selected ∧ (rankOf entries key group).isSome)
  match greatest (fun best key => (rankOf entries key group).getD 0 < (rankOf entries best group).getD 0) available with
  | some key => if selected.length < target then selected ++ [key] else selected
  | none => selected

def selectedBefore (g : Gathered F) (target group : Nat) : List String :=
  (List.range' 1 (group - 1)).foldl (laneTurn g.entries target) (primaryFloor target g.primaryOrder)

/-- The sort key of the weighted rank fusion. -/
def Entry.standing (e : Entry F) : ℚ ×ₗ Bool ×ₗ ℤ ×ₗ String :=
  toLex (e.score,toLex ((e.ranks.lookup 0).isSome,toLex (-(((e.ranks.map Prod.snd).min?.getD 10000 : Nat) : ℤ),e.key)))

/-- The keys that are not selected, the highest standing first. -/
def remaining (entries : Entries F) (selected : List String) : List String :=
  ((entries.rows.filter (fun e => e.key ∉ selected)).mergeSort (fun a b => b.standing ≤ a.standing)).map Entry.key

def itemsOf (entries : Entries F) (keys : List String) : List (Hit F) :=
  keys.filterMap (fun key => (entries.find? key).map Entry.item)

/-- `_merge_records`. -/
def mergeRecords (groups : List (List (Hit F))) (limit : ℤ) : List (Hit F) :=
  let g := gather groups
  if g.entries.rows = [] then []
  else if groups.length ≤ 1 then itemsOf g.entries (g.primaryOrder.take (target limit))
  else
    let selected := selectedBefore g (target limit) groups.length
    itemsOf g.entries (fill (target limit) selected (remaining g.entries selected))

/-! ### What the lanes leave in the dicts -/

def named (lane : List (Hit F)) : List String := (lane.map Hit.key).filter (· ≠ "")

def laneKeys (lane : List (Hit F)) : List String := firsts id (named lane)

def laneRank (lane : List (Hit F)) (key : String) : Option Nat :=
  if key ∈ laneKeys lane then some ((lane.map Hit.key).idxOf key + 1) else none

theorem mem_laneKeys {lane : List (Hit F)} {key : String} : key ∈ laneKeys lane ↔ key ≠ "" ∧ key ∈ lane.map Hit.key := by
  have member : key ∈ (laneKeys lane).map id ↔ key ∈ (named lane).map id := mem_keys_firsts
  rw [List.map_id,List.map_id] at member
  rw [member,named,List.mem_filter,decide_eq_true_iff,and_comm]

theorem laneKeys_nodup (lane : List (Hit F)) : (laneKeys lane).Nodup := by
  have once : ((laneKeys lane).map id).Nodup := firsts_once (named lane)
  rwa [List.map_id] at once

theorem laneKeys_grow (lane : List (Hit F)) :
    (laneKeys lane).Pairwise (fun a b => (lane.map Hit.key).idxOf a < (lane.map Hit.key).idxOf b) :=
  idxOf_firsts _ _

theorem laneKeys_snoc (lane : List (Hit F)) (item : Hit F) :
    laneKeys (lane ++ [item]) =
      if item.key = "" ∨ item.key ∈ laneKeys lane then laneKeys lane else laneKeys lane ++ [item.key] := by
  unfold laneKeys named
  rw [List.map_append,List.map_singleton,List.filter_append]
  by_cases blank : item.key = ""
  · rw [if_pos (.inl blank),List.filter_cons_of_neg (by simpa using blank),List.filter_nil,List.append_nil]
  · rw [List.filter_cons_of_pos (by simpa using blank),List.filter_nil,firsts_snoc,List.map_id]
    simp only [id,blank,false_or]

theorem laneRank_snoc_old {lane : List (Hit F)} {item : Hit F} (old : item.key = "" ∨ item.key ∈ laneKeys lane) :
    laneRank (lane ++ [item]) = laneRank lane := by
  funext key
  unfold laneRank
  rw [laneKeys_snoc,if_pos old]
  by_cases member : key ∈ laneKeys lane
  · rw [if_pos member,if_pos member,List.map_append,List.idxOf_append_of_mem (mem_laneKeys.mp member).2]
  · rw [if_neg member,if_neg member]

theorem laneRank_snoc_new {lane : List (Hit F)} {item : Hit F} (new : ¬(item.key = "" ∨ item.key ∈ laneKeys lane)) (key : String) :
    laneRank (lane ++ [item]) key = if key = item.key then some (lane.length + 1) else laneRank lane key := by
  unfold laneRank
  rw [laneKeys_snoc,if_neg new]
  have fresh : item.key ∉ lane.map Hit.key := fun old => new (by
    by_cases blank : item.key = ""
    · exact .inl blank
    · exact .inr (mem_laneKeys.mpr ⟨blank,old⟩))
  by_cases same : key = item.key
  · subst same
    rw [if_pos (List.mem_append_right _ List.mem_cons_self),if_pos rfl,List.map_append,List.idxOf_append_of_notMem fresh]
    simp
  · rw [if_neg same]
    by_cases member : key ∈ laneKeys lane
    · rw [if_pos (List.mem_append_left _ member),if_pos member,List.map_append,
        List.idxOf_append_of_mem (mem_laneKeys.mp member).2]
    · rw [if_neg member,if_neg (by simp [member,same])]

theorem rankOf_ranked (entries : Entries F) (group : Nat) (item : Hit F) (rank : Nat) (key : String) (g : Nat) :
    rankOf (ranked entries group item rank) key g =
      if key = item.key ∧ g = group then some rank else rankOf entries key g := by
  unfold ranked rankOf
  by_cases same : key = item.key
  · subst same
    cases found : entries.find? item.key with
    | none =>
      by_cases here : g = group
      · subst here
        simp [Table.find?_upsert]
      · simp [Table.find?_upsert,List.lookup_cons,here,beq_eq_false_iff_ne.mpr here]
    | some e =>
      have keyed := (Table.find?_eq_some.mp found).2
      by_cases here : g = group
      · subst here
        simp [Table.find?_upsert,keyed]
      · simp [Table.find?_upsert,List.lookup_cons,here,keyed,beq_eq_false_iff_ne.mpr here]
  · cases found : entries.find? item.key with
    | none => simp [Table.find?_upsert,same]
    | some e =>
      have keyed := (Table.find?_eq_some.mp found).2
      simp [Table.find?_upsert,same,keyed]

theorem item_ranked (entries : Entries F) (group : Nat) (item : Hit F) (rank : Nat) (key : String) :
    ((ranked entries group item rank).find? key).map Entry.item =
      ((entries.find? key).map Entry.item).or (if key = item.key then some item else none) := by
  unfold ranked
  by_cases same : key = item.key
  · subst same
    cases found : entries.find? item.key with
    | none => simp [Table.find?_upsert]
    | some e =>
      have keyed := (Table.find?_eq_some.mp found).2
      simp [Table.find?_upsert,keyed]
  · cases found : entries.find? item.key with
    | none => simp [Table.find?_upsert,same]
    | some e =>
      have keyed := (Table.find?_eq_some.mp found).2
      simp [Table.find?_upsert,same,keyed]

/-- The state of the inner loop after the records of a lane. -/
structure Visited (group : Nat) (start : Gathered F) (lane : List (Hit F)) (s : Gathered F × List String) : Prop where
  seen : s.2 = laneKeys lane
  order : s.1.primaryOrder = if group = 0 then start.primaryOrder ++ laneKeys lane else start.primaryOrder
  rank : ∀ key g, rankOf s.1.entries key g =
    if g = group then (laneRank lane key).or (rankOf start.entries key g) else rankOf start.entries key g
  item : ∀ key, (s.1.entries.find? key).map Entry.item =
    ((start.entries.find? key).map Entry.item).or (lane.find? (fun r => r.key = key ∧ key ≠ ""))

theorem visited_of_visits (group : Nat) (start : Gathered F) (lane : List (Hit F)) :
    Visited group start lane ((lane.zipIdx 1).foldl (visit group) (start,[])) := by
  induction lane using List.reverseRecOn with
  | nil => exact ⟨rfl,by simp [laneKeys,named,firsts],by simp [laneRank,laneKeys,named,firsts],by simp⟩
  | append_singleton lane item ih =>
    rw [List.zipIdx_append,List.foldl_append]
    generalize (lane.zipIdx 1).foldl (visit group) (start,[]) = s at ih ⊢
    change Visited group start (lane ++ [item]) (visit group s (item,1 + lane.length))
    unfold visit
    dsimp only
    rw [ih.seen]
    by_cases old : item.key = "" ∨ item.key ∈ laneKeys lane
    · rw [if_pos old]
      refine ⟨?_,?_,?_,?_⟩
      · rw [laneKeys_snoc,if_pos old,ih.seen]
      · rw [laneKeys_snoc,if_pos old,ih.order]
      · rw [laneRank_snoc_old old]
        exact ih.rank
      · intro key
        rw [ih.item,List.find?_append]
        congr 1
        cases found : lane.find? (fun r => r.key = key ∧ key ≠ "") with
        | some r => rfl
        | none =>
          have missing : ¬(item.key = key ∧ key ≠ "") := by
            rintro ⟨rfl,named⟩
            have inside := (mem_laneKeys.mp (old.resolve_left named)).2
            obtain ⟨r,member,same⟩ := List.mem_map.mp inside
            exact absurd (List.find?_eq_none.mp found r member) (by simp [same,named])
          rw [List.find?_cons_of_neg (by simpa using missing)]
          rfl
    · rw [if_neg old]
      refine ⟨?_,?_,?_,?_⟩
      · rw [laneKeys_snoc,if_neg old]
      · rw [laneKeys_snoc,if_neg old]
        by_cases first : group = 0
        · rw [if_pos first,if_pos first,ih.order,if_pos first,List.append_assoc]
        · rw [if_neg first,if_neg first,ih.order,if_neg first]
      · intro key g
        rw [rankOf_ranked,ih.rank,laneRank_snoc_new old,Nat.add_comm 1]
        by_cases here : g = group
        · by_cases same : key = item.key
          · simp [here,same]
          · simp [here,same]
        · simp [here]
      · intro key
        rw [item_ranked,ih.item,List.find?_append,Option.or_assoc]
        congr 2
        by_cases same : key = item.key
        · subst same
          have named : item.key ≠ "" := fun blank => old (.inl blank)
          simp [named]
        · have other : ¬item.key = key := fun h => same h.symm
          simp [same,other]

structure GatheredFrom (groups : List (List (Hit F))) (g : Gathered F) : Prop where
  order : g.primaryOrder = laneKeys (groups.headD [])
  rank : ∀ key i, rankOf g.entries key i = (groups[i]?).bind (fun lane => laneRank lane key)
  item : ∀ key, (g.entries.find? key).map Entry.item = groups.flatten.find? (fun r => r.key = key ∧ key ≠ "")

theorem gatheredFrom_gather (groups : List (List (Hit F))) : GatheredFrom groups (gather groups) := by
  unfold gather
  induction groups using List.reverseRecOn with
  | nil => exact ⟨rfl,fun _ _ => rfl,fun _ => rfl⟩
  | append_singleton groups lane ih =>
    rw [List.zipIdx_append,List.foldl_append]
    generalize groups.zipIdx.foldl gatherGroup ⟨.empty,[]⟩ = s at ih ⊢
    change GatheredFrom (groups ++ [lane]) (gatherGroup s (lane,0 + groups.length))
    rw [Nat.zero_add]
    have added := visited_of_visits groups.length s lane
    refine ⟨added.order.trans ?_,?_,?_⟩
    · rw [ih.order]
      cases groups with
      | nil => rfl
      | cons first groups => rfl
    · intro key i
      refine (added.rank key i).trans ?_
      rw [ih.rank]
      by_cases here : i = groups.length
      · subst here
        simp
      · rw [if_neg here]
        rcases Nat.lt_or_ge i groups.length with low | high
        · rw [List.getElem?_append_left low]
        · have past : (groups ++ [lane]).length ≤ i := by
            rw [List.length_append,List.length_singleton]
            omega
          rw [List.getElem?_eq_none high,List.getElem?_eq_none past]
    · intro key
      refine (added.item key).trans ?_
      rw [ih.item,List.flatten_append,List.find?_append]
      simp

section Gathered

variable {groups : List (List (Hit F))} {g : Gathered F} (from_ : GatheredFrom groups g)
include from_

theorem GatheredFrom.mem_keys {key : String} :
    key ∈ g.entries.rows.map Entry.key ↔ key ≠ "" ∧ key ∈ groups.flatten.map Hit.key := by
  have entry : key ∈ g.entries.rows.map Entry.key ↔ ((g.entries.find? key).map Entry.item).isSome := by
    rw [Option.isSome_map]
    cases found : g.entries.find? key with
    | none =>
      have missing := Table.find?_eq_none.mp found
      have absent : key ∉ g.entries.rows.map Entry.key := by
        rw [List.mem_map]
        rintro ⟨e,inside,same⟩
        exact missing e inside same
      simpa using absent
    | some e =>
      obtain ⟨member,keyed⟩ := Table.find?_eq_some.mp found
      exact iff_of_true (List.mem_map.mpr ⟨e,member,keyed⟩) rfl
  rw [entry,from_.item,List.find?_isSome]
  simp only [decide_eq_true_eq,List.mem_map]
  exact ⟨fun ⟨r,member,same,named⟩ => ⟨named,r,member,same⟩,fun ⟨named,r,member,same⟩ => ⟨r,member,same,named⟩⟩

theorem GatheredFrom.mem_of_lane {i : Nat} {lane : List (Hit F)} (there : groups[i]? = some lane) :
    laneKeys lane ⊆ g.entries.rows.map Entry.key := by
  intro key member
  obtain ⟨named,inside⟩ := mem_laneKeys.mp member
  obtain ⟨r,place,same⟩ := List.mem_map.mp inside
  have taken : r ∈ groups.flatten := List.mem_flatten.mpr ⟨lane,List.mem_of_getElem? there,place⟩
  exact from_.mem_keys.mpr ⟨named,List.mem_map.mpr ⟨r,taken,same⟩⟩

theorem GatheredFrom.primary_subset : g.primaryOrder ⊆ g.entries.rows.map Entry.key := by
  rw [from_.order]
  cases groups with
  | nil => exact List.nil_subset _
  | cons first groups => exact from_.mem_of_lane (i := 0) rfl

theorem GatheredFrom.length_primary (one : groups.length ≤ 1) : g.primaryOrder.length = g.entries.rows.length := by
  have once : g.primaryOrder.Nodup := from_.order ▸ laneKeys_nodup _
  rw [← List.length_map Entry.key]
  apply List.Perm.length_eq
  rw [List.perm_ext_iff_of_nodup once g.entries.keyed]
  intro key
  rw [from_.mem_keys,from_.order,mem_laneKeys]
  match groups,one with
  | [],_ => rfl
  | [first],_ => rw [List.flatten_singleton,List.headD_cons]

theorem GatheredFrom.laneTurn {i : Nat} {lane : List (Hit F)} (there : groups[i]? = some lane) (n : Nat) (selected : List String) :
    laneTurn g.entries n selected i = turn n selected (laneKeys lane) := by
  have rank (key : String) : rankOf g.entries key i = laneRank lane key := by
    rw [from_.rank,there,Option.bind_some]
  unfold Merge.laneTurn
  simp only [rank]
  generalize listed : (g.entries.rows.map Entry.key).filter (fun key => key ∉ selected ∧ (laneRank lane key).isSome) = available
  have available_iff (key : String) : key ∈ available ↔ key ∈ laneKeys lane ∧ key ∉ selected := by
    rw [← listed,List.mem_filter]
    simp only [decide_eq_true_eq]
    constructor
    · rintro ⟨_,new,ranked⟩
      refine ⟨?_,new⟩
      by_contra missing
      rw [laneRank,if_neg missing] at ranked
      cases ranked
    · rintro ⟨member,new⟩
      refine ⟨from_.mem_of_lane there member,new,?_⟩
      rw [laneRank,if_pos member]
      rfl
  cases found : greatest (fun best key => (laneRank lane key).getD 0 < (laneRank lane best).getD 0) available with
  | none =>
    have nothing := greatest_eq_none.mp found
    have no_new : (laneKeys lane).find? (· ∉ selected) = none := by
      apply List.find?_eq_none.mpr
      intro key member new
      have inside := (available_iff key).mpr ⟨member,by simpa using new⟩
      rw [nothing] at inside
      exact absurd inside List.not_mem_nil
    rw [turn,no_new]
  | some key =>
    obtain ⟨member,new⟩ := (available_iff key).mp (greatest_mem found)
    have ranks (k : String) (inside : k ∈ laneKeys lane) : (laneRank lane k).getD 0 = (lane.map Hit.key).idxOf k + 1 := by
      rw [laneRank,if_pos inside]
      rfl
    have best := le_greatest (m := fun key => OrderDual.toDual ((laneRank lane key).getD 0)) (by simp) found
    have first : (laneKeys lane).find? (· ∉ selected) = some key := by
      refine find?_eq_of_least (m := fun k => (lane.map Hit.key).idxOf k) (laneKeys_grow lane) member (by simpa using new) ?_
      intro other inside new'
      have below := best other ((available_iff other).mpr ⟨inside,by simpa using new'⟩)
      have below' : (laneRank lane key).getD 0 ≤ (laneRank lane other).getD 0 := below
      rw [ranks key member,ranks other inside] at below'
      omega
    rw [turn,first]

theorem GatheredFrom.selectedBefore (n k : Nat) (within : k < groups.length) :
    selectedBefore g n (k + 1) = turns n (primaryFloor n g.primaryOrder) ((groups.tail.take k).map laneKeys) := by
  unfold Merge.selectedBefore
  rw [Nat.add_sub_cancel]
  induction k with
  | zero => rfl
  | succ k ih =>
    obtain ⟨lane,there⟩ : ∃ lane, groups[k + 1]? = some lane := ⟨_,List.getElem?_eq_getElem within⟩
    have tail_there : groups.tail[k]? = some lane := by rw [List.getElem?_tail,there]
    rw [List.range'_concat,List.foldl_append,ih (by omega),List.take_add_one,tail_there,List.map_append,turns_append]
    change Merge.laneTurn g.entries n _ (1 + 1 * k) = turn n _ (laneKeys lane)
    rw [Nat.one_mul,Nat.add_comm,from_.laneTurn there]

theorem GatheredFrom.keys_itemsOf {keys : List String} (there : keys ⊆ g.entries.rows.map Entry.key) :
    (itemsOf g.entries keys).map Hit.key = keys := by
  induction keys with
  | nil => rfl
  | cons key keys ih =>
    obtain ⟨here,later⟩ := List.cons_subset.mp there
    obtain ⟨named,inside⟩ := from_.mem_keys.mp here
    obtain ⟨r,member,same⟩ := List.mem_map.mp inside
    obtain ⟨item,found⟩ : ∃ item, groups.flatten.find? (fun r => r.key = key ∧ key ≠ "") = some item :=
      Option.isSome_iff_exists.mp (List.find?_isSome.mpr ⟨r,member,by simp [same,named]⟩)
    have keyed := List.find?_some found
    rw [decide_eq_true_iff] at keyed
    have ih' := ih later
    unfold itemsOf at ih' ⊢
    rw [List.filterMap_cons,from_.item,found,List.map_cons,ih',keyed.1]

theorem GatheredFrom.mem_of_itemsOf {keys : List String} {item : Hit F} (member : item ∈ itemsOf g.entries keys) :
    ∃ group ∈ groups, item ∈ group := by
  obtain ⟨key,_,found⟩ := List.mem_filterMap.mp member
  rw [from_.item] at found
  exact List.mem_flatten.mp (List.mem_of_find?_eq_some found)

theorem GatheredFrom.length_entries :
    g.entries.rows.length = ((groups.flatten.map Hit.key).filter (· ≠ "")).dedup.length := by
  rw [← List.length_map Entry.key]
  apply List.Perm.length_eq
  rw [List.perm_ext_iff_of_nodup g.entries.keyed (List.nodup_dedup _)]
  intro key
  rw [from_.mem_keys,List.mem_dedup,List.mem_filter,decide_eq_true_iff,and_comm]

end Gathered

theorem remaining_perm (entries : Entries F) (selected : List String) :
    (remaining entries selected).Perm ((entries.rows.map Entry.key).filter (· ∉ selected)) := by
  unfold remaining
  rw [List.filter_map]
  exact (List.mergeSort_perm _ _).map Entry.key

theorem selected_remaining_perm {entries : Entries F} {selected : List String} (once : selected.Nodup)
    (there : selected ⊆ entries.rows.map Entry.key) :
    (selected ++ remaining entries selected).Perm (entries.rows.map Entry.key) := by
  refine ((remaining_perm entries selected).append_left selected).trans ?_
  rw [List.perm_ext_iff_of_nodup ?_ entries.keyed]
  · intro key
    rw [List.mem_append,List.mem_filter,decide_eq_true_iff]
    by_cases old : key ∈ selected
    · exact iff_of_true (.inl old) (there old)
    · exact ⟨fun h => h.elim (fun h => absurd h old) And.left,fun h => .inr ⟨h,old⟩⟩
  · rw [List.nodup_append]
    refine ⟨once,entries.keyed.filter _,?_⟩
    intro key old key' new same
    have apart := (List.mem_filter.mp new).2
    rw [decide_eq_true_iff] at apart
    exact apart (same ▸ old)

/-! ### The merged list -/

/-- What a merged list guarantees. The keys selected before the turn of a group are those that the
loop over the lanes has selected by then. -/
structure Merges (groups : List (List (Hit F))) (limit : ℤ) (merged : List (Hit F)) : Prop where
  bounded : (merged.length : ℤ) ≤ max 1 limit
  apart : (merged.map Hit.key).Nodup
  taken : ∀ item ∈ merged, ∃ group ∈ groups, item ∈ group
  floor : ∀ first rest, groups = first::rest → rest ≠ [] →
    (laneKeys first).take (min (laneKeys first).length (max 1 (target limit / 2))) <+: merged.map Hit.key
  turns : ∀ before lane after, groups = before ++ lane::after → before ≠ [] →
    let selected := selectedBefore (gather groups) (target limit) before.length
    (∃ key ∈ laneKeys lane, key ∉ selected) → selected.length < target limit →
      ∃ best, (laneKeys lane).find? (· ∉ selected) = some best ∧ selected ++ [best] <+: merged.map Hit.key
  full : target limit ≤ ((groups.flatten.map Hit.key).filter (· ≠ "")).dedup.length → (merged.length : ℤ) = max 1 limit

theorem target_pos (limit : ℤ) : 1 ≤ target limit := by
  unfold target
  omega

theorem target_cast (limit : ℤ) : (target limit : ℤ) = max 1 limit := by
  unfold target
  omega

theorem primaryFloor_eq (n : Nat) {keys : List String} (once : keys.Nodup) :
    primaryFloor n keys = keys.take (min keys.length (max 1 (n / 2))) := by
  unfold primaryFloor
  exact firsts_eq_self (by rw [List.map_id]; exact once.sublist (List.take_sublist _ _))

section Several

variable (groups : List (List (Hit F))) (limit : ℤ)

def selectedKeys : List String := selectedBefore (gather groups) (target limit) groups.length

def mergedKeys : List String :=
  fill (target limit) (selectedKeys groups limit) (remaining (gather groups).entries (selectedKeys groups limit))

variable {groups}

theorem floor_spec :
    (primaryFloor (target limit) (gather groups).primaryOrder).length ≤ target limit ∧
      (primaryFloor (target limit) (gather groups).primaryOrder).Nodup ∧
      primaryFloor (target limit) (gather groups).primaryOrder ⊆ (gather groups).entries.rows.map Entry.key := by
  have from_ := gatheredFrom_gather groups
  have once : (gather groups).primaryOrder.Nodup := from_.order ▸ laneKeys_nodup _
  rw [primaryFloor_eq _ once]
  have positive := target_pos limit
  refine ⟨?_,once.sublist (List.take_sublist _ _),fun key member => from_.primary_subset (List.mem_of_mem_take member)⟩
  rw [List.length_take]
  omega

theorem selected_spec {k : Nat} (within : k < groups.length) :
    (selectedBefore (gather groups) (target limit) (k + 1)).length ≤ target limit ∧
      (selectedBefore (gather groups) (target limit) (k + 1)).Nodup ∧
      selectedBefore (gather groups) (target limit) (k + 1) ⊆ (gather groups).entries.rows.map Entry.key := by
  have from_ := gatheredFrom_gather groups
  obtain ⟨room,once,there⟩ := floor_spec limit
  rw [from_.selectedBefore _ k within]
  refine ⟨turns_length room,turns_nodup once,turns_subset there ?_⟩
  intro keys member
  obtain ⟨lane,inside,rfl⟩ := List.mem_map.mp member
  obtain ⟨i,place⟩ := List.getElem?_of_mem (List.mem_of_mem_tail (List.mem_of_mem_take inside))
  exact from_.mem_of_lane place

theorem selectedBefore_starts {j k : Nat} (le : j ≤ k) (within : k < groups.length) :
    selectedBefore (gather groups) (target limit) (j + 1) <+: selectedBefore (gather groups) (target limit) (k + 1) := by
  have from_ := gatheredFrom_gather groups
  rw [from_.selectedBefore _ j (by omega),from_.selectedBefore _ k within]
  obtain ⟨later,split⟩ : groups.tail.take j <+: groups.tail.take k := List.take_prefix_take_left le
  rw [← split,List.map_append,turns_append]
  exact turns_start

theorem mergedKeys_spec (some_one : groups ≠ []) :
    selectedKeys groups limit <+: mergedKeys groups limit ∧ (mergedKeys groups limit).Nodup ∧
      mergedKeys groups limit ⊆ (gather groups).entries.rows.map Entry.key ∧
      (mergedKeys groups limit).length = min (target limit) (gather groups).entries.rows.length := by
  obtain ⟨k,count⟩ := Nat.exists_eq_succ_of_ne_zero (mt List.length_eq_zero_iff.mp some_one)
  have spec := selected_spec limit (by omega : k < groups.length)
  rw [← Nat.succ_eq_add_one,← count] at spec
  obtain ⟨room,once,there⟩ := spec
  have all := selected_remaining_perm once there
  refine ⟨fill_starts room,?_,?_,?_⟩
  · exact (all.nodup_iff.mpr (gather groups).entries.keyed).sublist (fill_sublist room)
  · exact fun key member => all.subset ((fill_sublist room).subset member)
  · rw [mergedKeys,length_fill (by exact room),selectedKeys,all.length_eq,List.length_map]

end Several

theorem mergeRecords_of_several {groups : List (List (Hit F))} (several : 2 ≤ groups.length) (limit : ℤ) :
    (mergeRecords groups limit).map Hit.key = mergedKeys groups limit ∧
      (∀ item ∈ mergeRecords groups limit, ∃ group ∈ groups, item ∈ group) := by
  have from_ := gatheredFrom_gather groups
  have some_one : groups ≠ [] := List.ne_nil_of_length_pos (by omega)
  obtain ⟨_,_,there,length⟩ := mergedKeys_spec limit some_one
  unfold mergeRecords
  dsimp only
  by_cases blank : (gather groups).entries.rows = []
  · rw [blank,List.length_nil,Nat.min_zero] at length
    rw [if_pos blank,List.eq_nil_of_length_eq_zero length]
    exact ⟨rfl,fun item member => absurd member List.not_mem_nil⟩
  · rw [if_neg blank,if_neg (by omega)]
    exact ⟨from_.keys_itemsOf there,fun item => from_.mem_of_itemsOf⟩

theorem mergeRecords_of_one {groups : List (List (Hit F))} (one : groups.length ≤ 1) (limit : ℤ) :
    (mergeRecords groups limit).map Hit.key = (gather groups).primaryOrder.take (target limit) ∧
      (∀ item ∈ mergeRecords groups limit, ∃ group ∈ groups, item ∈ group) := by
  have from_ := gatheredFrom_gather groups
  have there : (gather groups).primaryOrder.take (target limit) ⊆ (gather groups).entries.rows.map Entry.key :=
    fun key member => from_.primary_subset (List.mem_of_mem_take member)
  unfold mergeRecords
  dsimp only
  by_cases blank : (gather groups).entries.rows = []
  · rw [blank,List.map_nil] at there
    rw [if_pos blank,List.subset_nil.mp there]
    exact ⟨rfl,fun item member => absurd member List.not_mem_nil⟩
  · rw [if_neg blank,if_pos one]
    exact ⟨from_.keys_itemsOf there,fun item => from_.mem_of_itemsOf⟩

/-- For all lanes and every limit. -/
theorem mergeRecords_merges (groups : List (List (Hit F))) (limit : ℤ) : Merges groups limit (mergeRecords groups limit) := by
  have from_ := gatheredFrom_gather groups
  have cast := target_cast limit
  by_cases several : 2 ≤ groups.length
  · obtain ⟨keys,taken⟩ := mergeRecords_of_several several limit
    have some_one : groups ≠ [] := List.ne_nil_of_length_pos (by omega)
    obtain ⟨starts,once,_,length⟩ := mergedKeys_spec limit some_one
    rw [← keys,List.length_map] at length
    refine ⟨by omega,keys ▸ once,taken,?_,?_,?_⟩
    · intro first rest split _
      rw [keys]
      refine List.IsPrefix.trans ?_ starts
      have start := selectedBefore_starts limit (Nat.zero_le (groups.length - 1)) (by omega : groups.length - 1 < groups.length)
      rw [from_.selectedBefore _ 0 (by omega),Nat.sub_add_cancel (by omega),from_.order,
        primaryFloor_eq _ (laneKeys_nodup _)] at start
      rw [split] at start ⊢
      exact start
    · intro before lane after split some_before selected new room
      obtain ⟨key,inside,fresh⟩ := new
      obtain ⟨best,found⟩ : ∃ best, (laneKeys lane).find? (· ∉ selected) = some best :=
        Option.isSome_iff_exists.mp (List.find?_isSome.mpr ⟨key,inside,by simpa using fresh⟩)
      refine ⟨best,found,?_⟩
      obtain ⟨k,count⟩ := Nat.exists_eq_succ_of_ne_zero (mt List.length_eq_zero_iff.mp some_before)
      have within : k + 1 < groups.length := by
        rw [split,List.length_append,List.length_cons]
        omega
      have there : groups.tail[k]? = some lane := by
        rw [List.getElem?_tail,split,List.getElem?_append_right (by omega),count,Nat.sub_self]
        rfl
      have next : selectedBefore (gather groups) (target limit) (k + 2) = selected ++ [best] := by
        rw [from_.selectedBefore _ (k + 1) within,List.take_add_one,there,List.map_append,turns_append,
          ← from_.selectedBefore _ k (by omega),← Nat.succ_eq_add_one,← count]
        exact turn_of_find found room
      rw [keys,← next]
      refine List.IsPrefix.trans ?_ starts
      have later := selectedBefore_starts limit (by omega : k + 1 ≤ groups.length - 1) (by omega : groups.length - 1 < groups.length)
      rwa [Nat.sub_add_cancel (by omega)] at later
    · intro enough
      rw [← from_.length_entries] at enough
      omega
  · obtain ⟨keys,taken⟩ := mergeRecords_of_one (by omega : groups.length ≤ 1) limit
    have once : (gather groups).primaryOrder.Nodup := from_.order ▸ laneKeys_nodup _
    have length := congrArg List.length keys
    rw [List.length_map,List.length_take] at length
    refine ⟨by omega,keys ▸ once.sublist (List.take_sublist _ _),taken,?_,?_,?_⟩
    · intro first rest split some_rest
      have positive := List.length_pos_iff.mpr some_rest
      rw [split,List.length_cons] at several
      omega
    · intro before lane after split some_before
      have positive := List.length_pos_iff.mpr some_before
      rw [split,List.length_append,List.length_cons] at several
      omega
    · intro enough
      have all := from_.length_primary (by omega)
      rw [← from_.length_entries] at enough
      omega

end Suixinji.Ask.Merge
