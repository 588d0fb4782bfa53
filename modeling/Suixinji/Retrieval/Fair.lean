import Mathlib.Algebra.Order.BigOperators.Group.List
import Mathlib.Data.Prod.Lex
import Mathlib.Data.String.Basic
import Suixinji.Retrieval.Fusion

/-! What rank fusion makes of the channels: a memory's score depends on its best rank under each
label, and on nothing else about the lists. -/
namespace Suixinji.Retrieval
open Suixinji.Relational Suixinji.Ranking

/-- The rank of a memory under a label. -/
def rankIn (merged : Table Channel.name) (name id : String) : Option Nat :=
  (merged.find? name).bind (fun c => (c.rows.find? id).map Ranked.rank)

def ranksOf (rows : List Row) (id : String) : List Nat := ((enumerate rows).filter (·.id = id)).map Ranked.rank

def occurrences (channels : Channels) (name id : String) : List Nat :=
  (channels.filter (·.1 = name)).flatMap (fun c => ranksOf c.2 id)

/-- The smaller of two ranks that may be missing. -/
abbrev least (a b : Option Nat) : Option Nat := Option.merge min a b

theorem least_assoc (a b c : Option Nat) : least (least a b) c = least a (least b c) := by
  cases a <;> cases b <;> cases c <;> simp [least,Option.merge,min_assoc]

theorem min?_append (xs ys : List Nat) : (xs ++ ys).min? = least xs.min? ys.min? := by
  induction xs with
  | nil => simp [least]
  | cons x xs ih =>
    rw [List.cons_append,List.min?_cons,List.min?_cons,ih]
    cases xs.min? <;> cases ys.min? <;> simp [least,Option.merge,min_assoc]

theorem min?_perm {xs ys : List Nat} (perm : xs.Perm ys) : xs.min? = ys.min? := by
  induction perm with
  | nil => rfl
  | cons x _ ih => rw [List.min?_cons,List.min?_cons,ih]
  | swap x y xs =>
    rw [List.min?_cons,List.min?_cons,List.min?_cons,List.min?_cons]
    cases xs.min? <;> simp [min_comm,min_left_comm]
  | trans _ _ first second => exact first.trans second

theorem mergeRow_rank (t : Table Ranked.id) (r : Ranked) (id : String) :
    ((mergeRow t r).find? id).map Ranked.rank =
      least ((t.find? id).map Ranked.rank) (if r.id = id then some r.rank else none) := by
  unfold mergeRow
  by_cases same : id = r.id
  · subst same
    cases found : t.find? r.id with
    | none => simp [Table.find?_upsert,least]
    | some old =>
      dsimp only
      split
      · rename_i better
        simp [Table.find?_upsert,least,Option.merge,min_eq_right better.le]
      · rename_i worse
        simp [found,least,Option.merge,min_eq_left (not_lt.mp worse)]
  · have other : ¬r.id = id := fun h => same h.symm
    simp only [if_neg other]
    split
    · simp [Table.find?_upsert,same,least]
    · split <;> simp [Table.find?_upsert,same,least]

theorem mergeRows_rank (rs : List Ranked) (t : Table Ranked.id) (id : String) :
    ((rs.foldl mergeRow t).find? id).map Ranked.rank =
      least ((t.find? id).map Ranked.rank) ((rs.filter (·.id = id)).map Ranked.rank).min? := by
  induction rs generalizing t with
  | nil => simp [least]
  | cons r rs ih =>
    rw [List.foldl_cons,ih,mergeRow_rank,least_assoc]
    congr 1
    by_cases same : r.id = id
    · rw [if_pos same,List.filter_cons_of_pos (by simpa using same),List.map_cons,List.min?_cons]
      cases ((rs.filter (·.id = id)).map Ranked.rank).min? <;> simp [least,Option.merge]
    · rw [if_neg same,List.filter_cons_of_neg (by simpa using same)]
      simp [least]

theorem mergeChannel_rank (merged : Table Channel.name) (c : String × List Row) (name id : String) :
    rankIn (mergeChannel merged c) name id =
      least (rankIn merged name id) (if c.1 = name then (ranksOf c.2 id).min? else none) := by
  unfold rankIn mergeChannel
  rw [Table.find?_upsert]
  by_cases same : name = c.1
  · subst same
    simp only [if_pos,Option.bind_some,mergeRows_rank,ranksOf]
    congr 1
    cases merged.find? c.1 with
    | none => simp [Table.find?,Table.empty]
    | some old => simp
  · have other : ¬c.1 = name := fun h => same h.symm
    simp [same,other,least]

theorem mergedChannels_rank (channels : Channels) (name id : String) :
    rankIn (mergedChannels channels) name id = (occurrences channels name id).min? := by
  have run : ∀ (channels : Channels) (merged : Table Channel.name),
      rankIn (channels.foldl mergeChannel merged) name id =
        least (rankIn merged name id) (occurrences channels name id).min? := by
    intro channels
    induction channels with
    | nil => simp [occurrences,least]
    | cons c channels ih =>
      intro merged
      rw [List.foldl_cons,ih,mergeChannel_rank,least_assoc]
      congr 1
      by_cases same : c.1 = name
      · simp [occurrences,same,min?_append]
      · simp [occurrences,same,least]
  rw [mergedChannels,run]
  simp [rankIn,Table.find?,Table.empty,least]

theorem mergedChannels_names (channels : Channels) (name : String) :
    name ∈ (mergedChannels channels).rows.map Channel.name ↔ name ∈ channels.map Prod.fst := by
  have run : ∀ (channels : Channels) (merged : Table Channel.name),
      name ∈ (channels.foldl mergeChannel merged).rows.map Channel.name ↔
        name ∈ merged.rows.map Channel.name ∨ name ∈ channels.map Prod.fst := by
    intro channels
    induction channels with
    | nil => simp
    | cons c channels ih =>
      intro merged
      rw [List.foldl_cons,ih,List.map_cons,List.mem_cons,← or_assoc]
      apply or_congr_left
      have step : name ∈ (mergeChannel merged c).rows.map Channel.name ↔ ∃ d ∈ mergeChannel merged c, d.name = name := by
        simp [Table.mem_def]
      rw [step]
      unfold mergeChannel
      simp only [Table.mem_upsert]
      constructor
      · rintro ⟨d,rfl | ⟨member,_⟩,rfl⟩
        · exact .inr rfl
        · exact .inl (List.mem_map_of_mem member)
      · rintro (member | rfl)
        · obtain ⟨d,inside,rfl⟩ := List.mem_map.mp member
          by_cases same : d.name = c.1
          · exact ⟨_,.inl rfl,same.symm⟩
          · exact ⟨d,.inr ⟨inside,same⟩,rfl⟩
        · exact ⟨_,.inl rfl,rfl⟩
  rw [mergedChannels,run]
  simp [Table.empty]

def names (merged : Table Channel.name) : List String := merged.rows.map Channel.name

def size (merged : Table Channel.name) (name : String) : Nat :=
  (((merged.find? name).map (·.rows.rows.length))).getD 0

/-- The same memories have the same ranks under the same labels. -/
structure Alike (merged merged' : Table Channel.name) : Prop where
  names : (names merged).Perm (names merged')
  ranks : ∀ name id, rankIn merged name id = rankIn merged' name id

theorem find?_name {merged : Table Channel.name} {c : Channel} (member : c ∈ merged.rows) :
    merged.find? c.name = some c := Table.find?_mem member

theorem referenceSize_eq (merged : Table Channel.name) :
    referenceSize merged = (((names merged).filter (· ∈ referenceChannels)).map (size merged)).foldr max 0 := by
  unfold referenceSize names
  rw [List.filter_map,List.map_map]
  congr 1
  apply List.map_congr_left
  intro c member
  simp [size,find?_name (List.mem_of_mem_filter member)]

theorem size_eq {merged merged' : Table Channel.name} (ranks : ∀ name id, rankIn merged name id = rankIn merged' name id)
    (name : String) : size merged name = size merged' name := by
  have ids : ∀ (merged : Table Channel.name), ∃ ids : List String, ids.Nodup ∧ ids.length = size merged name ∧
      ∀ id, id ∈ ids ↔ (rankIn merged name id).isSome := by
    intro merged
    cases found : merged.find? name with
    | none => exact ⟨[],List.nodup_nil,by simp [size,found],by simp [rankIn,found]⟩
    | some c =>
      refine ⟨c.rows.rows.map Ranked.id,c.rows.keyed,by simp [size,found],fun id => ?_⟩
      simp only [rankIn,found,Option.bind_some,Option.isSome_map]
      cases look : c.rows.find? id with
      | none => simpa [Table.mem_def] using Table.find?_eq_none.mp look
      | some r =>
        obtain ⟨member,rfl⟩ := Table.find?_eq_some.mp look
        simpa using List.mem_map_of_mem member
  obtain ⟨is,distinct,long,ranked⟩ := ids merged
  obtain ⟨js,distinct',long',ranked'⟩ := ids merged'
  rw [← long,← long']
  apply List.Perm.length_eq
  rw [List.perm_ext_iff_of_nodup distinct distinct']
  intro id
  rw [ranked,ranked',ranks]

theorem Alike.vectorScale {merged merged' : Table Channel.name} (alike : Alike merged merged') :
    vectorScale merged = vectorScale merged' := by
  have sizes : size merged = size merged' := funext (size_eq alike.ranks)
  have reference : referenceSize merged = referenceSize merged' := by
    rw [referenceSize_eq,referenceSize_eq,sizes]
    exact ((alike.names.filter _).map _).foldr_eq 0
  have vector : vectorSize merged = vectorSize merged' := congrFun sizes "vector"
  rw [Retrieval.vectorScale,Retrieval.vectorScale,reference,vector]

/-- The ranks of a memory, label by label. -/
def rankList (merged : Table Channel.name) (id : String) : List (String × Nat) :=
  (names merged).filterMap (fun name => (rankIn merged name id).map (name,·))

theorem channelRanks_eq (merged : Table Channel.name) (id : String) :
    channelRanks merged id = (rankList merged id).mergeSort (fun a b => a.1 ≤ b.1) := by
  unfold channelRanks rankList names
  rw [List.filterMap_map]
  congr 1
  apply List.filterMap_congr
  intro c member
  simp [rankIn,find?_name member,Function.comp_def]

theorem rankList_names (merged : Table Channel.name) (id : String) : ((rankList merged id).map Prod.fst).Nodup := by
  have distinct : (names merged).Nodup := merged.keyed
  unfold rankList
  rw [List.map_filterMap]
  refine distinct.sublist ?_
  have kept : (fun name => ((rankIn merged name id).map (name,·)).map Prod.fst) =
      Option.guard (fun name => (rankIn merged name id).isSome) := by
    funext name
    cases found : rankIn merged name id <;> simp [Option.guard,found]
  rw [kept,List.filterMap_eq_filter]
  exact List.filter_sublist

theorem channelRanks_names (merged : Table Channel.name) (id : String) :
    ((channelRanks merged id).map Prod.fst).Nodup := by
  rw [channelRanks_eq]
  exact ((List.mergeSort_perm _ _).map _).nodup_iff.mpr (rankList_names merged id)

theorem Alike.channelRanks {merged merged' : Table Channel.name} (alike : Alike merged merged') (id : String) :
    channelRanks merged id = channelRanks merged' id := by
  have perm : (rankList merged id).Perm (rankList merged' id) := by
    unfold rankList
    rw [show rankIn merged = rankIn merged' from funext₂ alike.ranks]
    exact alike.names.filterMap _
  rw [channelRanks_eq,channelRanks_eq]
  apply mergeSort_eq_of_perm _ _ _ perm
  · intro a b c below above
    simp only [decide_eq_true_eq] at below above ⊢
    exact below.trans above
  · intro a b
    simpa using le_total a.1 b.1
  · intro a member b member' below above
    simp only [decide_eq_true_eq] at below above
    exact List.inj_on_of_nodup_map (rankList_names merged id) member member' (le_antisymm below above)

/-- Lists of rows that one session has loaded: a row is the same object in all of them. -/
structure Recall where
  channels : Channels
  single : ∀ c ∈ channels, ∀ row ∈ c.2, ∀ d ∈ channels, ∀ row' ∈ d.2, row.id = row'.id → row = row'

theorem alike_of_perm {channels channels' : Channels} (perm : channels.Perm channels') :
    Alike (mergedChannels channels) (mergedChannels channels') where
  names := by
    refine (List.perm_ext_iff_of_nodup (mergedChannels channels).keyed (mergedChannels channels').keyed).mpr (fun name => ?_)
    exact (mergedChannels_names channels name).trans
      ((perm.map Prod.fst).mem_iff.trans (mergedChannels_names channels' name).symm)
  ranks name id := by
    rw [mergedChannels_rank,mergedChannels_rank]
    exact min?_perm (List.Perm.flatMap_right _ (perm.filter _))

theorem allRows_eq (channels : Channels) : allRows channels = (channels.flatMap Prod.snd).foldl Table.upsert .empty := by
  rw [allRows,List.foldl_flatMap]

theorem mem_allRows (r : Recall) (row : Row) : row ∈ allRows r.channels ↔ row ∈ r.channels.flatMap Prod.snd := by
  rw [allRows_eq]
  refine Table.mem_upserts (fun row listed row' listed' same => ?_)
  obtain ⟨c,inside,held⟩ := List.mem_flatMap.mp listed
  obtain ⟨d,inside',held'⟩ := List.mem_flatMap.mp listed'
  exact r.single c inside row held d inside' row' held' same

theorem Recall.allHits_perm (cfg : Settings) (q : Query) {r r' : Recall} (perm : r.channels.Perm r'.channels) :
    (allHits cfg q r.channels).Perm (allHits cfg q r'.channels) := by
  have alike := alike_of_perm perm
  have rows : (allRows r.channels).rows.Perm (allRows r'.channels).rows := by
    refine (List.perm_ext_iff_of_nodup (allRows r.channels).keyed.of_map (allRows r'.channels).keyed.of_map).mpr
      (fun row => ?_)
    exact (mem_allRows r row).trans (((List.Perm.flatMap_right _ perm).mem_iff).trans (mem_allRows r' row).symm)
  simp only [allHits,alike.vectorScale,alike.channelRanks]
  exact rows.map _

def Hit.key (hit : Hit) : ℚ ×ₗ (String ×ₗ String) := toLex (hit.finalScore,toLex (hit.memory.updatedAt,hit.memory.id))

theorem Hit.before_iff {a b : Hit} : a.before b ↔ b.key ≤ a.key := by
  have lower : byThen Hit.finalScore (byThen (·.memory.updatedAt) (less (·.memory.id))) a b = true ↔ a.key < b.key := by
    simp only [byThen,less,Hit.key,Prod.Lex.toLex_lt_toLex,Bool.or_eq_true,Bool.and_eq_true,decide_eq_true_eq]
  rw [← not_lt,← lower,Hit.before,Bool.not_eq_true',Bool.not_eq_true]

theorem allHits_ids (cfg : Settings) (q : Query) (channels : Channels) :
    ((allHits cfg q channels).map (·.memory.id)).Nodup := by
  have ids : (allHits cfg q channels).map (·.memory.id) = (allRows channels).rows.map Row.id := by
    simp only [allHits,List.map_map]
    rfl
  rw [ids]
  exact (allRows channels).keyed

theorem sorted_eq_of_perm {hits hits' : List Hit} (distinct : (hits.map (·.memory.id)).Nodup) (perm : hits.Perm hits') :
    hits.mergeSort Hit.before = hits'.mergeSort Hit.before := by
  apply mergeSort_eq_of_perm _ _ _ perm
  · intro a b c
    simp only [Hit.before_iff]
    exact fun below above => above.trans below
  · intro a b
    simp only [Bool.or_eq_true,Hit.before_iff]
    exact le_total _ _
  · intro a member b member'
    simp only [Hit.before_iff]
    intro below above
    have same : a.key = b.key := le_antisymm above below
    exact List.inj_on_of_nodup_map distinct member member' (congrArg (fun k => (ofLex (ofLex k).2).2) same)

/-- What a label adds to the score of a memory. -/
def term (cfg : Settings) (scale : ℚ) (name : String) (rank : Option Nat) : ℚ := rank.elim 0 (contribution cfg scale name)

theorem weight_nonneg (cfg : Settings) {scale : ℚ} (positive : 0 ≤ scale) (name : String) : 0 ≤ weight cfg scale name := by
  have base : 0 ≤ baseWeight name := by
    unfold baseWeight rrfChannelWeights
    simp only [List.lookup_cons,List.lookup_nil]
    repeat' split
    all_goals norm_num
  unfold weight
  split
  · exact zero_le_one
  · split
    · exact mul_nonneg base positive
    · exact base

theorem vectorScale_nonneg (merged : Table Channel.name) : 0 ≤ vectorScale merged := by
  unfold vectorScale
  split
  · exact le_max_of_le_left (by norm_num)
  · exact zero_le_one

theorem term_mono (cfg : Settings) {scale : ℚ} (positive : 0 ≤ scale) (name : String) {better worse : Option Nat}
    (le : ∀ rank, worse = some rank → ∃ rank', better = some rank' ∧ rank' ≤ rank) :
    term cfg scale name worse ≤ term cfg scale name better := by
  have heavy := weight_nonneg cfg positive name
  have k : (0 : ℚ) < rrfK cfg := by exact_mod_cast lt_of_lt_of_le Int.zero_lt_one (le_max_left 1 cfg.rrfK)
  have gains : ∀ rank : Nat, 0 ≤ contribution cfg scale name rank := fun rank => div_nonneg heavy (by positivity)
  cases worse with
  | none =>
    cases better with
    | none => exact le_rfl
    | some rank => exact gains rank
  | some rank =>
    obtain ⟨rank',rfl,smaller⟩ := le rank rfl
    have smaller : (rank' : ℚ) ≤ rank := by exact_mod_cast smaller
    exact div_le_div_of_nonneg_left heavy (by positivity) (by linarith)

theorem rrfScore_eq (cfg : Settings) (scale : ℚ) (merged : Table Channel.name) (id : String) :
    ((channelRanks merged id).map (fun entry => contribution cfg scale entry.1 entry.2)).sum =
      ((names merged).map (fun name => term cfg scale name (rankIn merged name id))).sum := by
  rw [channelRanks_eq,((List.mergeSort_perm _ _).map _).sum_eq,rankList]
  induction names merged with
  | nil => rfl
  | cons name names ih =>
    cases found : rankIn merged name id with
    | none =>
      rw [List.filterMap_cons_none (by simp [found]),ih,List.map_cons,List.sum_cons,found]
      simp [term]
    | some rank =>
      rw [List.filterMap_cons_some (by rw [found]; rfl),List.map_cons,List.sum_cons,ih,List.map_cons,List.sum_cons,found]
      rfl

theorem rankIn_dominates {channels : Channels} {a b name : String}
    (dominates : ∀ rank ∈ occurrences channels name b, ∃ rank' ∈ occurrences channels name a, rank' ≤ rank) (rank : Nat)
    (found : rankIn (mergedChannels channels) name b = some rank) :
    ∃ rank', rankIn (mergedChannels channels) name a = some rank' ∧ rank' ≤ rank := by
  rw [mergedChannels_rank] at found ⊢
  obtain ⟨rank',occurs,smaller⟩ := dominates rank (List.min?_eq_some_iff.mp found).1
  cases best : (occurrences channels name a).min? with
  | none =>
    rw [List.min?_eq_none_iff.mp best] at occurs
    cases occurs
  | some least => exact ⟨least,rfl,((List.min?_eq_some_iff.mp best).2 rank' occurs).trans smaller⟩

/-- Fusion returns a bounded number of different memories, whatever the order of the channels;
a label counts once for a memory, and a memory at least as good everywhere scores at least as high. -/
theorem rrf_fair (cfg : Settings) (q : Query) (r : Recall) :
    ((rrfHits cfg q r.channels).length : ℤ) ≤ max 1 (min q.limit 50) ∧
    ((rrfHits cfg q r.channels).map (·.memory.id)).Nodup ∧
    (∀ r' : Recall, r.channels.Perm r'.channels → rrfHits cfg q r.channels = rrfHits cfg q r'.channels) ∧
    (∀ hit ∈ allHits cfg q r.channels, (hit.channelRanks.map Prod.fst).Nodup ∧ hit.rrfScore =
      (hit.channelRanks.map (fun entry => contribution cfg (vectorScale (mergedChannels r.channels)) entry.1 entry.2)).sum) ∧
    ∀ a ∈ allHits cfg q r.channels, ∀ b ∈ allHits cfg q r.channels, b.policyScore ≤ a.policyScore →
      (∀ name, ∀ rank ∈ occurrences r.channels name b.memory.id, ∃ rank' ∈ occurrences r.channels name a.memory.id,
        rank' ≤ rank) →
      b.finalScore ≤ a.finalScore := by
  have sum : ∀ (scale : ℚ) (ranks : List (String × Nat)) (row : Row), (hitOf cfg q scale ranks row).rrfScore =
      (ranks.map (fun entry => contribution cfg scale entry.1 entry.2)).sum := by
    intro scale ranks row
    simp only [hitOf,List.map_map]
    rfl
  refine ⟨?_,?_,?_,?_,?_⟩
  · rw [rrfHits,List.length_take]
    have positive : 0 ≤ max 1 (min q.limit 50) := zero_le_one.trans (le_max_left _ _)
    omega
  · apply List.Nodup.sublist ((List.take_sublist _ _).map _)
    exact ((List.mergeSort_perm _ _).map _).nodup_iff.mpr (allHits_ids cfg q r.channels)
  · intro r' perm
    rw [rrfHits,rrfHits,sorted_eq_of_perm (allHits_ids cfg q r.channels) (Recall.allHits_perm cfg q perm)]
  · intro hit member
    obtain ⟨row,_,rfl⟩ := List.mem_map.mp member
    exact ⟨channelRanks_names _ _,sum _ _ _⟩
  · intro a member b member' policy dominates
    obtain ⟨row,_,rfl⟩ := List.mem_map.mp member
    obtain ⟨row',_,rfl⟩ := List.mem_map.mp member'
    change _ + policyScore cfg q row' ≤ _ + policyScore cfg q row
    refine add_le_add ?_ policy
    have fused : ∀ row : Row, (hitOf cfg q (vectorScale (mergedChannels r.channels))
        (channelRanks (mergedChannels r.channels) row.id) row).rrfScore = _ :=
      fun row => (sum _ _ row).trans (rrfScore_eq cfg (vectorScale (mergedChannels r.channels)) (mergedChannels r.channels) row.id)
    refine (fused row').le.trans ((?_ : _ ≤ _).trans (fused row).ge)
    apply List.sum_le_sum
    intro name _
    exact term_mono cfg (vectorScale_nonneg _) name (rankIn_dominates (dominates name))

/-- A recall of two memories, the first of which is ahead in both channels. -/
def twoChannels : Recall where
  channels := [("exact",[⟨"m1",none,none,none,"09:00"⟩]),
    ("fts",[⟨"m1",none,none,none,"09:00"⟩,⟨"m2",none,none,none,"10:00"⟩])]
  single := by decide

def plain : Settings := ⟨60,true,id⟩

theorem rrf_fair_twoChannels :
    rrfHits plain {} twoChannels.channels = rrfHits plain {} twoChannels.channels.reverse ∧
    (∀ a ∈ allHits plain {} twoChannels.channels, ∀ b ∈ allHits plain {} twoChannels.channels,
      a.memory.id = "m1" → b.memory.id = "m2" → b.finalScore ≤ a.finalScore) := by
  obtain ⟨_,_,order,_,dominance⟩ := rrf_fair plain {} twoChannels
  refine ⟨order ⟨twoChannels.channels.reverse,by decide⟩ (List.reverse_perm _).symm,?_⟩
  intro a member b member' first second
  have free : a.policyScore = 0 ∧ b.policyScore = 0 := by
    obtain ⟨row,_,rfl⟩ := List.mem_map.mp member
    obtain ⟨row',_,rfl⟩ := List.mem_map.mp member'
    exact ⟨rfl,rfl⟩
  refine dominance a member b member' (by rw [free.1,free.2]) ?_
  rw [first,second]
  intro name rank ranked
  obtain ⟨c,listed,held⟩ := List.mem_flatMap.mp ranked
  obtain ⟨listed,named⟩ := List.mem_filter.mp listed
  rcases List.mem_pair.mp listed with rfl | rfl
  · cases held
  · obtain rfl := of_decide_eq_true named
    have held : rank ∈ [2] := held
    exact ⟨1,by decide,by rw [List.mem_singleton.mp held]; decide⟩

/-- With a limit of 0 there is one hit. -/
theorem zeroLimit_hit : ¬((rrfHits plain { limit := 0 } twoChannels.channels).length : ℤ) ≤ min 0 50 := by
  have hits : (allHits plain { limit := 0 } twoChannels.channels).length = 2 := by
    simp only [allHits,List.length_map]
    decide
  rw [rrfHits,List.length_take,List.length_mergeSort,hits]
  decide

end Suixinji.Retrieval
