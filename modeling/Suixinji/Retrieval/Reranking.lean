import Mathlib.Data.List.Perm.Subperm
import Suixinji.Retrieval.NoteReranker

/-! Reranking loses no note and invents none, the best note stays first, and notes that are alike keep their
order; the answer evidence is taken from different places. -/
namespace Suixinji.Retrieval.NoteReranker
open Greedy Ranking

variable {σ ι α : Type} {ts id : ι → String} {rows : List (Row ι)}

/-- The selection, of things that have a row each. -/
def diversifiedBy (f : α → Row ι) (penalty : ℚ) (ts : ι → String) (more : Nat) : List α → List α
  | [] => []
  | first::remaining => first::greedy (fun selected a => worth penalty ts (selected.map f) (f a)) more [first] remaining

theorem diversifiedBy_map (f : α → Row ι) (penalty : ℚ) (more : Nat) (as : List α) :
    (diversifiedBy f penalty ts more as).map f = diversified penalty ts more (as.map f) := by
  cases as with
  | nil => rfl
  | cons first remaining =>
    rw [diversifiedBy,List.map_cons,List.map_cons,diversified,greedy_map]
    rfl

theorem diversifiedBy_subperm (f : α → Row ι) (penalty : ℚ) (ts : ι → String) (more : Nat) (as : List α) :
    ∃ left, (diversifiedBy f penalty ts more as ++ left).Perm as := by
  cases as with
  | nil => exact ⟨[],.refl _⟩
  | cons first remaining =>
    obtain ⟨left,perm⟩ := greedy_perm (fun selected a => worth penalty ts (selected.map f) (f a)) more [first] remaining
    exact ⟨left,perm.cons first⟩

theorem diversifiedBy_length (f : α → Row ι) (penalty : ℚ) (more : Nat) (as : List α) :
    (diversifiedBy f penalty ts more as).length = min (more + 1) as.length := by
  cases as with
  | nil => simp [diversifiedBy]
  | cons first remaining =>
    rw [diversifiedBy,List.length_cons,List.length_cons,greedy_length]
    omega

theorem diversifiedBy_keeps (f : α → Row ι) (penalty : ℚ) {as : List α} {a b : α} (order : [a,b].Sublist as)
    (score : (f a).score = (f b).score) (time : ts (f a).item = ts (f b).item) (terms : (f a).terms = (f b).terms) :
    [a,b].Sublist (diversifiedBy f penalty ts (as.length - 1) as) := by
  cases as with
  | nil => exact absurd order (by simp)
  | cons first remaining =>
    have same (selected : List α) : worth penalty ts (selected.map f) (f a) = worth penalty ts (selected.map f) (f b) := by
      unfold worth
      rw [score,time,terms]
    rw [diversifiedBy,List.length_cons,Nat.add_sub_cancel]
    rcases List.sublist_cons_iff.mp order with later | ⟨rest,both,behind⟩
    · exact (greedy_keeps same remaining.length [first] later (Nat.le_refl _)).cons first
    · obtain ⟨rfl,rfl⟩ := List.cons.inj both
      have there := (greedy_perm_self (fun selected a => worth penalty ts (selected.map f) (f a)) [a]
        (Nat.le_refl remaining.length)).mem_iff.mpr (List.singleton_sublist.mp behind)
      exact (List.singleton_sublist.mpr there).cons_cons a

def sortedBy (f : α → Row ι) (ts id : ι → String) (as : List α) : List α :=
  as.insertionSort (fun a b => (toLex ((f b).score,toLex (ts (f b).item,id (f b).item)) : ℚ ×ₗ String ×ₗ String) ≤
    toLex ((f a).score,toLex (ts (f a).item,id (f a).item)))

theorem sortedBy_map (f : α → Row ι) (as : List α) : (sortedBy f ts id as).map f = sorted ts id (as.map f) :=
  List.map_insertionSort _ _ f as (fun _ _ _ _ => Iff.rfl)

theorem sortedBy_perm (f : α → Row ι) (as : List α) : (sortedBy f ts id as).Perm as := List.perm_insertionSort _ _

theorem sortedBy_keeps (ts id : ι → String) (f : α → Row ι) {as : List α} {a b : α} (order : [a,b].Sublist as) (score : (f a).score = (f b).score)
    (time : ts (f a).item = ts (f b).item) (name : id (f a).item = id (f b).item) : [a,b].Sublist (sortedBy f ts id as) := by
  refine List.sublist_insertionSort ?_ order
  rw [List.pairwise_pair,score,time,name]

theorem sorted_pairwise (ts id : ι → String) (rows : List (Row ι)) : (sorted ts id rows).Pairwise (fun a b =>
    (toLex (b.score,toLex (ts b.item,id b.item)) : ℚ ×ₗ String ×ₗ String) ≤ toLex (a.score,toLex (ts a.item,id a.item))) := by
  have total : Std.Total (fun a b : Row ι => (toLex (b.score,toLex (ts b.item,id b.item)) : ℚ ×ₗ String ×ₗ String) ≤
    toLex (a.score,toLex (ts a.item,id a.item))) := ⟨fun a b => le_total _ _⟩
  have trans : IsTrans (Row ι) (fun a b => (toLex (b.score,toLex (ts b.item,id b.item)) : ℚ ×ₗ String ×ₗ String) ≤
    toLex (a.score,toLex (ts a.item,id a.item))) := ⟨fun _ _ _ first second => second.trans first⟩
  exact List.pairwise_insertionSort _ rows

theorem score_le_head (ts id : ι → String) {first : Row ι} (head : first ∈ (sorted ts id rows).head?) {row : Row ι} (inside : row ∈ rows) :
    row.score ≤ first.score := by
  have there : row ∈ sorted ts id rows := (List.perm_insertionSort _ _).mem_iff.mpr inside
  have order := sorted_pairwise ts id rows
  cases whole : sorted ts id rows with
  | nil =>
    rw [whole] at head
    cases head
  | cons top rest =>
    rw [whole] at head there order
    obtain rfl := Option.some.inj head
    rcases List.mem_cons.mp there with rfl | later
    · exact le_rfl
    · have le := List.rel_of_pairwise_cons order later
      rw [Prod.Lex.toLex_le_toLex] at le
      rcases le with less | ⟨same,_⟩
      · exact less.le
      · exact same.le

theorem sorted_eq_of_perm (ts id : ι → String) {rows' : List (Row ι)} (perm : rows'.Perm rows)
    (apart : ∀ a ∈ rows', ∀ b ∈ rows', a.score = b.score → ts a.item = ts b.item → id a.item = id b.item → a = b) :
    sorted ts id rows' = sorted ts id rows := by
  have all : (sorted ts id rows').Perm (sorted ts id rows) :=
    (List.perm_insertionSort _ _).trans (perm.trans (List.perm_insertionSort _ _).symm)
  refine all.eq_of_pairwise ?_ (sorted_pairwise ts id rows') (sorted_pairwise ts id rows)
  intro a b member member' below above
  have same := toLex.injective (le_antisymm above below)
  obtain ⟨score,rest⟩ := Prod.mk.inj same
  obtain ⟨time,name⟩ := Prod.mk.inj (toLex.injective rest)
  exact apart a ((List.perm_insertionSort _ _).mem_iff.mp member) b
    ((perm.trans (List.perm_insertionSort _ _).symm).mem_iff.mpr member') score time name

def orderBy (f : α → Row (Reranked σ)) (needsMultiEvidence : Bool) (as : List α) : List α :=
  let ranked := sortedBy f (fun item => item.record.ts) (fun item => item.record.recordId) as
  if !needsMultiEvidence || ranked.length < 3 then ranked
  else diversifiedBy f (12 / 100) (fun item => item.record.ts) (ranked.length - 1) ranked

section Order

variable {f : α → Row (Reranked σ)} {needsMultiEvidence : Bool}

theorem orderBy_map (as : List α) : (orderBy f needsMultiEvidence as).map f = orderRows needsMultiEvidence (as.map f) := by
  unfold orderBy orderRows
  dsimp only
  rw [← sortedBy_map,List.length_map]
  split
  · rfl
  · rw [diversifiedBy_map]

theorem orderBy_perm (f : α → Row (Reranked σ)) (needsMultiEvidence : Bool) (as : List α) : (orderBy f needsMultiEvidence as).Perm as := by
  unfold orderBy
  dsimp only
  split
  · exact sortedBy_perm f as
  · obtain ⟨left,perm⟩ := diversifiedBy_subperm f (12 / 100) (fun item => item.record.ts)
      ((sortedBy f (fun item => item.record.ts) (fun item => item.record.recordId) as).length - 1)
      (sortedBy f (fun item => item.record.ts) (fun item => item.record.recordId) as)
    have size := perm.length_eq
    rw [List.length_append,diversifiedBy_length] at size
    have none_left : left = [] := List.length_eq_zero_iff.mp (by omega)
    rw [none_left,List.append_nil] at perm
    exact perm.trans (sortedBy_perm f as)

theorem orderRows_perm (rows : List (Row (Reranked σ))) : (orderRows needsMultiEvidence rows).Perm rows := by
  have same : (orderBy id needsMultiEvidence rows).map id = orderRows needsMultiEvidence (rows.map id) := orderBy_map rows
  rw [List.map_id,List.map_id] at same
  rw [← same]
  exact orderBy_perm id _ rows

theorem orderBy_keeps {as : List α} {a b : α} (order : [a,b].Sublist as) (score : (f a).score = (f b).score)
    (time : (f a).item.record.ts = (f b).item.record.ts) (name : (f a).item.record.recordId = (f b).item.record.recordId)
    (terms : (f a).terms = (f b).terms) : [a,b].Sublist (orderBy f needsMultiEvidence as) := by
  have ranked := sortedBy_keeps (fun item : Reranked σ => item.record.ts) (fun item => item.record.recordId) f order score time name
  unfold orderBy
  dsimp only
  split
  · exact ranked
  · exact diversifiedBy_keeps f (12 / 100) ranked score time terms

theorem score_le_first {rows : List (Row (Reranked σ))} {first : Row (Reranked σ)} (head : first ∈ (orderRows needsMultiEvidence rows).head?)
    {row : Row (Reranked σ)} (inside : row ∈ rows) : row.score ≤ first.score := by
  unfold orderRows at head
  dsimp only at head
  split at head
  · exact score_le_head _ _ head inside
  · refine score_le_head (fun item => item.record.ts) (fun item => item.record.recordId) ?_ inside
    cases whole : sorted (fun item : Reranked σ => item.record.ts) (fun item => item.record.recordId) rows with
    | nil =>
      rw [whole] at head
      exact head
    | cons top rest =>
      rw [whole] at head
      exact head

end Order

section Places

variable {as : List α} {a b : α} {i j : Nat}

theorem pair_sublist (before : i < j) (first : as[i]? = some a) (second : as[j]? = some b) : [a,b].Sublist as := by
  rw [← List.take_append_drop j as]
  have early : a ∈ as.take j := List.mem_of_getElem? (by rw [List.getElem?_take_of_lt before]; exact first)
  have late : b ∈ as.drop j := List.mem_of_getElem? (i := 0) (by rw [List.getElem?_drop,Nat.add_zero]; exact second)
  exact (List.singleton_sublist.mpr early).append (List.singleton_sublist.mpr late)

theorem getElem?_of_mem_zipIdx {p : α × Nat} (inside : p ∈ as.zipIdx) : as[p.2]? = some p.1 :=
  (List.mk_mem_zipIdx_iff_getElem? (x := p.1) (i := p.2)).mp inside

theorem zipIdx_places (as : List α) : as.zipIdx.map Prod.snd = List.range as.length := by
  rw [List.zipIdx_map_snd,List.range_eq_range']

theorem pair_sublist_zipIdx (before : i < j) (first : as[i]? = some a) (second : as[j]? = some b) : [(a,i),(b,j)].Sublist as.zipIdx :=
  pair_sublist before (by rw [List.getElem?_zipIdx,first,Nat.zero_add]; rfl) (by rw [List.getElem?_zipIdx,second,Nat.zero_add]; rfl)

end Places

variable {lang : Language} {query : String} {rolesById : String → List String} {records : List (Record σ)}

theorem rows_zipIdx (row : Record σ → ι) (records : List (Record σ)) :
    records.zipIdx.map (fun p : Record σ × Nat => row p.1) = records.map row := by
  have firsts : (records.zipIdx.map Prod.fst).map row = records.map row := by rw [List.zipIdx_map_fst]
  rwa [List.map_map] at firsts

theorem rerankNoteRecords_eq : rerankNoteRecords lang query records rolesById =
    (orderBy (fun p : Record σ × Nat => rerankRow lang query rolesById records p.1) (parseQueryConstraints lang query).needsMultiEvidence
      records.zipIdx).map (fun p => (rerankRow lang query rolesById records p.1).item) := by
  unfold rerankNoteRecords
  split
  · rename_i empty
    obtain rfl := List.isEmpty_iff.mp empty
    have none : orderBy (fun p : Record σ × Nat => rerankRow lang query rolesById [] p.1) (parseQueryConstraints lang query).needsMultiEvidence
        ([] : List (Record σ)).zipIdx = [] := (orderBy_perm _ _ _).eq_nil
    rw [none]
    rfl
  · rw [← rows_zipIdx,← orderBy_map,List.map_map]
    rfl

structure Reranks (lang : Language) (query : String) (records : List (Record σ)) (rolesById : String → List String) : Prop where
  permutation : ((rerankNoteRecords lang query records rolesById).map Reranked.record).Perm records
  best_first : ∀ first ∈ (rerankNoteRecords lang query records rolesById).head?, ∀ r ∈ records,
    constraintScore lang query rolesById records r ≤ constraintScore lang query rolesById records first.record
  /-- Notes with equal scores, times and ids keep their order. -/
  stable : ∃ order : List Nat, order.Perm (List.range records.length) ∧
    (rerankNoteRecords lang query records rolesById).map (fun item => some item.record) = order.map (records[·]?) ∧
    ∀ (i j : Nat) a b, i < j → records[i]? = some a → records[j]? = some b →
      constraintScore lang query rolesById records a = constraintScore lang query rolesById records b →
      a.ts = b.ts → a.recordId = b.recordId → [i,j].Sublist order
  /-- The rows ranked again, in another order with the same scores, come out in the same order. -/
  unmoved : ∀ rows', rows'.Perm (records.map (rerankRow lang query rolesById records)) →
    (∀ a ∈ rows', ∀ b ∈ rows', a.score = b.score → a.item.record.ts = b.item.record.ts → a.item.record.recordId = b.item.record.recordId → a = b) →
    (orderRows (parseQueryConstraints lang query).needsMultiEvidence rows').map Row.item = rerankNoteRecords lang query records rolesById

structure Selects (lang : Language) (query : String) (records : List (Record σ)) (limit : Int) : Prop where
  count : (selectAnswerEvidence lang query records limit).length =
    min records.length (max 1 (min limit (if (parseQueryConstraints lang query).needsMultiEvidence then 5 else 3))).toNat
  places : ∃ order : List Nat, order.Nodup ∧ (∀ i ∈ order, i < records.length) ∧
    (selectAnswerEvidence lang query records limit).map (fun item => some item.record) = order.map (records[·]?)
  ranks : (selectAnswerEvidence lang query records limit).map AnswerEvidence.answerEvidenceRank =
    List.range' 1 (selectAnswerEvidence lang query records limit).length

theorem rerankNoteRecords_reranks (lang : Language) (query : String) (records : List (Record σ)) (rolesById : String → List String) :
    Reranks lang query records rolesById where
  permutation := by
    have perm := (orderBy_perm (fun p : Record σ × Nat => rerankRow lang query rolesById records p.1)
      (parseQueryConstraints lang query).needsMultiEvidence records.zipIdx).map Prod.fst
    rw [List.zipIdx_map_fst] at perm
    rw [rerankNoteRecords_eq,List.map_map]
    exact perm
  best_first := by
    intro first head r inside
    unfold rerankNoteRecords at head
    split at head
    · cases head
    · rw [List.head?_map,Option.mem_map] at head
      obtain ⟨top,head,rfl⟩ := head
      have le := score_le_first head (List.mem_map_of_mem inside)
      obtain ⟨best,_,rfl⟩ := List.mem_map.mp ((orderRows_perm _).mem_iff.mp (List.mem_of_mem_head? head))
      exact le
  stable := by
    refine ⟨(orderBy (fun p : Record σ × Nat => rerankRow lang query rolesById records p.1)
      (parseQueryConstraints lang query).needsMultiEvidence records.zipIdx).map Prod.snd,?_,?_,?_⟩
    · rw [← zipIdx_places]
      exact (orderBy_perm _ _ _).map _
    · rw [rerankNoteRecords_eq,List.map_map,List.map_map]
      apply List.map_congr_left
      intro p inside
      exact (getElem?_of_mem_zipIdx ((orderBy_perm _ _ _).mem_iff.mp inside)).symm
    · intro i j a b before first second score time name
      have terms : termsOf lang records a = termsOf lang records b := by
        unfold termsOf
        rw [name]
      exact (orderBy_keeps (pair_sublist_zipIdx before first second) score time name terms).map Prod.snd
  unmoved := by
    intro rows' perm apart
    have ranked := sorted_eq_of_perm (fun item : Reranked σ => item.record.ts) (fun item => item.record.recordId) perm apart
    have same : orderRows (parseQueryConstraints lang query).needsMultiEvidence rows' =
        orderRows (parseQueryConstraints lang query).needsMultiEvidence (records.map (rerankRow lang query rolesById records)) := by
      unfold orderRows
      rw [ranked]
    rw [same,rerankNoteRecords]
    split
    · rename_i empty
      obtain rfl := List.isEmpty_iff.mp empty
      rw [List.map_nil,(orderRows_perm []).eq_nil]
      rfl
    · rfl

/-- The rows of the answer evidence, with their places. -/
def evidenceOrder (lang : Language) (query : String) (records : List (Record σ)) (limit : Int) : List (Record σ × Nat) :=
  let constraints := parseQueryConstraints lang query
  diversifiedBy (fun p : Record σ × Nat => evidenceRow lang query records p.2 p.1) (if constraints.needsMultiEvidence then 10 / 100 else 18 / 100)
    (fun item => item.record.recordTimestamp) (target constraints.needsMultiEvidence limit - 1)
    (sortedBy (fun p : Record σ × Nat => evidenceRow lang query records p.2 p.1) (fun item => item.record.recordTimestamp)
      (fun item => item.record.recordId) records.zipIdx)

theorem selectAnswerEvidence_eq (limit : Int) : selectAnswerEvidence lang query records limit =
    ((evidenceOrder lang query records limit).map (fun p => evidenceRow lang query records p.2 p.1)).zipIdx.map
      (fun p => {p.1.item with answerEvidenceRank := p.2 + 1,answerEvidenceSelected := true}) := by
  unfold selectAnswerEvidence evidenceOrder
  dsimp only
  rw [diversifiedBy_map,sortedBy_map]
  split
  · rename_i empty
    obtain rfl := List.isEmpty_iff.mp empty
    rfl
  · rfl

theorem evidenceOrder_subperm (lang : Language) (query : String) (records : List (Record σ)) (limit : Int) : ∃ left, (evidenceOrder lang query records limit ++ left).Perm records.zipIdx := by
  obtain ⟨left,perm⟩ := diversifiedBy_subperm (fun p : Record σ × Nat => evidenceRow lang query records p.2 p.1)
    (if (parseQueryConstraints lang query).needsMultiEvidence then 10 / 100 else 18 / 100) (fun item => item.record.recordTimestamp)
    (target (parseQueryConstraints lang query).needsMultiEvidence limit - 1)
    (sortedBy (fun p : Record σ × Nat => evidenceRow lang query records p.2 p.1) (fun item => item.record.recordTimestamp)
      (fun item => item.record.recordId) records.zipIdx)
  exact ⟨left,perm.trans (sortedBy_perm _ _)⟩

theorem selectAnswerEvidence_selects (lang : Language) (query : String) (records : List (Record σ)) (limit : Int) :
    Selects lang query records limit where
  count := by
    rw [selectAnswerEvidence_eq,List.length_map,List.length_zipIdx,List.length_map,evidenceOrder]
    rw [diversifiedBy_length,(sortedBy_perm _ _).length_eq,List.length_zipIdx,target]
    split <;> omega
  places := by
    obtain ⟨left,perm⟩ := evidenceOrder_subperm lang query records limit
    have all := perm.map Prod.snd
    rw [zipIdx_places,List.map_append] at all
    refine ⟨(evidenceOrder lang query records limit).map Prod.snd,?_,?_,?_⟩
    · exact (List.nodup_append.mp (all.nodup_iff.mpr List.nodup_range)).1
    · intro i inside
      exact List.mem_range.mp (all.mem_iff.mp (List.mem_append_left _ inside))
    · rw [selectAnswerEvidence_eq,List.map_map]
      have records_of : ∀ rows : List (Row (AnswerEvidence σ)),
          rows.zipIdx.map (fun p => some {p.1.item with answerEvidenceRank := p.2 + 1,answerEvidenceSelected := true}.record) =
            rows.map (fun row => some row.item.record) := by
        intro rows
        have firsts : (rows.zipIdx.map Prod.fst).map (fun row => some row.item.record) = rows.map (fun row => some row.item.record) := by
          rw [List.zipIdx_map_fst]
        rwa [List.map_map] at firsts
      refine (records_of _).trans ?_
      rw [List.map_map,List.map_map]
      apply List.map_congr_left
      intro p inside
      exact (getElem?_of_mem_zipIdx (perm.mem_iff.mp (List.mem_append_left _ inside))).symm
  ranks := by
    rw [selectAnswerEvidence_eq,List.map_map,List.length_map,List.length_zipIdx]
    have places : ∀ rows : List (Row (AnswerEvidence σ)),
        rows.zipIdx.map (fun p => {p.1.item with answerEvidenceRank := p.2 + 1,answerEvidenceSelected := true}.answerEvidenceRank) =
          List.range' 1 rows.length := by
      intro rows
      have seconds : (rows.zipIdx.map Prod.snd).map (· + 1) = List.range' 1 rows.length := by
        rw [List.zipIdx_map_snd,List.range'_succ_left]
      rwa [List.map_map] at seconds
    exact places _

/-- Reranking and the choice of answer evidence, of every query and every list of notes. -/
theorem reranking (lang : Language) (query : String) (records : List (Record σ)) (rolesById : String → List String) (limit : Int) :
    Reranks lang query records rolesById ∧ Selects lang query records limit :=
  ⟨rerankNoteRecords_reranks lang query records rolesById,selectAnswerEvidence_selects lang query records limit⟩

end Suixinji.Retrieval.NoteReranker
