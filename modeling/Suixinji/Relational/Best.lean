import Mathlib.Data.List.Dedup
import Mathlib.Data.List.Induction
import Mathlib.Data.Prod.Lex
import Suixinji.Relational.Ranking

/-! The best element of each key, ranked, and the first few of them: when they do not depend
on the order in which the elements came. -/
namespace Suixinji.Best
open Ranking

variable {α κ S ι : Type} [DecidableEq κ] [LinearOrder S] [LinearOrder ι] {key : α → κ} {score : α → S} {name : α → ι}

/-- An element in a table of one element a key: a better one takes the place of the one there. -/
def place (key : α → κ) (score : α → S) (a : α) : List α → List α
  | [] => [a]
  | b::kept => if key b = key a then (if score b < score a then a else b)::kept else b::place key score a kept

def best (key : α → κ) (score : α → S) (as : List α) : List α := as.foldl (fun kept a => place key score a kept) []

/-- Sorted by name, and then by score, the greatest first. -/
def ranked (name : α → ι) (score : α → S) (as : List α) : List α :=
  (as.insertionSort (fun a b => name a ≤ name b)).insertionSort (fun a b => score b ≤ score a)

def shown (key : α → κ) (name : α → ι) (score : α → S) (n : Nat) (as : List α) : List α := (ranked name score (best key score as)).take n

def Precedes (name : α → ι) (score : α → S) (a b : α) : Prop := score b < score a ∨ score b = score a ∧ name a < name b

theorem best_snoc (as : List α) (a : α) : best key score (as ++ [a]) = place key score a (best key score as) := List.foldl_append

theorem find?_place (a : α) (kept : List α) (k : κ) : (place key score a kept).find? (fun b => key b = k) =
    if key a = k then some (match kept.find? (fun b => key b = k) with | none => a | some b => if score b < score a then a else b)
    else kept.find? (fun b => key b = k) := by
  induction kept with
  | nil =>
    rw [place,List.find?_cons,List.find?_nil]
    by_cases same : key a = k <;> simp [same]
  | cons b kept ih =>
    rw [place]
    by_cases here : key b = key a
    · rw [if_pos here]
      by_cases same : key a = k
      · have first : key b = k := here.trans same
        have both : key (if score b < score a then a else b) = k := by split <;> assumption
        rw [if_pos same,List.find?_cons_of_pos (by simpa using both),List.find?_cons_of_pos (by simpa using first)]
      · have first : key b ≠ k := fun its => same (here.symm.trans its)
        have both : key (if score b < score a then a else b) ≠ k := by split <;> assumption
        rw [if_neg same,List.find?_cons_of_neg (by simpa using both),List.find?_cons_of_neg (by simpa using first)]
    · rw [if_neg here]
      by_cases first : key b = k
      · have other : key a ≠ k := fun its => here (first.trans its.symm)
        rw [if_neg other,List.find?_cons_of_pos (by simpa using first),List.find?_cons_of_pos (by simpa using first)]
      · rw [List.find?_cons_of_neg (by simpa using first),ih,List.find?_cons_of_neg (by simpa using first)]

theorem find?_best (as : List α) (k : κ) : (best key score as).find? (fun b => key b = k) =
    greatest (fun a b => score a < score b) (as.filter (fun b => key b = k)) := by
  induction as using List.reverseRecOn with
  | nil => rfl
  | append_singleton as a ih =>
    rw [best_snoc,find?_place,ih,List.filter_append]
    by_cases same : key a = k
    · rw [if_pos same,List.filter_cons_of_pos (by simpa using same),List.filter_nil,greatest_snoc]
      cases greatest (fun a b => decide (score a < score b)) (as.filter (fun b => key b = k)) with
      | none => rfl
      | some b => simp
    · rw [if_neg same,List.filter_cons_of_neg (by simpa using same),List.filter_nil,List.append_nil]

theorem keys_place (a : α) (kept : List α) : (place key score a kept).map key =
    if key a ∈ kept.map key then kept.map key else kept.map key ++ [key a] := by
  induction kept with
  | nil => rfl
  | cons b kept ih =>
    rw [place]
    by_cases here : key b = key a
    · have both : key (if score b < score a then a else b) = key b := by
        split
        · exact here.symm
        · rfl
      have seen : key a ∈ (b::kept).map key := List.mem_map.mpr ⟨b,List.mem_cons_self,here⟩
      rw [if_pos here,if_pos seen,List.map_cons,both]
      rfl
    · rw [if_neg here,List.map_cons,ih,List.map_cons]
      by_cases seen : key a ∈ kept.map key
      · rw [if_pos seen,if_pos (List.mem_cons_of_mem _ seen)]
      · rw [if_neg seen,if_neg (by simpa [Ne.symm here] using seen)]
        rfl

theorem keys_best (key : α → κ) (score : α → S) (as : List α) : ((best key score as).map key).Nodup ∧ ∀ k, k ∈ (best key score as).map key ↔ k ∈ as.map key := by
  induction as using List.reverseRecOn with
  | nil => exact ⟨List.nodup_nil,fun _ => Iff.rfl⟩
  | append_singleton as a ih =>
    obtain ⟨once,same⟩ := ih
    rw [best_snoc,keys_place]
    split
    · rename_i seen
      refine ⟨once,fun k => ?_⟩
      rw [List.map_append,List.mem_append,← same k]
      refine ⟨.inl,fun h => h.elim id (fun last => ?_)⟩
      rwa [List.mem_singleton.mp last]
    · rename_i new
      refine ⟨?_,fun k => ?_⟩
      · rw [List.nodup_append]
        exact ⟨once,List.nodup_singleton _,fun k old k' last apart => new (List.mem_singleton.mp last ▸ apart ▸ old)⟩
      · rw [List.map_append,List.mem_append,List.mem_append,same k]
        rfl

theorem mem_best {as : List α} {a : α} :
    a ∈ best key score as ↔ greatest (fun a b => score a < score b) (as.filter (fun b => key b = key a)) = some a := by
  rw [← find?_best]
  constructor
  · intro inside
    obtain ⟨before,after,split⟩ := List.append_of_mem inside
    have once := (keys_best key score as).1
    rw [split,List.map_append,List.nodup_append] at once
    rw [List.find?_eq_some_iff_append]
    refine ⟨by simp,before,after,split,fun b early => ?_⟩
    simpa using once.2.2 (key b) (List.mem_map_of_mem early) (key a) List.mem_cons_self
  · exact List.mem_of_find?_eq_some

/-- The measure of the ranking. -/
def standing (name : α → ι) (score : α → S) (a : α) : Sᵒᵈ ×ₗ ι := toLex (OrderDual.toDual (score a),name a)

theorem standing_lt {a b : α} : standing name score a < standing name score b ↔ Precedes name score a b := by
  unfold standing Precedes
  rw [Prod.Lex.toLex_lt_toLex,OrderDual.toDual_lt_toDual]
  refine or_congr_right (and_congr_left (fun _ => ?_))
  exact ⟨fun same => (OrderDual.toDual_inj.mp same).symm,fun same => congrArg OrderDual.toDual same.symm⟩

theorem ranked_perm (as : List α) : (ranked name score as).Perm as :=
  (List.perm_insertionSort _ _).trans (List.perm_insertionSort _ _)

theorem ranked_sorted {as : List α} (distinct : (as.map name).Nodup) :
    (ranked name score as).Pairwise (fun a b => standing name score a < standing name score b) := by
  have total : Std.Total (fun a b : α => name a ≤ name b) := ⟨fun a b => le_total (name a) (name b)⟩
  have trans : IsTrans α (fun a b => name a ≤ name b) := ⟨fun _ _ _ first second => first.trans second⟩
  have named : (as.insertionSort (fun a b => name a ≤ name b)).Pairwise (fun a b => name a < name b) := by
    have once : (as.insertionSort (fun a b => name a ≤ name b)).Pairwise (fun a b => name a ≠ name b) :=
      List.pairwise_map.mp (((List.perm_insertionSort _ as).map name).nodup_iff.mpr distinct)
    refine ((List.pairwise_insertionSort _ as).and once).imp ?_
    rintro a b ⟨le,apart⟩
    exact le.lt_of_ne apart
  refine (insertionSort_keeps (fun a b => le_total (score b) (score a)) (fun _ _ _ first second => second.trans first) named).imp ?_
  rintro a b ⟨ge,ties⟩
  rw [standing_lt]
  rcases ge.lt_or_eq with less | same
  · exact .inl less
  · exact .inr ⟨same,ties same.ge⟩

/-- The ranking does not depend on the order. -/
theorem ranked_eq_of_perm {as bs : List α} (distinct : (as.map name).Nodup) (perm : as.Perm bs) : ranked name score as = ranked name score bs := by
  have all : (ranked name score as).Perm (ranked name score bs) := (ranked_perm as).trans (perm.trans (ranked_perm bs).symm)
  refine all.eq_of_pairwise ?_ (ranked_sorted distinct) (ranked_sorted ((perm.map name).nodup_iff.mp distinct))
  intro a b _ _ below above
  exact absurd above below.not_gt

section Shown

variable {as bs : List α} {a b : α} {n : Nat}

theorem best_subset (inside : a ∈ best key score as) : a ∈ as := (List.mem_filter.mp (greatest_mem (mem_best.mp inside))).1

/-- An element that no other of its key is better than. -/
def Leads (key : α → κ) (score : α → S) (as : List α) (a : α) : Prop := a ∈ as ∧ ∀ b ∈ as, key b = key a → score b ≤ score a

omit [DecidableEq κ] in
theorem Leads.of_perm (leads : Leads key score as a) (perm : as.Perm bs) : Leads key score bs a :=
  ⟨perm.mem_iff.mp leads.1,fun b inside => leads.2 b (perm.mem_iff.mpr inside)⟩

theorem leads_of_best (inside : a ∈ best key score as) : Leads key score as a := by
  refine ⟨best_subset inside,fun b member same => ?_⟩
  have agrees (x y : α) : decide (score x < score y) = true ↔ score x < score y := decide_eq_true_iff
  exact le_greatest agrees (mem_best.mp inside) b (List.mem_filter.mpr ⟨member,decide_eq_true same⟩)

theorem eq_of_best (first : a ∈ best key score as) (second : b ∈ best key score as) (same : key a = key b) : a = b := by
  have found := mem_best.mp first
  rw [same,mem_best.mp second] at found
  exact (Option.some.inj found).symm

/-- Some element leads for each key. -/
theorem exists_best (score : α → S) (inside : a ∈ as) : ∃ b ∈ best key score as, key b = key a :=
  List.mem_map.mp (((keys_best key score as).2 (key a)).mpr (List.mem_map_of_mem inside))

omit [LinearOrder ι] in
theorem names_best (distinct : (as.map name).Nodup) : ((best key score as).map name).Nodup := by
  have once : (best key score as).Nodup := List.Nodup.of_map key (keys_best key score as).1
  rw [List.nodup_map_iff_inj_on once]
  intro a first b second same
  exact List.inj_on_of_nodup_map distinct (best_subset first) (best_subset second) same

theorem mem_shown (distinct : (as.map name).Nodup) : a ∈ shown key name score n as ↔ a ∈ best key score as ∧
    ((best key score as).filter (fun b => standing name score b < standing name score a)).length < n := by
  classical
  have sorted : (ranked name score (best key score as)).Pairwise (fun a b => standing name score a < standing name score b) :=
    ranked_sorted (names_best distinct)
  have perm : (ranked name score (best key score as)).Perm (best key score as) := ranked_perm _
  rw [shown,← perm.mem_iff,← (perm.filter _).length_eq]
  constructor
  · intro early
    have inside := List.mem_of_mem_take early
    refine ⟨inside,?_⟩
    rw [← idxOf_eq_length_filter sorted inside]
    have once : (ranked name score (best key score as)).Nodup := sorted.imp (fun less same => by rw [same] at less; exact lt_irrefl _ less)
    obtain ⟨i,bound,rfl⟩ := List.mem_take_iff_getElem.mp early
    rw [once.idxOf_getElem]
    omega
  · rintro ⟨inside,before⟩
    rw [← idxOf_eq_length_filter sorted inside] at before
    have bound := List.idxOf_lt_length_of_mem inside
    rw [List.mem_take_iff_getElem]
    exact ⟨_,by omega,List.getElem_idxOf bound⟩

theorem shown_once (as : List α) : ((shown key name score n as).map key).Nodup :=
  ((((ranked_perm _).map key).nodup_iff.mpr (keys_best key score as).1).sublist ((List.take_sublist _ _).map key))

theorem length_best (as : List α) : (best key score as).length = (as.map key).dedup.length := by
  rw [← List.length_map key]
  apply List.Perm.length_eq
  rw [List.perm_ext_iff_of_nodup (keys_best key score as).1 (List.nodup_dedup _)]
  intro k
  rw [(keys_best key score as).2 k,List.mem_dedup]

theorem length_shown (as : List α) : (shown key name score n as).length = min n (as.map key).dedup.length := by
  rw [shown,List.length_take,(ranked_perm _).length_eq,length_best]

theorem exists_shown (room : (as.map key).dedup.length ≤ n) (inside : a ∈ as) : ∃ b ∈ shown key name score n as, key b = key a := by
  obtain ⟨b,there,same⟩ : ∃ b ∈ best key score as, key b = key a := exists_best score inside
  refine ⟨b,?_,same⟩
  rw [shown,List.take_of_length_le (by rw [(ranked_perm _).length_eq,length_best]; exact room)]
  exact (ranked_perm _).mem_iff.mpr there

/-- Where several elements lead for one key, there are so many keys before any of them that none is shown. -/
def Settled (key : α → κ) (name : α → ι) (score : α → S) (n : Nat) (as : List α) : Prop :=
  ∀ a b, Leads key score as a → Leads key score as b → key a = key b → a ≠ b →
    ∃ ks : List κ, ks.Nodup ∧ ks.length = n ∧ ∀ k ∈ ks, k ∈ as.map key ∧ ∀ c, Leads key score as c → key c = k → Precedes name score c a

/-- The keys before an element fill the places before what comes no earlier. -/
theorem ahead_of_keys {ks : List κ} (once : ks.Nodup) (perm : bs.Perm as)
    (ahead : ∀ k ∈ ks, k ∈ as.map key ∧ ∀ c, Leads key score as c → key c = k → Precedes name score c a)
    (le : standing name score a ≤ standing name score b) :
    ks.length ≤ ((best key score bs).filter (fun c => standing name score c < standing name score b)).length := by
  have inside : ks ⊆ ((best key score bs).filter (fun c => standing name score c < standing name score b)).map key := by
    intro k member
    obtain ⟨there,before⟩ := ahead k member
    obtain ⟨c,member',rfl⟩ := List.mem_map.mp there
    obtain ⟨d,leader,same⟩ : ∃ d ∈ best key score bs, key d = key c := exists_best score (perm.mem_iff.mpr member')
    have less := standing_lt.mpr (before d ((leads_of_best leader).of_perm perm) same)
    exact List.mem_map.mpr ⟨d,List.mem_filter.mpr ⟨leader,decide_eq_true (less.trans_le le)⟩,same⟩
  have short := (List.subperm_of_subset once inside).length_le
  rwa [List.length_map] at short

theorem Settled.shows {cs : List α} (settled : Settled key name score n as) (distinct : (as.map name).Nodup) (permB : bs.Perm as)
    (permC : cs.Perm as) (inside : a ∈ shown key name score n bs) : a ∈ shown key name score n cs := by
  have distinctB : (bs.map name).Nodup := (permB.map name).nodup_iff.mpr distinct
  have distinctC : (cs.map name).Nodup := (permC.map name).nodup_iff.mpr distinct
  obtain ⟨leader,before⟩ := (mem_shown distinctB).mp inside
  -- A key with several leaders comes after too many others, so what comes before here is the same in both orders.
  have alone (x : α) (le : standing name score x ≤ standing name score a) (leads : Leads key score as x) (y : α)
      (leads' : Leads key score as y) (same : key x = key y) : x = y := by
    by_contra apart
    obtain ⟨ks,once,size,ahead⟩ := settled x y leads leads' same apart
    have many := ahead_of_keys once permB ahead le
    omega
  have moves (x : α) (le : standing name score x ≤ standing name score a) {ds es : List α} (permD : ds.Perm as) (permE : es.Perm as)
      (best_ : x ∈ best key score ds) : x ∈ best key score es := by
    have leads := (leads_of_best best_).of_perm permD
    obtain ⟨y,there,same⟩ : ∃ y ∈ best key score es, key y = key x := exists_best score (permE.mem_iff.mpr leads.1)
    rwa [alone x le leads y ((leads_of_best there).of_perm permE) same.symm]
  refine (mem_shown distinctC).mpr ⟨moves a le_rfl permB permC leader,lt_of_le_of_lt ?_ before⟩
  have once : ((best key score cs).filter (fun c => standing name score c < standing name score a)).Nodup :=
    (List.Nodup.of_map key (keys_best key score cs).1).filter _
  refine (List.subperm_of_subset once fun x early => ?_).length_le
  obtain ⟨there,less⟩ := List.mem_filter.mp early
  exact List.mem_filter.mpr ⟨moves x (of_decide_eq_true less).le permC permB there,less⟩

/-- An element that leads and comes before the others of its key is the one in the table. -/
theorem best_of_first {before after : List α} (leads : Leads key score (before ++ a::after) a) (first : ∀ b ∈ before, key b ≠ key a) :
    a ∈ best key score (before ++ a::after) := by
  have none_before : before.filter (fun b => key b = key a) = [] := by
    rw [List.filter_eq_nil_iff]
    intro b early
    simpa using first b early
  rw [mem_best,List.filter_append,none_before,List.nil_append,List.filter_cons_of_pos (by simp)]
  apply greatest_of_first
  intro b inside
  obtain ⟨member,same⟩ := List.mem_filter.mp inside
  rw [decide_eq_false_iff_not,not_lt]
  exact leads.2 b (List.mem_append_right _ (List.mem_cons_of_mem _ member)) (of_decide_eq_true same)

theorem best_of_kind {p : α → Bool} (kind : ∀ b ∈ as, p b = true → Leads key score as b) (inside : a ∈ as) (meets : p a = true)
    (best_ : b ∈ best key score (as.filter p ++ as.filter (fun c => !p c))) (same : key b = key a) : p b = true := by
  have perm : (as.filter p ++ as.filter (fun c => !p c)).Perm as := List.filter_append_perm p as
  -- The first of its key among those of the kind is in the table.
  obtain ⟨c,found⟩ : ∃ c, (as.filter p).find? (fun c => key c = key a) = some c :=
    Option.isSome_iff_exists.mp (List.find?_isSome.mpr ⟨a,List.mem_filter.mpr ⟨inside,meets⟩,by simp⟩)
  obtain ⟨its,before,after,split,others⟩ := List.find?_eq_some_iff_append.mp found
  have member : c ∈ as.filter p := List.mem_of_find?_eq_some found
  obtain ⟨there,meets'⟩ := List.mem_filter.mp member
  have leads := (kind c there meets').of_perm perm.symm
  rw [split,List.append_assoc,List.cons_append] at leads best_
  have same' : key c = key a := of_decide_eq_true its
  have leader := best_of_first leads (fun d early => by
    have other := others d early
    rw [same']
    simpa using other)
  rw [eq_of_best best_ leader (same.trans same'.symm)]
  exact meets'

/-- What is put first, so that as few keys as possible come before an element. -/
def Foremost (key : α → κ) (name : α → ι) (score : α → S) (as : List α) (a c : α) : Prop :=
  c = a ∨ key c ≠ key a ∧ Leads key score as c ∧ ¬Precedes name score c a

/-- In some order only those keys come before an element whose leaders all do. -/
theorem exists_latest (name : α → ι) (leads : Leads key score as a) : ∃ bs, bs.Perm as ∧ a ∈ best key score bs ∧
    ∀ c ∈ best key score bs, Precedes name score c a → ∀ d, Leads key score as d → key d = key c → Precedes name score d a := by
  classical
  have perm : (as.filter (fun c => Foremost key name score as a c) ++ as.filter (fun c => !Foremost key name score as a c)).Perm as :=
    List.filter_append_perm _ as
  have kind : ∀ c ∈ as, decide (Foremost key name score as a c) = true → Leads key score as c := by
    intro c _ meets
    rcases of_decide_eq_true meets with rfl | ⟨_,leads',_⟩
    · exact leads
    · exact leads'
  refine ⟨_,perm,?_,?_⟩
  · obtain ⟨c,there,same⟩ : ∃ c ∈ best key score _, key c = key a := exists_best score (perm.mem_iff.mpr leads.1)
    have meets := best_of_kind kind leads.1 (decide_eq_true (.inl rfl)) there same
    rcases of_decide_eq_true meets with rfl | ⟨other,_⟩
    · exact there
    · exact absurd same other
  · intro c there before d leads' same
    by_contra late
    by_cases its : key d = key a
    · have meets := best_of_kind kind leads.1 (decide_eq_true (.inl rfl)) there (same.symm.trans its)
      rcases of_decide_eq_true meets with rfl | ⟨other,_⟩
      · exact lt_irrefl _ (standing_lt.mpr before)
      · exact other (same.symm.trans its)
    · have meets := best_of_kind kind leads'.1 (decide_eq_true (.inr ⟨its,leads',late⟩)) there same.symm
      rcases of_decide_eq_true meets with rfl | ⟨_,_,late'⟩
      · exact its same
      · exact late' before

/-- What is shown does not depend on the order exactly when no key with several leaders can be shown. -/
theorem shown_eq_iff (distinct : (as.map name).Nodup) :
    (∀ bs, bs.Perm as → shown key name score n bs = shown key name score n as) ↔ Settled key name score n as := by
  constructor
  · intro same a b leadsA leadsB same_key apart
    -- Put first, `b` is in the table in the place of `a`.
    have hidden : a ∉ shown key name score n as := by
      intro there
      obtain ⟨before,after,split⟩ := List.append_of_mem leadsB.1
      have perm : (b::(before ++ after)).Perm as := split ▸ List.perm_middle.symm
      rw [← same _ perm,mem_shown ((perm.map name).nodup_iff.mpr distinct)] at there
      have first : b ∈ best key score ([] ++ b::(before ++ after)) :=
        best_of_first (leadsB.of_perm perm.symm) (fun c none => absurd none List.not_mem_nil)
      exact apart (eq_of_best there.1 first same_key)
    obtain ⟨bs,perm,leader,before⟩ := exists_latest name leadsA
    rw [← same _ perm,mem_shown ((perm.map name).nodup_iff.mpr distinct),not_and,not_lt] at hidden
    have many := hidden leader
    refine ⟨(((best key score bs).filter (fun c => standing name score c < standing name score a)).map key).take n,?_,?_,?_⟩
    · exact ((keys_best key score bs).1.sublist (List.filter_sublist.map _)).sublist (List.take_sublist _ _)
    · rw [List.length_take,List.length_map]
      omega
    · intro k member
      obtain ⟨c,inside,rfl⟩ := List.mem_map.mp (List.mem_of_mem_take member)
      obtain ⟨there,less⟩ := List.mem_filter.mp inside
      exact ⟨List.mem_map_of_mem (perm.mem_iff.mp (best_subset there)),before c there (standing_lt.mp (of_decide_eq_true less))⟩
  · intro settled bs perm
    have distinct' := (perm.map name).nodup_iff.mpr distinct
    have sorted (cs : List α) (once : (cs.map name).Nodup) :
        (shown key name score n cs).Pairwise (fun a b => standing name score a < standing name score b) :=
      (ranked_sorted (names_best once)).sublist (List.take_sublist _ _)
    have once (cs : List α) (distinct : (cs.map name).Nodup) : (shown key name score n cs).Nodup :=
      (sorted cs distinct).imp (fun less same => by rw [same] at less; exact lt_irrefl _ less)
    have all : (shown key name score n bs).Perm (shown key name score n as) := by
      rw [List.perm_ext_iff_of_nodup (once bs distinct') (once as distinct)]
      exact fun a => ⟨settled.shows distinct perm (.refl _),settled.shows distinct (.refl _) perm⟩
    refine all.eq_of_pairwise ?_ (sorted bs distinct') (sorted as distinct)
    intro a b _ _ below above
    exact absurd above below.not_gt

end Shown

end Suixinji.Best
