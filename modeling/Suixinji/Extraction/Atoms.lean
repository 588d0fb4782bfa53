import Mathlib.Data.Prod.Lex
import Mathlib.Data.String.Basic
import Suixinji.Extraction.Candidates
import Suixinji.Relational.Occurrences
import Suixinji.Relational.Quote
import Suixinji.Relational.Ranking

/-! Atom ids and inferred polarities (`_assign_evidence_atom_ids` of memory/extractor.py). -/
namespace Suixinji.Extraction
open Occurrences Ranking
open Text (contains isSpace stripped)

variable {σ : Type}

def conjunctions : List String := ["和","以及","、","及"]

/-- `re.sub(r"^(?:和|以及|、|及)\s*", "", evidence)`. -/
def trimConjunction (evidence : String) : String :=
  match conjunctions.find? (fun word => word.toList <+: evidence.toList) with
  | some word => String.ofList ((evidence.toList.drop word.length).dropWhile isSpace)
  | none => evidence

def normalizedEvidence (text : String) (c : MemoryCandidate σ) : String :=
  let evidence := stripped (c.evidenceSpan.getD "")
  if c.memoryType = .preference then
    let trimmed := trimConjunction evidence
    if trimmed ≠ "" && contains text trimmed then trimmed else evidence
  else evidence

/-- The evidence that has an atom id. -/
def Grounded (text evidence : String) : Prop := evidence ≠ "" ∧ contains text evidence = true

instance {text evidence : String} : Decidable (Grounded text evidence) :=
  inferInstanceAs (Decidable (evidence ≠ "" ∧ contains text evidence = true))

def spans (candidates : List (MemoryCandidate σ)) (text : String) : List String :=
  ((candidates.map (normalizedEvidence text)).filter (fun evidence => Grounded text evidence)).dedup

def spanKey (text span : String) : ℤ ×ₗ ℤ ×ₗ String := toLex (find span.toList text.toList,toLex (-(span.length : ℤ),span))

def ordered (candidates : List (MemoryCandidate σ)) (text : String) : List String :=
  (spans candidates text).insertionSort (fun a b => spanKey text a ≤ spanKey text b)

def atomBySpan (ordered : List String) (span : String) : Option String :=
  if span ∈ ordered then some ("a" ++ toString (ordered.idxOf span + 1)) else none

def positiveMarkers : List String := ["喜欢","更喜欢","偏好","偏向","习惯","只学","重点放在"]

def negativeMarkers : List String := ["不喜欢","讨厌","厌恶","不爱","不想","不打算","暂时不","过敏","不用"]

def markers : List (String × String) := negativeMarkers.map (·,"negative") ++ positiveMarkers.map (·,"positive")

/-- `max(markers, default=(-1, "unknown"))` over the last places of the markers. -/
def lastMarker (before : List Char) : Int × String :=
  (greatest (byThen Prod.fst (less Prod.snd)) (markers.map (fun marker => (rfind marker.1.toList before,marker.2)))).getD (-1,"unknown")

def infers (text : String) (c : MemoryCandidate σ) : Bool :=
  c.memoryType = .preference && c.extractorType ≠ "llm" && (c.polarity = none || c.polarity = some "unknown") && normalizedEvidence text c ≠ ""

def textBefore (text evidence : String) : List Char :=
  let start := find evidence.toList text.toList
  if 0 ≤ start then text.toList.take start.toNat else []

def assignAtom (ordered : List String) (text : String) (c : MemoryCandidate σ) : MemoryCandidate σ :=
  let evidence := normalizedEvidence text c
  let atomId := atomBySpan ordered evidence
  let inferred := lastMarker (textBefore text evidence)
  let finds := infers text c && 0 ≤ inferred.1
  let polarity := if finds then some inferred.2 else c.polarity
  let scope := if finds then {c.scope with polarity := some inferred.2} else c.scope
  if atomId = none ∧ polarity = c.polarity ∧ evidence = stripped (c.evidenceSpan.getD "") then c
  else {c with scope := {scope with atomId := atomId.or scope.atomId},polarity := polarity,evidenceSpan := some evidence}

/-- `_assign_evidence_atom_ids`. -/
def assignEvidenceAtomIds (candidates : List (MemoryCandidate σ)) (text : String) : List (MemoryCandidate σ) :=
  candidates.map (assignAtom (ordered candidates text) text)

variable {text evidence : String} {c : MemoryCandidate σ} {candidates : List (MemoryCandidate σ)}

theorem mem_spans {span : String} : span ∈ spans candidates text ↔ Grounded text span ∧ ∃ c ∈ candidates, normalizedEvidence text c = span := by
  unfold spans
  rw [List.mem_dedup,List.mem_filter,decide_eq_true_eq,List.mem_map,and_comm]

theorem spanKey_injective (text : String) : Function.Injective (spanKey text) := by
  intro a b same
  have inner := congrArg (fun key => (ofLex (ofLex key).2).2) same
  exact inner

theorem ordered_perm (candidates : List (MemoryCandidate σ)) (text : String) : (ordered candidates text).Perm (spans candidates text) :=
  List.perm_insertionSort _ _

theorem ordered_sorted (candidates : List (MemoryCandidate σ)) (text : String) :
    (ordered candidates text).Pairwise (fun a b => spanKey text a < spanKey text b) := by
  have total : Std.Total (fun a b : String => spanKey text a ≤ spanKey text b) := ⟨fun a b => le_total (spanKey text a) (spanKey text b)⟩
  have trans : IsTrans String (fun a b => spanKey text a ≤ spanKey text b) := ⟨fun _ _ _ first second => first.trans second⟩
  have sorted : (ordered candidates text).Pairwise (fun a b => spanKey text a ≤ spanKey text b) := List.pairwise_insertionSort _ _
  have once : (ordered candidates text).Nodup := (ordered_perm candidates text).nodup_iff.mpr (List.nodup_dedup _)
  refine (sorted.and once).imp ?_
  rintro a b ⟨le,apart⟩
  exact le.lt_of_ne (fun same => apart (spanKey_injective text same))

/-- Of two that begin at the same place the longer comes first. -/
def Earlier (text a b : String) : Prop :=
  find a.toList text.toList < find b.toList text.toList ∨
    find a.toList text.toList = find b.toList text.toList ∧ b.length < a.length

instance {text a b : String} : Decidable (Earlier text a b) := inferInstanceAs (Decidable (_ ∨ _))

theorem spanKey_lt_iff {a b : String} (groundedA : Grounded text a) (groundedB : Grounded text b) :
    spanKey text a < spanKey text b ↔ Earlier text a b := by
  unfold spanKey Earlier
  rw [Prod.Lex.toLex_lt_toLex]
  refine or_congr_right (and_congr_right (fun place => ?_))
  dsimp only at place ⊢
  rw [Prod.Lex.toLex_lt_toLex]
  dsimp only
  constructor
  · rintro (longer | ⟨size,below⟩)
    · omega
    · obtain ⟨q,found,here,_⟩ := find_of_infix (of_decide_eq_true groundedA.2)
      obtain ⟨q',found',there,_⟩ := find_of_infix (of_decide_eq_true groundedB.2)
      obtain rfl : q = q' := by omega
      have lengths : a.toList.length = b.toList.length := by
        rw [String.length_toList,String.length_toList]
        omega
      have same := String.toList_injective ((List.prefix_of_prefix_length_le here there lengths.le).eq_of_length lengths)
      exact absurd (same ▸ below) (lt_irrefl a)
  · intro longer
    exact .inl (by omega)

/-- How many pieces of evidence come before one. -/
def rank (candidates : List (MemoryCandidate σ)) (text evidence : String) : Nat :=
  ((spans candidates text).filter (fun span => Earlier text span evidence)).length

theorem atomBySpan_of_grounded (member : c ∈ candidates) (grounded : Grounded text (normalizedEvidence text c)) :
    atomBySpan (ordered candidates text) (normalizedEvidence text c) =
      some ("a" ++ toString (rank candidates text (normalizedEvidence text c) + 1)) := by
  have listed : normalizedEvidence text c ∈ spans candidates text := mem_spans.mpr ⟨grounded,c,member,rfl⟩
  have inside : normalizedEvidence text c ∈ ordered candidates text := (ordered_perm candidates text).mem_iff.mpr listed
  have counted : ((ordered candidates text).filter (fun span => spanKey text span < spanKey text (normalizedEvidence text c))).length =
      rank candidates text (normalizedEvidence text c) := by
    rw [((ordered_perm candidates text).filter _).length_eq,rank]
    congr 1
    apply List.filter_congr
    intro span there
    rw [decide_eq_decide]
    exact spanKey_lt_iff (mem_spans.mp there).1 grounded
  rw [atomBySpan,if_pos inside,idxOf_eq_length_filter (ordered_sorted candidates text) inside,counted]

theorem atomBySpan_of_not_grounded (ungrounded : ¬Grounded text evidence) : atomBySpan (ordered candidates text) evidence = none := by
  apply if_neg
  intro inside
  exact ungrounded (mem_spans.mp ((ordered_perm candidates text).mem_iff.mp inside)).1

/-- Different evidence has a different number. -/
theorem atomBySpan_inj {a b : String} (member : a ∈ ordered candidates text)
    (same : atomBySpan (ordered candidates text) a = atomBySpan (ordered candidates text) b) : a = b := by
  have member' : b ∈ ordered candidates text := by
    by_contra absent
    unfold atomBySpan at same
    rw [if_pos member,if_neg absent] at same
    cases same
  unfold atomBySpan at same
  rw [if_pos member,if_pos member'] at same
  have texts := congrArg String.toList (Option.some.inj same)
  rw [String.toList_append,String.toList_append,List.append_cancel_left_eq] at texts
  have numbers := congrArg Quote.natOf texts
  rw [Nat.toString_eq_repr,Nat.toString_eq_repr,Quote.natOf_repr,Quote.natOf_repr] at numbers
  exact (List.idxOf_inj member).mp (Nat.succ.inj numbers)

def Precedes (text evidence marker : String) (p : Nat) : Prop :=
  OccursAt marker.toList text.toList p ∧ ((p + marker.length : Nat) : Int) ≤ find evidence.toList text.toList

theorem occursAt_textBefore {marker : String} (some_text : marker ≠ "") {p : Nat} :
    OccursAt marker.toList (textBefore text evidence) p ↔ Precedes text evidence marker p := by
  have some_list : marker.toList ≠ [] := fun none => some_text (String.toList_eq_nil_iff.mp none)
  have positive := List.length_pos_iff.mpr some_list
  unfold textBefore Precedes
  dsimp only
  split
  · rename_i found
    rw [occursAt_take some_list,String.length_toList]
    refine and_congr_right (fun _ => ?_)
    omega
  · rename_i lost
    constructor
    · intro there
      have bound := there.fits some_list
      rw [List.length_nil] at bound
      omega
    · rintro ⟨_,bound⟩
      omega

theorem marker_ne_empty : ∀ marker ∈ markers, marker.1 ≠ "" := by decide

theorem markers_apart : ∀ a ∈ markers, ∀ b ∈ markers, a.2 ≠ b.2 → ¬a.1.toList <+: b.1.toList := by decide +kernel

def IsLast (text evidence : String) (marker : String × String) (p : Nat) : Prop :=
  marker ∈ markers ∧ Precedes text evidence marker.1 p ∧ ∀ other ∈ markers, ∀ q, Precedes text evidence other.1 q → q ≤ p

theorem lastMarker_spec (text evidence : String) :
    (∃ marker p, IsLast text evidence marker p ∧ lastMarker (textBefore text evidence) = ((p : Int),marker.2)) ∨
      (lastMarker (textBefore text evidence)).1 = -1 ∧ ∀ marker ∈ markers, ∀ p, ¬Precedes text evidence marker.1 p := by
  have agrees (a b : Int × String) : byThen Prod.fst (less Prod.snd) a b = true ↔ toLex a < toLex b := by
    rw [Prod.Lex.toLex_lt_toLex]
    simp [byThen,less]
  cases found : greatest (byThen Prod.fst (less Prod.snd)) (markers.map (fun marker => (rfind marker.1.toList (textBefore text evidence),marker.2))) with
  | none => exact absurd (List.map_eq_nil_iff.mp (greatest_eq_none.mp found)) (by decide)
  | some best =>
    have last : lastMarker (textBefore text evidence) = best := by
      rw [lastMarker,found]
      rfl
    have below (other : String × String) (member : other ∈ markers) : rfind other.1.toList (textBefore text evidence) ≤ best.1 := by
      have le := le_greatest agrees found _ (List.mem_map_of_mem member)
      rw [Prod.Lex.toLex_le_toLex] at le
      rcases le with less | ⟨same,_⟩
      · exact less.le
      · exact same.le
    obtain ⟨marker,member,same⟩ := List.mem_map.mp (greatest_mem found)
    rw [last]
    have place (other : String × String) (inside : other ∈ markers) :=
      rfind_spec (textBefore text evidence) (fun none => marker_ne_empty other inside (String.toList_eq_nil_iff.mp none))
    rcases place marker member with ⟨p,at_,here,_⟩ | ⟨at_,_⟩
    · refine .inl ⟨marker,p,⟨member,(occursAt_textBefore (marker_ne_empty _ member)).mp here,fun other inside q there => ?_⟩,?_⟩
      · have le := below other inside
        rw [← same] at le
        dsimp only at le
        rw [← occursAt_textBefore (marker_ne_empty other inside)] at there
        rcases place other inside with ⟨r,at',_,furthest⟩ | ⟨_,nowhere⟩
        · have := furthest q there
          omega
        · exact absurd there (nowhere q)
      · rw [← same,at_]
    · refine .inr ⟨by rw [← same]; exact at_,fun other inside q there => ?_⟩
      have le := below other inside
      rw [← same] at le
      dsimp only at le
      rw [← occursAt_textBefore (marker_ne_empty other inside)] at there
      rcases place other inside with ⟨r,at',_,_⟩ | ⟨_,nowhere⟩
      · omega
      · exact nowhere q there

theorem IsLast.same {a b : String × String} {p q : Nat} (first : IsLast text evidence a p) (second : IsLast text evidence b q) :
    p = q ∧ a.2 = b.2 := by
  have le := first.2.2 b second.1 q second.2.1
  have ge := second.2.2 a first.1 p first.2.1
  obtain rfl : p = q := by omega
  refine ⟨rfl,?_⟩
  by_contra differ
  exact occursAt_exclusive (markers_apart a first.1 b second.1 differ) (markers_apart b second.1 a first.1 (Ne.symm differ))
    first.2.1.1 second.2.1.1

def Inside (text marker : String) (p : Nat) : Prop :=
  ∃ negative ∈ negativeMarkers, ∃ q, OccursAt negative.toList text.toList q ∧ q ≤ p ∧ p + marker.length ≤ q + negative.length

/-- The record that a candidate becomes. -/
structure Assigned (candidates : List (MemoryCandidate σ)) (text : String) (c assigned : MemoryCandidate σ) : Prop where
  numbered : Grounded text (normalizedEvidence text c) →
    assigned.scope.atomId = some ("a" ++ toString (rank candidates text (normalizedEvidence text c) + 1))
  unnumbered : ¬Grounded text (normalizedEvidence text c) → assigned.scope.atomId = c.scope.atomId
  inferred : infers text c = true → ∀ marker p, IsLast text (normalizedEvidence text c) marker p →
    (marker.2 = "positive" → ¬Inside text marker.1 p) → assigned.polarity = some marker.2 ∧ assigned.scope.polarity = some marker.2
  kept : (infers text c = false ∨ ∀ marker ∈ markers, ∀ p, ¬Precedes text (normalizedEvidence text c) marker.1 p) →
    assigned.polarity = c.polarity ∧ assigned.scope.polarity = c.scope.polarity
  evidence : assigned = c ∨ assigned.evidenceSpan = some (normalizedEvidence text c)
  others : assigned = {c with
    scope := {c.scope with atomId := assigned.scope.atomId,polarity := assigned.scope.polarity},
    polarity := assigned.polarity, evidenceSpan := assigned.evidenceSpan}

theorem assignAtom_quiet {ordered : List String}
    (quiet : (infers text c && 0 ≤ (lastMarker (textBefore text (normalizedEvidence text c))).1) = false) :
    assignAtom ordered text c =
      if atomBySpan ordered (normalizedEvidence text c) = none ∧ normalizedEvidence text c = stripped (c.evidenceSpan.getD "") then c
      else {c with
        scope := {c.scope with atomId := (atomBySpan ordered (normalizedEvidence text c)).or c.scope.atomId},
        evidenceSpan := some (normalizedEvidence text c)} := by
  unfold assignAtom
  simp only [quiet,Bool.false_eq_true,if_false,true_and]

theorem assignAtom_finds {ordered : List String} {marker : String × String} {p : Nat} (free : infers text c = true)
    (last : IsLast text (normalizedEvidence text c) marker p) : assignAtom ordered text c =
      {c with
        scope := {c.scope with
          atomId := (atomBySpan ordered (normalizedEvidence text c)).or c.scope.atomId, polarity := some marker.2},
        polarity := some marker.2, evidenceSpan := some (normalizedEvidence text c)} := by
  have found : lastMarker (textBefore text (normalizedEvidence text c)) = ((p : Int),marker.2) := by
    rcases lastMarker_spec text (normalizedEvidence text c) with ⟨other,q,last',found⟩ | ⟨_,nowhere⟩
    · obtain ⟨rfl,same⟩ := last.same last'
      rw [found,same]
    · exact absurd last.2.1 (nowhere marker last.1 p)
  have named : marker.2 ≠ "unknown" := (show ∀ marker ∈ markers, marker.2 ≠ "unknown" by decide) marker last.1
  have changed : some marker.2 ≠ c.polarity := by
    intro same
    unfold infers at free
    rw [← same] at free
    simp [named] at free
  unfold assignAtom
  simp only [found,free,Int.natCast_nonneg,decide_true,Bool.and_self,if_true,changed,false_and,and_false,if_false]

theorem quiet_or_finds (text : String) (c : MemoryCandidate σ) :
    (infers text c && 0 ≤ (lastMarker (textBefore text (normalizedEvidence text c))).1) = false ∨
      infers text c = true ∧ ∃ marker p, IsLast text (normalizedEvidence text c) marker p := by
  rcases lastMarker_spec text (normalizedEvidence text c) with ⟨marker,p,last,_⟩ | ⟨lost,_⟩
  · cases free : infers text c with
    | false => exact .inl rfl
    | true => exact .inr ⟨rfl,marker,p,last⟩
  · rw [lost]
    exact .inl (Bool.and_false _)

theorem assignAtom_atomId (ordered : List String) (text : String) (c : MemoryCandidate σ) :
    (assignAtom ordered text c).scope.atomId = (atomBySpan ordered (normalizedEvidence text c)).or c.scope.atomId := by
  rcases quiet_or_finds text c with quiet | ⟨free,marker,p,last⟩
  · rw [assignAtom_quiet quiet]
    split
    · rename_i left
      rw [left.1,Option.none_or]
    · rfl
  · rw [assignAtom_finds free last]

theorem assignAtom_assigned (member : c ∈ candidates) : Assigned candidates text c (assignAtom (ordered candidates text) text c) where
  numbered grounded := by
    rw [assignAtom_atomId,atomBySpan_of_grounded member grounded]
    rfl
  unnumbered ungrounded := by
    rw [assignAtom_atomId,atomBySpan_of_not_grounded ungrounded,Option.none_or]
  inferred free marker p last _ := by
    rw [assignAtom_finds free last]
    exact ⟨rfl,rfl⟩
  kept none := by
    rcases quiet_or_finds text c with quiet | ⟨free,marker,p,last⟩
    · rw [assignAtom_quiet quiet]
      split
      · exact ⟨rfl,rfl⟩
      · exact ⟨rfl,rfl⟩
    · rcases none with bound | nowhere
      · rw [free] at bound
        cases bound
      · exact absurd last.2.1 (nowhere marker last.1 p)
  evidence := by
    rcases quiet_or_finds text c with quiet | ⟨free,marker,p,last⟩
    · rw [assignAtom_quiet quiet]
      split
      · exact .inl rfl
      · exact .inr rfl
    · rw [assignAtom_finds free last]
      exact .inr rfl
  others := by
    rcases quiet_or_finds text c with quiet | ⟨free,marker,p,last⟩
    · rw [assignAtom_quiet quiet]
      split <;> rfl
    · rw [assignAtom_finds free last]

theorem shares_atom {c c' : MemoryCandidate σ} (member : c ∈ candidates)
    (fresh : c.scope.atomId = none) (fresh' : c'.scope.atomId = none) :
    (∃ a, (assignAtom (ordered candidates text) text c).scope.atomId = some a ∧
        (assignAtom (ordered candidates text) text c').scope.atomId = some a) ↔
      normalizedEvidence text c = normalizedEvidence text c' ∧ Grounded text (normalizedEvidence text c) := by
  rw [assignAtom_atomId,assignAtom_atomId,fresh,fresh',Option.or_none,Option.or_none]
  constructor
  · rintro ⟨a,first,second⟩
    have grounded : Grounded text (normalizedEvidence text c) := by
      by_contra ungrounded
      rw [atomBySpan_of_not_grounded ungrounded] at first
      cases first
    have inside : normalizedEvidence text c ∈ ordered candidates text :=
      (ordered_perm candidates text).mem_iff.mpr (mem_spans.mpr ⟨grounded,c,member,rfl⟩)
    exact ⟨atomBySpan_inj inside (first.trans second.symm),grounded⟩
  · rintro ⟨same,grounded⟩
    rw [← same,atomBySpan_of_grounded member grounded]
    exact ⟨_,rfl,rfl⟩

/-- Each candidate, in order, becomes the record with its atom id and the polarity of the last marker. -/
theorem assigns_atoms (candidates : List (MemoryCandidate σ)) (text : String) :
    List.Forall₂ (Assigned candidates text) candidates (assignEvidenceAtomIds candidates text) ∧
      ∀ c assigned c' assigned', (c,assigned) ∈ candidates.zip (assignEvidenceAtomIds candidates text) →
        (c',assigned') ∈ candidates.zip (assignEvidenceAtomIds candidates text) → c.scope.atomId = none → c'.scope.atomId = none →
          ((∃ a, assigned.scope.atomId = some a ∧ assigned'.scope.atomId = some a) ↔
            normalizedEvidence text c = normalizedEvidence text c' ∧ Grounded text (normalizedEvidence text c)) := by
  have each : List.Forall₂ (fun c assigned => c ∈ candidates ∧ assigned = assignAtom (ordered candidates text) text c) candidates
      (assignEvidenceAtomIds candidates text) := by
    rw [assignEvidenceAtomIds,List.forall₂_map_right_iff]
    exact List.forall₂_same.mpr (fun c member => ⟨member,rfl⟩)
  constructor
  · refine each.imp ?_
    rintro c assigned ⟨member,rfl⟩
    exact assignAtom_assigned member
  · intro c assigned c' assigned' inside inside' fresh fresh'
    obtain ⟨member,rfl⟩ := (List.forall₂_iff_zip.mp each).2 inside
    obtain ⟨_,rfl⟩ := (List.forall₂_iff_zip.mp each).2 inside'
    exact shares_atom member fresh fresh'

def teaToo : MemoryCandidate Unit where
  candidateId := "cand_1"
  memoryType := .preference
  content := "喜欢茶"
  importance := .finite 1
  confidence := .finite 1
  evidenceSpan := some "和茶"
  scope := {rest := ()}

/-- The conjunction before the evidence is no part of the evidence of the record. -/
theorem conjunction_dropped : (assignEvidenceAtomIds [teaToo] "我喜欢咖啡和茶").map (·.evidenceSpan) ≠ [teaToo.evidenceSpan] := by
  decide +kernel

end Suixinji.Extraction
