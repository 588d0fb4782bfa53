import Mathlib.Algebra.Order.BigOperators.Group.List
import Mathlib.Algebra.Order.Ring.Nat
import Suixinji.Summaries.Report

/-! What a summary shows of what was forgotten. Deleted memories are among the changes it
lists, and of the two masks of notes it applies one. -/
namespace Suixinji.Summaries
open Ask (NoteShelf NoteText Reading preferenceMask preferenceSpans words withWords clip descending shownText clipCells)
open Local (NoteMetadata)
open Memories (Memory Store)
open Ranking Redact

variable {σ : Type} {d : Desk σ} {p : Period}

structure OfDeleted (f : Memory σ → Memory σ) : Prop where
  content : ∀ m, f m = { m with content := (f m).content }
  others : ∀ m, m.status ≠ .deleted → f m = m

/-- The two stores differ at most in the contents of memories that are deleted. -/
def AlikeButDeleted (s s' : Store σ) : Prop :=
  ∃ f, OfDeleted f ∧ s'.memories.rows = s.memories.rows.map f ∧ s'.sources = s.sources

namespace Desk

def withMemories (d : Desk σ) (s : Store σ) : Desk σ := { d with memories := s }

/-- The notes of the period by their time, as they are stored. -/
def periodNotes (d : Desk σ) (p : Period) : List NoteMetadata :=
  (d.shelf.notes.filter (fun n => d.shelf.queryable n && (d.readTs n.ts).any p.has)).insertionSort (fun a b => a.ts ≤ b.ts)

/-- A summary masks a note for preferences alone, once. -/
def reading (n : NoteMetadata) : Reading := ⟨words n,1,false⟩

/-- What is forgotten of the note, so many notes into the period, is neither in the beginning that
the payload has of it, nor in the text that the fallback shows where there is no summary; and
no other words that were made for the note would show. -/
structure HidesNote (d : Desk σ) (k : Nat) (n : NoteMetadata) : Prop where
  payload : k < 120 → ∀ i, d.shelf.Forgotten (reading n) i → some i ∉ (clipCells 260 (d.shelf.trace (reading n))).map Prod.snd
  fallback : k < 10 → (d.shelf.seen (reading n)).summary = "" → ∀ i, d.shelf.Forgotten (reading n) i →
    some i ∉ (d.shelf.trace (reading n)).map Prod.snd
  words : (∃ i, d.shelf.Forgotten (reading n) i) → ∀ t : NoteText, t.id = n.id → t.text = n.text →
    d.shelf.seen { reading n with note := t } = d.shelf.seen (reading n)

/-- The summary hides what is forgotten: it is the same for stores that differ in it, and of
what is forgotten of a note that is loaded nothing is shown. -/
structure Forgets (d : Desk σ) (p : Period) : Prop where
  payload : ∀ s, AlikeButDeleted d.memories s → (d.withMemories s).payload p = d.payload p
  review : ∀ s, AlikeButDeleted d.memories s → ∀ draft, (d.withMemories s).reviewPayload p draft = d.reviewPayload p draft
  fallback : ∀ s, AlikeButDeleted d.memories s → (d.withMemories s).fallback p = d.fallback p
  notes : ∀ k n', (d.loadNotesInRange p)[k]? = some n' → ∃ n, (d.periodNotes p)[k]? = some n ∧
    words n' = d.shelf.seen (reading n) ∧ n'.text = shownText (d.shelf.trace (reading n)) ∧ d.HidesNote k n

end Desk

def Newer (a b : Memory σ) : Prop := b.updatedAt < a.updatedAt ∨ b.updatedAt = a.updatedAt ∧ b.id < a.id

def Sooner (a b : Memory σ) : Prop := a.updatedAt < b.updatedAt ∨ a.updatedAt = b.updatedAt ∧ b.id < a.id

instance {a b : Memory σ} : Decidable (Newer a b) := inferInstanceAs (Decidable (_ ∨ _))

instance {a b : Memory σ} : Decidable (Sooner a b) := inferInstanceAs (Decidable (_ ∨ _))

namespace Desk

/-- One of the hundred memories of the space that changed last. -/
def Listed (d : Desk σ) (m : Memory σ) : Prop :=
  m.spaceId = d.spaceId ∧ (d.memories.memories.rows.filter (fun o => o.spaceId = d.spaceId ∧ Newer o m)).length < 100

instance {m : Memory σ} : Decidable (d.Listed m) := inferInstanceAs (Decidable (_ ∧ _))

/-- How many changes of the period come before that of the memory. -/
def changesBefore (d : Desk σ) (p : Period) (m : Memory σ) : Nat :=
  (d.memories.memories.rows.filter (fun o => d.Listed o ∧ p.has o.updatedAt ∧ Sooner o m)).length

/-- A deleted memory is among the changes that the fallback shows, or among those of the payload
where the period has a note. -/
def ShowsDeleted (d : Desk σ) (p : Period) : Prop :=
  ∃ m ∈ d.memories.memories.rows, m.status = .deleted ∧ d.Listed m ∧ p.has m.updatedAt ∧
    (d.changesBefore p m < 10 ∨ d.changesBefore p m < 60 ∧ ∃ n ∈ d.shelf.notes, d.shelf.queryable n ∧ (d.readTs n.ts).any p.has)

/-- The occurrences of preference spans that are taken. -/
def takenOf (d : Desk σ) (n : NoteMetadata) : List (Hole Char) := takenEach (d.shelf.stepsOf (reading n)) n.text.toList

/-- The note is a command; or it has preference spans if something of it is forgotten, and what is
forgotten is in the occurrences of them that are taken, or behind the beginning that is shown. -/
def ReachesNote (d : Desk σ) (k : Nat) (n : NoteMetadata) : Prop :=
  d.shelf.Commanded (reading n) ∨
    ((∃ i < n.text.toList.length, d.shelf.Forgotten (reading n) i) → preferenceSpans d.shelf.forgotten n.id ≠ []) ∧
    ∀ i < n.text.toList.length, d.shelf.Forgotten (reading n) i →
      (k < 10 → Inside (d.takenOf n) i) ∧ (k < 120 → Inside (d.takenOf n) i ∨ 260 ≤ shift (d.takenOf n) i)

instance {k : Nat} {n : NoteMetadata} : Decidable (d.ReachesNote k n) := inferInstanceAs (Decidable (_ ∨ _ ∧ _))

end Desk

section
variable {f : Memory σ → Memory σ} {s : Store σ}

theorem OfDeleted.id (only : OfDeleted f) (m : Memory σ) : (f m).id = m.id := by rw [only.content m]

theorem OfDeleted.spaceId (only : OfDeleted f) (m : Memory σ) : (f m).spaceId = m.spaceId := by rw [only.content m]

theorem OfDeleted.updatedAt (only : OfDeleted f) (m : Memory σ) : (f m).updatedAt = m.updatedAt := by rw [only.content m]

theorem notes_ne_nil : d.loadNotesInRange p ≠ [] ↔ ∃ n ∈ d.shelf.notes, d.shelf.queryable n ∧ (d.readTs n.ts).any p.has := by
  have sorted : d.periodNotes p = [] ↔ d.shelf.notes.filter (fun n => d.shelf.queryable n && (d.readTs n.ts).any p.has) = [] :=
    ⟨fun none => List.nil_perm.mp (none ▸ List.perm_insertionSort _ _),fun none => by rw [Desk.periodNotes,none]; rfl⟩
  change (d.periodNotes p).map _ ≠ [] ↔ _
  rw [ne_eq,List.map_eq_nil_iff,sorted,List.filter_eq_nil_iff]
  simp only [Bool.and_eq_true,not_forall,not_not,exists_prop]

theorem descending_map {α : Type} {f : α → α} {lt : α → α → Bool} {items : List α} (same : ∀ a b, lt (f a) (f b) = lt a b) :
    descending lt (items.map f) = (descending lt items).map f :=
  (List.map_insertionSort _ (fun a b => lt a b = false) f items (fun a _ b _ => by rw [same a b])).symm

theorem OfDeleted.listMemories (only : OfDeleted f) (rows : s.memories.rows = d.memories.memories.rows.map f) :
    (d.withMemories s).listMemories = d.listMemories.map f := by
  have ordered (a b : Memory σ) : byThen (·.updatedAt) (less (·.id)) (f a) (f b) = byThen (·.updatedAt) (less (·.id)) a b := by
    simp only [byThen,less,only.updatedAt,only.id]
  have kept : (fun m : Memory σ => decide (m.spaceId = d.spaceId)) ∘ f = fun m => decide (m.spaceId = d.spaceId) := by
    funext m
    simp only [Function.comp_apply,only.spaceId]
  change (descending _ (s.memories.rows.filter (·.spaceId = d.spaceId))).take 100 = _
  rw [rows,List.filter_map,kept,descending_map ordered,← List.map_take]
  rfl

theorem OfDeleted.loadMemoryChanges (only : OfDeleted f) (rows : s.memories.rows = d.memories.memories.rows.map f) :
    (d.withMemories s).loadMemoryChanges p = (d.loadMemoryChanges p).map f := by
  have kept : (fun m : Memory σ => p.has m.updatedAt) ∘ f = fun m => p.has m.updatedAt := by
    funext m
    simp only [Function.comp_apply,only.updatedAt]
  unfold Desk.loadMemoryChanges
  rw [only.listMemories rows,List.filter_map,kept]
  exact (List.map_insertionSort _ _ f _ (fun a _ b _ => by simp only [only.updatedAt])).symm

theorem OfDeleted.same_take (only : OfDeleted f) {memories : List (Memory σ)} {k : Nat}
    (none : ∀ m ∈ memories.take k, m.status ≠ .deleted) : (memories.map f).take k = memories.take k := by
  rw [← List.map_take]
  exact (List.map_congr_left (fun m there => only.others m (none m there))).trans (List.map_id _)

end

theorem fallbackSummary_of_take {label : String} {notes : List NoteMetadata} {memories memories' : List (Memory σ)}
    (some : memories = [] ↔ memories' = []) (same : memories.take 10 = memories'.take 10) :
    fallbackSummary label notes memories = fallbackSummary label notes memories' := by
  unfold fallbackSummary fallbackLines
  simp only [some,same]

theorem forgets_fallback {s : Store σ} (alike : AlikeButDeleted d.memories s)
    (none : ∀ m ∈ (d.loadMemoryChanges p).take 10, m.status ≠ .deleted) : (d.withMemories s).fallback p = d.fallback p := by
  obtain ⟨f,only,rows,-⟩ := alike
  unfold Desk.fallback
  rw [only.loadMemoryChanges rows]
  exact fallbackSummary_of_take List.map_eq_nil_iff (only.same_take none)

theorem forgets_payload {s : Store σ} (alike : AlikeButDeleted d.memories s)
    (none : d.loadNotesInRange p ≠ [] → ∀ m ∈ (d.loadMemoryChanges p).take 60, m.status ≠ .deleted) :
    (d.withMemories s).payload p = d.payload p := by
  obtain ⟨f,only,rows,sources⟩ := alike
  by_cases empty : d.loadNotesInRange p = []
  · exact (if_pos empty).trans (if_pos empty).symm
  · have briefs : (d.withMemories s).briefMemories ((d.withMemories s).loadMemoryChanges p) = d.briefMemories (d.loadMemoryChanges p) := by
      unfold Desk.briefMemories
      rw [only.loadMemoryChanges rows,only.same_take (none empty)]
      refine List.map_congr_left (fun m _ => ?_)
      unfold Desk.briefMemory
      change BriefMemory.mk _ _ _ _ _ _ (((s.sources.rows.filter _).take 8).map _) = _
      rw [sources]
    unfold Desk.payload
    rw [briefs]
    rfl

def edited (g : String → String) (m : Memory σ) : Memory σ := if m.status = .deleted then { m with content := g m.content } else m

theorem ofDeleted_edited {g : String → String} : OfDeleted (edited (σ := σ) g) where
  content m := by
    unfold edited
    split <;> rfl
  others _ other := if_neg other

def editStore (g : String → String) (s : Store σ) : Store σ :=
  { s with memories := s.memories.update (edited g) ofDeleted_edited.id }

theorem alike_edited {g : String → String} {s : Store σ} : AlikeButDeleted s (editStore g s) :=
  ⟨edited g,ofDeleted_edited,rfl,rfl⟩

theorem length_lines {lines : List String} (some_line : lines ≠ []) :
    ("\n".intercalate lines).length + 1 = (lines.map (·.length + 1)).sum := by
  induction lines with
  | nil => exact absurd rfl some_line
  | cons line lines ih =>
    by_cases last : lines = []
    · rw [last,String.intercalate_singleton]
      rfl
    · rw [String.intercalate_cons_of_ne_nil last,String.length_append,String.length_append,List.map_cons,List.sum_cons,← ih last]
      have newline : "\n".length = 1 := rfl
      omega

theorem length_memoryLine {g : String → String} {m : Memory σ} (deleted : m.status = .deleted) :
    (memoryLine (edited g m)).length + m.content.length = (memoryLine m).length + (g m.content).length := by
  unfold memoryLine edited
  rw [if_pos deleted]
  simp only [String.length_append]
  omega

theorem fallback_edited {label : String} {notes : List NoteMetadata} {memories : List (Memory σ)} {g : String → String}
    (longer : ∀ text, text.length < (g text).length) (shown : ∃ m ∈ memories.take 10, m.status = .deleted) :
    fallbackSummary label notes memories ≠ fallbackSummary label notes (memories.map (edited g)) := by
  obtain ⟨m,there,deleted⟩ := shown
  have some : memories ≠ [] := List.ne_nil_of_mem (List.mem_of_mem_take there)
  have some' : memories.map (edited g) ≠ [] := mt List.map_eq_nil_iff.mp some
  have grows : ((memories.take 10).map (fun m => (memoryLine m).length + 1)).sum <
      ((memories.take 10).map (fun m => (memoryLine (edited g m)).length + 1)).sum := by
    refine List.sum_lt_sum _ _ (fun n _ => ?_) ⟨m,there,?_⟩
    · by_cases gone : n.status = .deleted
      · have := length_memoryLine (g := g) gone
        have := longer n.content
        omega
      · rw [ofDeleted_edited.others n gone]
    · have := length_memoryLine (g := g) deleted
      have := longer m.content
      omega
  intro same
  unfold fallbackSummary at same
  rw [if_neg (fun none => some none.2),if_neg (fun none => some' none.2)] at same
  have lengths := congrArg (String.length · + 1) same
  rw [length_lines (by simp [fallbackLines]),length_lines (by simp [fallbackLines])] at lengths
  unfold fallbackLines at lengths
  rw [if_neg some,if_neg some'] at lengths
  simp only [List.map_append,List.sum_append,← List.map_take,List.map_map,Function.comp_def] at lengths
  omega

/-- The other content: none where there was some. -/
def emptied (text : String) : String := if text = "" then "x" else ""

theorem clip_emptied {text : String} : clip 360 (emptied text) ≠ clip 360 text := by
  unfold emptied
  split
  · rename_i none
    rw [none]
    decide +kernel
  · rename_i some
    have blank : clip 360 "" = "" := by decide +kernel
    rw [blank]
    intro same
    unfold clip at same
    split at same
    · exact some same.symm
    · have := congrArg String.length same
      rw [String.length_append] at this
      have dots : "...".length = 3 := rfl
      have empty : "".length = 0 := rfl
      omega

theorem payload_edited (some : d.loadNotesInRange p ≠ []) (shown : ∃ m ∈ (d.loadMemoryChanges p).take 60, m.status = .deleted) :
    (d.withMemories (editStore emptied d.memories)).payload p ≠ d.payload p := by
  obtain ⟨m,there,deleted⟩ := shown
  intro same
  have changes : (d.withMemories (editStore emptied d.memories)).loadMemoryChanges p = (d.loadMemoryChanges p).map (edited emptied) :=
    ofDeleted_edited.loadMemoryChanges rfl
  have briefs := congrArg (Option.map Payload.memoryChanges) same
  unfold Desk.payload at briefs
  rw [if_neg some,changes] at briefs
  change (if d.loadNotesInRange p = [] then none else Option.some _).map _ = _ at briefs
  rw [if_neg some] at briefs
  have maps := Option.some.inj briefs
  simp only [Desk.briefMemories,← List.map_take,List.map_map] at maps
  have here := List.map_inj_left.mp maps m there
  have contents := congrArg BriefMemory.content here
  change clip 360 (edited emptied m).content = clip 360 m.content at contents
  rw [edited,if_pos deleted] at contents
  exact clip_emptied contents

/-! ### The changes that are listed -/

theorem Newer.irrefl {a : Memory σ} : ¬Newer a a := by
  rintro (less | ⟨-,less⟩)
  · exact lt_irrefl _ less
  · exact lt_irrefl _ less

theorem Sooner.irrefl {a : Memory σ} : ¬Sooner a a := by
  rintro (less | ⟨-,less⟩)
  · exact lt_irrefl _ less
  · exact lt_irrefl _ less

theorem sorted_memories : (descending (byThen (·.updatedAt) (less (·.id))) (d.memories.memories.rows.filter (·.spaceId = d.spaceId))).Pairwise
    (fun a b => Newer a b ∧ ¬Newer b a) := by
  have newer (a b : Memory σ) : byThen (·.updatedAt) (less (·.id)) a b = false ↔ ¬Newer b a := by
    simp [byThen,less,Newer]
  have distinct : (d.memories.memories.rows.filter (·.spaceId = d.spaceId)).Pairwise (fun a b => a.id ≠ b.id) :=
    (List.pairwise_map.mp d.memories.memories.keyed).sublist List.filter_sublist
  refine (insertionSort_keeps (fun a b => ?_) (fun a b c => ?_) distinct).imp (fun {a b} ⟨first,apart⟩ => ?_)
  · simp only [newer]
    grind [Newer]
  · simp only [newer]
    grind [Newer]
  · simp only [newer] at first apart
    grind [Newer]

theorem mem_listMemories {m : Memory σ} : m ∈ d.listMemories ↔ m ∈ d.memories.memories.rows ∧ d.Listed m := by
  have sorts := List.perm_insertionSort (fun a b => byThen (·.updatedAt) (less (·.id)) a b = false)
    (d.memories.memories.rows.filter (·.spaceId = d.spaceId))
  have member : m ∈ descending (byThen (·.updatedAt) (less (·.id))) (d.memories.memories.rows.filter (·.spaceId = d.spaceId)) ↔
      m ∈ d.memories.memories.rows ∧ m.spaceId = d.spaceId := by
    rw [Ask.mem_descending,List.mem_filter,decide_eq_true_eq]
  have counted : ((descending (byThen (·.updatedAt) (less (·.id))) (d.memories.memories.rows.filter (·.spaceId = d.spaceId))).filter
      (fun o => Newer o m)).length = (d.memories.memories.rows.filter (fun o => o.spaceId = d.spaceId ∧ Newer o m)).length := by
    rw [descending,(sorts.filter _).length_eq,List.filter_filter]
    simp only [Bool.decide_and,Bool.and_comm]
  unfold Desk.listMemories Desk.Listed
  by_cases inside : m ∈ d.memories.memories.rows ∧ m.spaceId = d.spaceId
  · rw [mem_take_iff sorted_memories (fun _ _ => Newer.irrefl) (member.mpr inside),counted,and_iff_right inside.1,and_iff_right inside.2]
  · refine iff_of_false (fun there => inside (member.mp (List.mem_of_mem_take there))) (fun there => inside ⟨there.1,there.2.1⟩)

theorem sorted_changes : (d.loadMemoryChanges p).Pairwise (fun a b => Sooner a b ∧ ¬Sooner b a) := by
  have newer : (d.listMemories.filter (fun m => p.has m.updatedAt)).Pairwise Newer :=
    ((sorted_memories.sublist (List.take_sublist _ _)).sublist List.filter_sublist).imp And.left
  refine (insertionSort_keeps (r := fun a b : Memory σ => a.updatedAt ≤ b.updatedAt) (fun a b => le_total _ _) (fun a b c => le_trans)
    newer).imp (fun {a b} ⟨before,same⟩ => ?_)
  grind [Newer,Sooner]

theorem mem_take_changes {m : Memory σ} {n : Nat} : m ∈ (d.loadMemoryChanges p).take n ↔
    m ∈ d.memories.memories.rows ∧ d.Listed m ∧ p.has m.updatedAt ∧ d.changesBefore p m < n := by
  have sorts := List.perm_insertionSort (fun a b : Memory σ => a.updatedAt ≤ b.updatedAt)
    (d.listMemories.filter (fun m => p.has m.updatedAt))
  have member : m ∈ d.loadMemoryChanges p ↔ m ∈ d.memories.memories.rows ∧ d.Listed m ∧ p.has m.updatedAt := by
    rw [Desk.loadMemoryChanges,sorts.mem_iff,List.mem_filter,mem_listMemories,and_assoc]
  have once : d.memories.memories.rows.Nodup := d.memories.memories.keyed.of_map _
  have same_rows : d.listMemories.Perm (d.memories.memories.rows.filter (fun o => d.Listed o)) := by
    refine (List.perm_ext_iff_of_nodup ?_ (once.filter _)).mpr (fun o => ?_)
    · exact ((List.perm_insertionSort _ _).nodup_iff.mpr (once.filter _)).sublist (List.take_sublist _ _)
    · rw [mem_listMemories,List.mem_filter,decide_eq_true_eq]
  have counted : ((d.loadMemoryChanges p).filter (fun o => Sooner o m)).length = d.changesBefore p m := by
    rw [Desk.loadMemoryChanges,(sorts.filter _).length_eq,((same_rows.filter _).filter _).length_eq,List.filter_filter,List.filter_filter]
    unfold Desk.changesBefore
    simp only [Bool.decide_and,Bool.decide_eq_true,Bool.and_comm,Bool.and_left_comm]
  by_cases inside : m ∈ d.memories.memories.rows ∧ d.Listed m ∧ p.has m.updatedAt
  · rw [mem_take_iff sorted_changes (fun _ _ => Sooner.irrefl) (member.mpr inside),counted,
      and_iff_right inside.1,and_iff_right inside.2.1,and_iff_right inside.2.2]
  · exact iff_of_false (fun there => inside (member.mp (List.mem_of_mem_take there))) (fun there => inside ⟨there.1,there.2.1,there.2.2.1⟩)

/-! ### The notes -/

theorem words_loaded {n : NoteMetadata} :
    words (withWords n (preferenceMask d.shelf.forgotten (words n))) = d.shelf.seen (Desk.reading n) :=
  NoteShelf.words_withWords Ask.preferenceMask_id

theorem steps_reading {n : NoteMetadata} : d.shelf.stepsOf (Desk.reading n) = d.shelf.preferenceSteps n.id := by
  simp [NoteShelf.stepsOf,Desk.reading,words]

theorem summary_of_spans {n : NoteMetadata} (some_spans : preferenceSpans d.shelf.forgotten n.id ≠ []) :
    (d.shelf.seen (Desk.reading n)).summary = "" := by
  change (preferenceMask d.shelf.forgotten (words n)).summary = ""
  unfold preferenceMask
  split
  · rfl
  · split
    · rename_i none
      exact absurd none some_spans
    · rfl

/-- What is forgotten of a note is hidden just where the mask for preferences reaches it. -/
theorem hidesNote_iff {k : Nat} {n : NoteMetadata} (legible : d.shelf.Legible (Desk.reading n)) : d.HidesNote k n ↔ d.ReachesNote k n := by
  rcases NoteShelf.traced_trace legible with ⟨command,none,same⟩ | ⟨other,ps,traced⟩
  · refine iff_of_true ⟨fun _ i _ there => none i ?_,fun _ _ i _ => none i,fun _ t id text => same t id text⟩ (.inl command)
    exact List.map_subset _ (List.take_subset _ _) (Ask.label_clipCells.mp there)
  · have words_iff : ((∃ i, d.shelf.Forgotten (Desk.reading n) i) → ∀ t : NoteText, t.id = n.id → t.text = n.text →
        d.shelf.seen { Desk.reading n with note := t } = d.shelf.seen (Desk.reading n)) ↔
        ((∃ i < n.text.toList.length, d.shelf.Forgotten (Desk.reading n) i) → preferenceSpans d.shelf.forgotten n.id ≠ []) := by
      have among : (∃ i, d.shelf.Forgotten (Desk.reading n) i) ↔ ∃ i < n.text.toList.length, d.shelf.Forgotten (Desk.reading n) i :=
        exists_congr (fun i => (and_iff_right_of_imp Covered.lt).symm)
      have spans : preferenceSpans d.shelf.forgotten n.id ≠ [] ↔ d.shelf.stepsOf (Desk.reading n) ≠ [] := by
        rw [steps_reading,NoteShelf.preferenceSteps,ne_eq,ne_eq,Ask.steps_eq_nil]
      rw [among,spans]
      exact imp_congr_right (fun _ => NoteShelf.seen_same_iff other)
    have whole (i : Nat) : some i ∈ (d.shelf.trace (Desk.reading n)).map Prod.snd ↔ i < n.text.toList.length ∧ ¬Inside (d.takenOf n) i :=
      traced.mem_cells
    have beginning (i : Nat) : some i ∈ (clipCells 260 (d.shelf.trace (Desk.reading n))).map Prod.snd ↔
        i < n.text.toList.length ∧ ¬Inside (d.takenOf n) i ∧ shift (d.takenOf n) i < 260 :=
      Ask.label_clipCells.trans traced.mem_take_cells
    constructor
    · intro hides
      refine .inr ⟨words_iff.mp hides.words,fun i short forgotten => ⟨fun early => ?_,fun early => ?_⟩⟩
      · have masks := words_iff.mp hides.words ⟨i,short,forgotten⟩
        by_contra outside
        exact hides.fallback early (summary_of_spans masks) i forgotten ((whole i).mpr ⟨short,outside⟩)
      · by_contra shown
        obtain ⟨outside,ahead⟩ := not_or.mp shown
        exact hides.payload early i forgotten ((beginning i).mpr ⟨short,outside,Nat.lt_of_not_le ahead⟩)
    · rintro (command | ⟨masks,reaches⟩)
      · exact absurd command other
      · refine ⟨fun early i forgotten there => ?_,fun early _ i forgotten there => ?_,words_iff.mpr masks⟩
        · obtain ⟨short,outside,ahead⟩ := (beginning i).mp there
          exact ((reaches i short forgotten).2 early).elim outside (Nat.not_le.mpr ahead)
        · obtain ⟨short,outside⟩ := (whole i).mp there
          exact outside ((reaches i short forgotten).1 early)

def memoryWith (status : Memories.MemoryStatus) : Memory Unit where
  id := 1
  spaceId := 1
  memoryType := .semantic
  content := "住在北京"
  importance := 1
  confidence := 1
  status := status
  memoryKey := none
  scope := ()
  updatedAt := 5

/-- A space of one note and one memory, both of the period. -/
def Desk.ofNote (shelf : NoteShelf) (status : Memories.MemoryStatus) : Desk Unit where
  shelf := shelf
  memories := { Store.empty Unit with memories := ⟨[memoryWith status],by simp⟩ }
  spaceId := 1
  readTs := fun _ => some 5

def today : Period := ⟨"今天",0,10⟩

end Suixinji.Summaries
