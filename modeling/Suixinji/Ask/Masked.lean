import Suixinji.Ask.NoteReaders
import Suixinji.Relational.Redact

/-! What a reader of notes shows of a text that was forgotten in parts. Each place of the text
is followed through the masks of the reader. -/
namespace Suixinji.Ask
open Local (NoteMetadata)
open Redact

structure NoteWords where
  id : String
  title : String
  summary : String
  text : String
  deriving DecidableEq

def NoteText.shown (t : NoteText) : NoteWords := ⟨t.id,t.title,t.summary,t.text⟩

def EvidenceNote.shown (n : EvidenceNote) : NoteWords := ⟨n.id,n.title,n.summary,n.text⟩

/-- The ways the ask flows read notes. -/
inductive NotePath where
  | getNote (noteId : String)
  | getNoteForEvidence (noteId : String)
  | hydrated (noteId : String)
  | filterNotes (noteType : Option String) (tags : List String) (matchAll : Bool) (limit : Int)
  | listRecent (days limit : Int)
  | followLinks (noteId : String) (limit : Int)
  | semanticSearch (query : String) (topK : Int)
  | provisionalSearch (query : String) (limit : Int)
  | memoryNoteFallback (query : String) (limit : Int)
  deriving DecidableEq

def Links.all (links : Links) : List Brief := links.source::(links.outbound ++ links.inbound)

def searched : List Brief ⊕ List VectorEntry → List NoteWords
  | .inl briefs => briefs.map (·.shown)
  | .inr entries => entries.map (·.shown)

def NotePath.cut : NotePath → String → String
  | .getNote _ => clip 1200
  | .getNoteForEvidence _ => id
  | .hydrated _ => fun text => String.ofList (text.toList.take 1200)
  | _ => clip 500

def commandMark : String := "[记忆管理指令]"

/-- A note as a reader masks it: how often for preferences, and whether for facts after that. -/
structure Reading where
  note : NoteText
  times : Nat
  facts : Bool
  deriving DecidableEq

/-- The marks of spans are between brackets. -/
def noteFence : Fence Char where
  opening := '['
  closing := ']'
  first := ['[','已']
  last := [']','好','忘']
  opens := by decide
  closes := by decide

def steps (mark : String) (spans : List String) : List (List Char × List Char) := spans.map (fun span => (span.toList,mark.toList))

/-- Whether the text with what is gone of it reads as a command, where the marks have 偏好. -/
def Commands (text : List Char) (holes : List (Hole Char)) : Bool :=
  let rest := afterPlease (untouched text holes)
  ['忘','记'] <+: rest || (['删','除'] <+: rest &&
    (['偏','好'] <:+: (rest.drop 2).takeWhile (· ≠ '\n') || (holes ≠ [] && '\n' ∉ rest.drop 2)))

def shownText (cells : Cells Char) : String := String.ofList (cells.map Prod.fst)

/-- `replaceSpan`, with the place that each character has in the note. -/
def traceSpan (mark : String) (cells : Cells Char) (span : String) : Cells Char :=
  if span = "" then unplaced mark.toList ++ cells.flatMap (fun c => c::unplaced mark.toList)
  else replaceBy Prod.fst span.toList (unplaced mark.toList) 0 cells

def clipCells (limit : Nat) (cells : Cells Char) : Cells Char :=
  if cells.length ≤ limit then cells else cells.take limit ++ unplaced "...".toList

def NotePath.cutCells : NotePath → Cells Char → Cells Char
  | .getNote _ => clipCells 1200
  | .getNoteForEvidence _ => id
  | .hydrated _ => List.take 1200
  | _ => clipCells 500

def NotePath.limit : NotePath → Option Nat
  | .getNote _ | .hydrated _ => some 1200
  | .getNoteForEvidence _ => none
  | _ => some 500

/-- The readers of evidence, which apply the mask of preferences alone. -/
def NotePath.evidence : NotePath → Bool
  | .getNoteForEvidence _ | .hydrated _ => true
  | _ => false

namespace NoteShelf

variable (s : NoteShelf)

def shown : NotePath → List NoteWords
  | .getNote id => (s.getNote id).toList.map (·.shown)
  | .getNoteForEvidence id => (s.getNoteForEvidence id).toList.map (·.shown)
  | .hydrated id => (s.hydrated id).toList.map (·.shown)
  | .filterNotes noteType tags matchAll limit => (s.filterNotes noteType tags matchAll limit).map (·.shown)
  | .listRecent days limit => (s.listRecent days limit).map (·.shown)
  | .followLinks id limit => ((s.followLinks id limit).toList.flatMap Links.all).map (·.shown)
  | .semanticSearch query topK => searched (s.semanticSearch query topK)
  | .provisionalSearch query limit => (s.provisionalSearch query limit).map (·.shown)
  | .memoryNoteFallback query limit => searched (s.memoryNoteFallback query limit)

def seen (r : Reading) : NoteText :=
  let t := (preferenceMask s.forgotten)^[r.times] r.note
  if r.facts then factMask s.tombstones t else t

def view (path : NotePath) (r : Reading) : NoteWords :=
  ⟨(s.seen r).id,(s.seen r).title,(s.seen r).summary,path.cut (s.seen r).text⟩

def readsVectors : NotePath → Bool
  | .semanticSearch _ _ => !(s.postgres && s.hybrid)
  | .memoryNoteFallback _ _ => !s.postgres
  | _ => false

/-- The local back end masks a note once as it loads it. -/
def reading (path : NotePath) (n : NoteMetadata) : Reading where
  note := words n
  times := (if s.postgres then 0 else 1) + if path.evidence || n.spaceId ≠ "" then 1 else 0
  facts := !path.evidence && n.spaceId ≠ ""

def readings (path : NotePath) : List Reading :=
  if s.readsVectors path then s.vectors.map (fun e => ⟨e.toNoteText,1,false⟩) else s.notes.map (s.reading path)

/-! ### The places of the text -/

def tracePreferences (id : String) (cells : Cells Char) : Cells Char :=
  if isCommand (shownText cells) then unplaced commandMark.toList
  else (preferenceSpans s.forgotten id).foldl (traceSpan preferenceMark) cells

/-- What `seen` shows, with the place that each character has in the note. -/
def trace (r : Reading) : Cells Char :=
  let cells := (s.tracePreferences r.note.id)^[r.times] (placed r.note.text.toList 0)
  if r.facts then (factSpans s.tombstones r.note.id).foldl (traceSpan factMark) cells else cells

/-- The spans of a note that are forgotten. -/
def patterns (id : String) : List (List Char) :=
  (preferenceSpans s.forgotten id ++ factSpans s.tombstones id).map String.toList

def Forgotten (r : Reading) (i : Nat) : Prop := Covered (s.patterns r.note.id) r.note.text.toList i

/-- The text is what follows of the note, in its order and unchanged, among marks. -/
structure Follows (path : NotePath) (r : Reading) (w : NoteWords) : Prop where
  shows : w = s.view path r
  text : w.text = shownText (path.cutCells (s.trace r))
  kept : List.Sublist ((path.cutCells (s.trace r)).filter (·.2.isSome)) (placed r.note.text.toList 0)

/-- Of the text exactly what is not forgotten is shown; and where something is forgotten, no
other words that were made for the note would show. -/
structure Conceals (path : NotePath) (r : Reading) : Prop where
  text : ∀ i < r.note.text.toList.length, some i ∈ (path.cutCells (s.trace r)).map Prod.snd ↔ ¬s.Forgotten r i
  words : (∃ i, s.Forgotten r i) → ∀ n : NoteText, n.id = r.note.id → n.text = r.note.text →
    s.seen { r with note := n } = s.seen r

/-! ### What the masks reach -/

def preferenceSteps (id : String) : List (List Char × List Char) := steps preferenceMark (preferenceSpans s.forgotten id)

def factSteps (id : String) : List (List Char × List Char) := steps factMark (factSpans s.tombstones id)

/-- What a reading replaces, in its order. -/
def stepsOf (r : Reading) : List (List Char × List Char) :=
  (List.replicate r.times (s.preferenceSteps r.note.id)).flatten ++ if r.facts then s.factSteps r.note.id else []

/-- No span that is replaced after another can reach into the mark of it. -/
def Legible (r : Reading) : Prop := LegibleEach noteFence r.note.text.toList ((s.stepsOf r).map Prod.fst)

/-- The note is a command, or reads as one where the mask of preferences is applied again. -/
def Commanded (r : Reading) : Prop :=
  ∃ k < r.times, Commands r.note.text.toList
    (takenEach (List.replicate k (s.preferenceSteps r.note.id)).flatten r.note.text.toList)

instance {r : Reading} {i : Nat} : Decidable (s.Forgotten r i) := inferInstanceAs (Decidable (Covered _ _ i))

instance {r : Reading} : Decidable (s.Legible r) := inferInstanceAs (Decidable (LegibleEach _ _ _))

instance {r : Reading} : Decidable (s.Commanded r) := inferInstanceAs (Decidable (∃ k < r.times, _))

/-- What is forgotten of the text is what the note loses as a command, to the occurrences of
spans that are taken, or to the limit of the path. -/
def ReachedText (path : NotePath) (r : Reading) : Prop :=
  ∀ i < r.note.text.toList.length, s.Forgotten r i ↔ s.Commanded r ∨ Inside (takenEach (s.stepsOf r) r.note.text.toList) i ∨
    ∃ limit ∈ path.limit, limit ≤ shift (takenEach (s.stepsOf r) r.note.text.toList) i

/-- A note of which something is forgotten is a command or has spans to replace. -/
def ReachedWords (r : Reading) : Prop :=
  (∃ i < r.note.text.toList.length, s.Forgotten r i) → s.Commanded r ∨ s.stepsOf r ≠ []

instance {path : NotePath} {r : Reading} : Decidable (s.ReachedText path r) :=
  inferInstanceAs (Decidable (∀ i < r.note.text.toList.length, s.Forgotten r i ↔ s.Commanded r ∨ Inside _ i ∨
    ∃ limit ∈ path.limit, limit ≤ shift _ i))

instance {r : Reading} : Decidable (s.ReachedWords r) :=
  inferInstanceAs (Decidable ((∃ i < r.note.text.toList.length, s.Forgotten r i) → s.Commanded r ∨ s.stepsOf r ≠ []))

end NoteShelf

/-! ### The masks -/

section
variable {forgotten : List ForgottenSource} {tombstones : List Facts.Tombstone} {t : NoteText}

@[simp]
theorem preferenceMask_id : (preferenceMask forgotten t).id = t.id := by
  unfold preferenceMask
  split
  · rfl
  · split <;> rfl

@[simp]
theorem factMask_id : (factMask tombstones t).id = t.id := by
  unfold factMask
  split <;> rfl

theorem preferenceMask_text : (preferenceMask forgotten t).text =
    if isCommand t.text then commandMark else (preferenceSpans forgotten t.id).foldl (replaceSpan preferenceMark) t.text := by
  unfold preferenceMask
  split
  · rfl
  · split
    · rename_i none
      rw [none]
      rfl
    · rfl

theorem factMask_text : (factMask tombstones t).text = (factSpans tombstones t.id).foldl (replaceSpan factMark) t.text := by
  unfold factMask
  split
  · rename_i none
    rw [none]
    rfl
  · rfl

/-- A mask that changes something of a note leaves nothing of the words that were made for it. -/
theorem preferenceMask_same {t' : NoteText} (id : t'.id = t.id) (text : t'.text = t.text)
    (masks : isCommand t.text ∨ preferenceSpans forgotten t.id ≠ []) : preferenceMask forgotten t' = preferenceMask forgotten t := by
  obtain ⟨_,_,_,_,_⟩ := t
  obtain ⟨_,_,_,_,_⟩ := t'
  obtain rfl : _ = _ := id
  obtain rfl : _ = _ := text
  unfold preferenceMask
  split
  · rfl
  · rename_i other
    split
    · rename_i none
      exact (masks.elim other (absurd none)).elim
    · rfl

theorem factMask_same {t' : NoteText} (id : t'.id = t.id) (text : t'.text = t.text) (masks : factSpans tombstones t.id ≠ []) :
    factMask tombstones t' = factMask tombstones t := by
  obtain ⟨_,_,_,_,_⟩ := t
  obtain ⟨_,_,_,_,_⟩ := t'
  obtain rfl : _ = _ := id
  obtain rfl : _ = _ := text
  unfold factMask
  split
  · rename_i none
    exact absurd none masks
  · rfl

end

theorem steps_eq_nil {mark : String} {spans : List String} : steps mark spans = [] ↔ spans = [] := List.map_eq_nil_iff

theorem steps_marks {mark : String} {spans : List String} {Q : List Char → Prop} (holds : Q mark.toList) :
    ∀ step ∈ steps mark spans, Q step.2 := by
  intro step there
  obtain ⟨span,member,rfl⟩ := List.mem_map.mp there
  exact holds

theorem preferenceMark_marks : noteFence.Marks preferenceMark.toList where
  fenced := ⟨"已忘记的偏好".toList,by decide,⟨'已',by decide,by decide⟩,⟨'好',by decide,by decide⟩⟩

theorem factMark_marks : noteFence.Marks factMark.toList where
  fenced := ⟨"已按用户要求遗忘".toList,by decide,⟨'已',by decide,by decide⟩,⟨'忘',by decide,by decide⟩⟩

/-! ### Cells -/

section
variable {mark span : String} {cells : Cells Char} {spans : List String} {path : NotePath}

theorem map_unplaced {m : List Char} : (unplaced m).map Prod.fst = m := by simp [unplaced,Function.comp_def]

theorem label_unplaced {m : List Char} {i : Nat} : some i ∉ (unplaced m).map Prod.snd := by simp [unplaced]

theorem shownText_placed {text : String} : shownText (placed text.toList 0) = text := by
  have chars : (placed text.toList 0).map Prod.fst = text.toList := by
    simp only [placed,List.map_map,Function.comp_def,List.zipIdx_map_fst]
  rw [shownText,chars,String.ofList_toList]

theorem shownText_traceSpan : shownText (traceSpan mark cells span) = replaceSpan mark (shownText cells) span := by
  unfold traceSpan replaceSpan
  by_cases empty : span = ""
  · rw [if_pos empty,if_pos empty]
    apply String.toList_inj.mp
    simp only [shownText,List.map_append,map_unplaced,List.map_flatMap,List.map_cons,String.toList_ofList,String.toList_append,
      List.flatMap_map]
  · rw [if_neg empty,if_neg empty]
    simp only [shownText,map_replaceBy,map_unplaced,String.toList_ofList,replaceAll]

theorem shownText_foldl : shownText (spans.foldl (traceSpan mark) cells) = spans.foldl (replaceSpan mark) (shownText cells) := by
  induction spans generalizing cells with
  | nil => rfl
  | cons span spans ih => rw [List.foldl_cons,ih,shownText_traceSpan,List.foldl_cons]

/-- Spans that are not empty are replaced as patterns. -/
theorem foldl_traceSpan (some_text : ∀ span ∈ spans, span ≠ "") :
    spans.foldl (traceSpan mark) cells = traceEach (steps mark spans) cells := by
  induction spans generalizing cells with
  | nil => rfl
  | cons span spans ih =>
    obtain ⟨here,some_text⟩ := List.forall_mem_cons.mp some_text
    rw [List.foldl_cons,ih some_text,traceSpan,if_neg here]
    rfl

theorem kept_traceSpan : List.Sublist ((traceSpan mark cells span).filter (·.2.isSome)) (cells.filter (·.2.isSome)) := by
  have none {m : List Char} : (unplaced m).filter (·.2.isSome) = [] := by simp [unplaced]
  unfold traceSpan
  split
  · rw [List.filter_append,none,List.nil_append,List.filter_flatMap]
    have each : (fun c : Char × Option Nat => (c::unplaced mark.toList).filter (·.2.isSome)) =
        fun c => if c.2.isSome then [c] else [] := by
      funext c
      rw [List.filter_cons,none]
    rw [each]
    clear each
    induction cells with
    | nil => exact .refl _
    | cons c cells ih =>
      rw [List.flatMap_cons,List.filter_cons]
      split
      · exact ih.cons_cons c
      · exact ih
  · exact filter_replaceBy (fun c there => by
      obtain ⟨_,-,rfl⟩ := List.mem_map.mp there
      exact Bool.false_ne_true)

theorem kept_foldl : List.Sublist ((spans.foldl (traceSpan mark) cells).filter (·.2.isSome)) (cells.filter (·.2.isSome)) := by
  induction spans generalizing cells with
  | nil => exact .refl _
  | cons span spans ih => exact ih.trans kept_traceSpan

theorem label_of_kept {cells' : Cells Char} (kept : List.Sublist (cells'.filter (·.2.isSome)) (cells.filter (·.2.isSome))) {i : Nat}
    (there : some i ∈ cells'.map Prod.snd) : some i ∈ cells.map Prod.snd := by
  obtain ⟨c,member,label⟩ := List.mem_map.mp there
  have among := kept.subset (List.mem_filter.mpr ⟨member,by rw [label]; rfl⟩)
  exact List.mem_map.mpr ⟨c,List.mem_of_mem_filter among,label⟩

theorem shownText_clipCells {limit : Nat} : shownText (clipCells limit cells) = clip limit (shownText cells) := by
  have length : (shownText cells).length = cells.length := by rw [shownText,String.length_ofList,List.length_map]
  unfold clipCells clip
  rw [length]
  split
  · rfl
  · apply String.toList_inj.mp
    simp [shownText,List.map_take,map_unplaced]

theorem shownText_cutCells : shownText (path.cutCells cells) = path.cut (shownText cells) := by
  have taken : shownText (cells.take 1200) = String.ofList ((shownText cells).toList.take 1200) := by
    simp [shownText,List.map_take]
  cases path with
  | hydrated noteId => exact taken
  | getNoteForEvidence noteId => rfl
  | _ => exact shownText_clipCells

theorem kept_cutCells : List.Sublist ((path.cutCells cells).filter (·.2.isSome)) (cells.filter (·.2.isSome)) := by
  have clipped {limit : Nat} : List.Sublist ((clipCells limit cells).filter (·.2.isSome)) (cells.filter (·.2.isSome)) := by
    unfold clipCells
    split
    · exact .refl _
    · have none : (unplaced "...".toList).filter (·.2.isSome) = [] := by simp [unplaced]
      rw [List.filter_append,none,List.append_nil]
      exact (List.take_sublist limit cells).filter _
  cases path with
  | hydrated noteId => exact (List.take_sublist 1200 cells).filter _
  | getNoteForEvidence noteId => exact .refl _
  | _ => exact clipped

theorem label_clipCells {limit i : Nat} : some i ∈ (clipCells limit cells).map Prod.snd ↔ some i ∈ (cells.take limit).map Prod.snd := by
  unfold clipCells
  split
  · rename_i short
    rw [List.take_of_length_le short]
  · rw [List.map_append,List.mem_append,or_iff_left label_unplaced]

/-- What a path cuts off is what has the limit or more ahead of it. -/
theorem label_cutCells {e : Fence Char} {text : List Char} {holes : List (Hole Char)} {ps : List (Piece Char)}
    (traced : Traced e text cells holes ps) {i : Nat} : some i ∈ (path.cutCells cells).map Prod.snd ↔
      i < text.length ∧ ¬(Inside holes i ∨ ∃ limit ∈ path.limit, limit ≤ shift holes i) := by
  cases path with
  | getNoteForEvidence noteId => exact traced.mem_cells.trans (by simp [NotePath.limit])
  | hydrated noteId => exact traced.mem_take_cells.trans (by simp [NotePath.limit])
  | _ => exact label_clipCells.trans (traced.mem_take_cells.trans (by simp [NotePath.limit]))

end

/-! ### Commands -/

/-- A mark of a preference, whatever is replaced in it. -/
structure Preferred (m : List Char) : Prop where
  oneLine : '\n' ∉ m
  mentions : ['偏','好'] <:+: m

theorem Preferred.replaceAll {p m k : List Char} (some_text : p ≠ []) (mark : Preferred m) (old : Preferred k) :
    Preferred (replaceAll p m k) where
  oneLine there := (mem_replaceBy there).elim mark.oneLine old.oneLine
  mentions := by
    by_cases occurs : p <:+: k
    · exact mark.mentions.trans (infix_replaceBy (by rwa [List.map_id]) some_text)
    · rw [Redact.replaceAll,replaceBy_eq_self (by rwa [List.map_id])]
      exact old.mentions

theorem preferenceMark_preferred : Preferred preferenceMark.toList := ⟨by decide,by decide⟩

theorem afterPlease_append {text tail : List Char} (start : ∀ c ∈ tail.head?, c ≠ '请') :
    afterPlease (text ++ tail) = afterPlease text ++ tail := by
  have other {text : List Char} (start : ∀ c ∈ text.head?, c ≠ '请') : afterPlease text = text := by
    unfold afterPlease
    split
    · exact absurd rfl (start _ rfl)
    · rfl
  cases text with
  | nil => exact other start
  | cons c text =>
    by_cases please : c = '请'
    · rw [please]
      rfl
    · have first (rest : List Char) : afterPlease (c::rest) = c::rest := other (by
        rintro d ⟨⟩
        exact please)
      rw [List.cons_append,first,first,List.cons_append]

theorem prefix_append_opening {p text tail : List Char} {c : Char} (outside : c ∉ p) : p <+: text ++ c::tail ↔ p <+: text := by
  refine ⟨fun there => ?_,fun there => there.trans (List.prefix_append _ _)⟩
  rcases List.prefix_or_prefix_of_prefix there (List.prefix_append text (c::tail)) with short | ⟨rest,rfl⟩
  · exact short
  · cases rest with
    | nil => rw [List.append_nil]
    | cons b rest =>
      have first := (List.cons_prefix_cons.mp ((List.prefix_append_right_inj text).mp there)).1
      exact absurd (by simp [first]) outside

theorem takeWhile_append_of_mem {text tail : List Char} (there : '\n' ∈ text) :
    (text ++ tail).takeWhile (· ≠ '\n') = text.takeWhile (· ≠ '\n') := by
  rw [List.takeWhile_append,if_neg]
  intro whole
  have all := List.takeWhile_eq_self_iff.mp ((List.takeWhile_prefix (l := text) (p := (· ≠ '\n'))).eq_of_length whole)
  exact absurd (all '\n' there) (by decide)

/-- Of a text in pieces whose marks are those of preferences. -/
theorem isCommand_traced {text : List Char} {cells : Cells Char} {holes : List (Hole Char)} {ps : List (Piece Char)}
    (traced : Traced noteFence text cells holes ps) (marks : ∀ h ∈ holes, Preferred h.shown) :
    isCommand (shownText cells) = Commands text holes := by
  have chars : (shownText cells).toList = (Piece.cells 0 ps).map Prod.fst := by
    rw [shownText,String.toList_ofList,traced.shown]
  unfold isCommand Commands
  rw [chars,traced.untouched]
  rcases (Piece.shown_run : (∀ o k, .gone o k ∉ ps) ∧ (Piece.cells 0 ps).map Prod.fst = _ ∨ _) with
    ⟨none,same⟩ | ⟨o,k,more,there,same⟩
  · have empty : holes = [] := by
      have := traced.holes
      rw [Piece.holes_eq_nil none] at this
      exact this.nil_eq.symm
    simp [same,empty]
  · obtain ⟨h,member,shown⟩ := Piece.hole_of_gone (i := 0) there
    have listed := traced.holes.mem_iff.mp member
    have mark : Preferred k := shown ▸ marks h listed
    obtain ⟨mid,fenced,-⟩ := (traced.bound o k there).2.fenced
    have starts : k ++ more = '['::((mid ++ [']']) ++ more) := by
      rw [fenced]
      rfl
    have some_hole : holes ≠ [] := List.ne_nil_of_mem listed
    rw [same,afterPlease_append (by rw [starts]; rintro c ⟨⟩; decide)]
    generalize afterPlease (Piece.run ps) = rest
    have verb {a b : Char} (first : '[' ≠ a) (second : '[' ≠ b) : [a,b] <+: rest ++ (k ++ more) ↔ [a,b] <+: rest := by
      rw [starts]
      exact prefix_append_opening (by simp [first,second])
    simp only [verb (a := '忘') (b := '记') (by decide) (by decide),verb (a := '删') (b := '除') (by decide) (by decide)]
    by_cases deletes : ['删','除'] <+: rest
    · have long : 2 ≤ rest.length := deletes.length_le
      rw [List.drop_append_of_le_length long]
      by_cases newline : '\n' ∈ rest.drop 2
      · rw [takeWhile_append_of_mem newline]
        simp [newline]
      · have mentions : ['偏','好'] <:+: (rest.drop 2 ++ (k ++ more)).takeWhile (· ≠ '\n') := by
          have one_line : (rest.drop 2 ++ k).takeWhile (· ≠ '\n') = rest.drop 2 ++ k := by
            rw [List.takeWhile_eq_self_iff]
            intro c among
            rcases List.mem_append.mp among with before | inside
            · exact decide_eq_true (fun same => newline (same ▸ before))
            · exact decide_eq_true (fun same => mark.oneLine (same ▸ inside))
          rw [← List.append_assoc,List.takeWhile_append,if_pos (by rw [one_line]),List.append_assoc]
          exact mark.mentions.trans ⟨rest.drop 2,_,List.append_assoc _ _ _⟩
        rw [decide_eq_true mentions]
        simp [newline,some_hole]
    · simp [deletes]

/-! ### One mask after another -/

namespace NoteShelf

variable {s : NoteShelf}

theorem iterate_id {times : Nat} {t : NoteText} : ((preferenceMask s.forgotten)^[times] t).id = t.id := by
  induction times with
  | zero => rfl
  | succ times ih => rw [Function.iterate_succ_apply',preferenceMask_id,ih]

theorem iterate_text {times : Nat} {t t' : NoteText} (id : t'.id = t.id) (text : t'.text = t.text) :
    ((preferenceMask s.forgotten)^[times] t').text = ((preferenceMask s.forgotten)^[times] t).text := by
  induction times with
  | zero => exact text
  | succ times ih =>
    rw [Function.iterate_succ_apply',Function.iterate_succ_apply',preferenceMask_text,preferenceMask_text,iterate_id,iterate_id,id,ih]

theorem shownText_iterate {times : Nat} {t : NoteText} :
    shownText ((s.tracePreferences t.id)^[times] (placed t.text.toList 0)) = ((preferenceMask s.forgotten)^[times] t).text := by
  induction times with
  | zero => exact shownText_placed
  | succ times ih =>
    rw [Function.iterate_succ_apply',Function.iterate_succ_apply',preferenceMask_text,iterate_id,tracePreferences,ih]
    split
    · exact congrArg String.ofList map_unplaced |>.trans String.ofList_toList
    · rw [shownText_foldl,ih]

theorem shownText_trace {r : Reading} : shownText (s.trace r) = (s.seen r).text := by
  unfold trace seen
  split
  · rw [shownText_foldl,factMask_text,shownText_iterate,iterate_id]
  · exact shownText_iterate

theorem kept_tracePreferences {id : String} {cells : Cells Char} :
    List.Sublist ((s.tracePreferences id cells).filter (·.2.isSome)) (cells.filter (·.2.isSome)) := by
  unfold tracePreferences
  split
  · have none : (unplaced commandMark.toList).filter (·.2.isSome) = [] := by simp [unplaced]
    rw [none]
    exact List.nil_sublist _
  · exact kept_foldl

theorem kept_trace {r : Reading} : List.Sublist ((s.trace r).filter (·.2.isSome)) (placed r.note.text.toList 0) := by
  have preferences (times : Nat) : List.Sublist
      (((s.tracePreferences r.note.id)^[times] (placed r.note.text.toList 0)).filter (·.2.isSome)) (placed r.note.text.toList 0) := by
    induction times with
    | zero => exact List.filter_sublist
    | succ times ih =>
      rw [Function.iterate_succ_apply']
      exact kept_tracePreferences.trans ih
  unfold trace
  split
  · exact kept_foldl.trans (preferences r.times)
  · exact preferences r.times

theorem spans_of_legible {patterns : List (List Char)} {text : List Char} (legible : LegibleEach noteFence text patterns) :
    ∀ p ∈ patterns, p ≠ [] := by
  induction patterns with
  | nil => exact fun p there => absurd there List.not_mem_nil
  | cons p rest ih =>
    obtain ⟨here,after⟩ := legible
    refine List.forall_mem_cons.mpr ⟨here,?_⟩
    split at after
    · exact fun p there => (after p there).1
    · exact ih after

/-- After so many masks for preferences: nothing of the note is left where it read as a command at
one of them, else what the occurrences taken leave. -/
theorem traced_preferences {r : Reading} {times : Nat} {more : List (List Char × List Char)}
    (legible : LegibleEach noteFence r.note.text.toList
      (((List.replicate times (s.preferenceSteps r.note.id)).flatten ++ more).map Prod.fst)) :
    let cells := (s.tracePreferences r.note.id)^[times] (placed r.note.text.toList 0)
    let holes := fun k => takenEach (List.replicate k (s.preferenceSteps r.note.id)).flatten r.note.text.toList
    (∃ k < times, Commands r.note.text.toList (holes k)) ∧ (∀ i, some i ∉ cells.map Prod.snd) ∧
        (∀ n : NoteText, n.id = r.note.id → n.text = r.note.text →
          (preferenceMask s.forgotten)^[times] n = (preferenceMask s.forgotten)^[times] r.note) ∨
      (¬∃ k < times, Commands r.note.text.toList (holes k)) ∧
        ∃ ps, Traced noteFence r.note.text.toList cells (holes times) ps ∧ Readable noteFence more ps := by
  intro cells holes
  induction times generalizing more with
  | zero => exact .inr ⟨fun ⟨k,before,_⟩ => absurd before (Nat.not_lt_zero k),_,.whole_text,.of_legible legible⟩
  | succ times ih =>
    rw [List.replicate_succ',List.flatten_concat,List.append_assoc] at legible
    have previous := ih legible
    have next : cells = s.tracePreferences r.note.id ((s.tracePreferences r.note.id)^[times] (placed r.note.text.toList 0)) :=
      Function.iterate_succ_apply' _ _ _
    rcases previous with ⟨⟨k,before,command⟩,none,same⟩ | ⟨other,ps,traced,readable⟩
    · refine .inl ⟨⟨k,Nat.lt_succ_of_lt before,command⟩,fun i there => none i ?_,fun n id text => ?_⟩
      · rw [next] at there
        exact label_of_kept kept_tracePreferences there
      · rw [Function.iterate_succ_apply',Function.iterate_succ_apply',same n id text]
    · have some_text : ∀ span ∈ preferenceSpans s.forgotten r.note.id, span ≠ "" := by
        rintro span there rfl
        refine spans_of_legible legible [] ?_ rfl
        exact List.mem_map.mpr ⟨([],preferenceMark.toList),List.mem_append_right _ (List.mem_append_left _ (List.mem_map.mpr ⟨"",there,rfl⟩)),rfl⟩
      have marks : ∀ h ∈ holes times, Preferred h.shown := by
        have listed : ∀ step ∈ (List.replicate times (s.preferenceSteps r.note.id)).flatten, step ∈ s.preferenceSteps r.note.id := by
          intro step there
          obtain ⟨steps,member,inside⟩ := List.mem_flatten.mp there
          exact List.eq_of_mem_replicate member ▸ inside
        refine takenEach_marks (fun step there => steps_marks preferenceMark_preferred step (listed step there))
          (fun step there k old => ?_)
        have inside := listed step there
        refine (steps_marks preferenceMark_preferred step inside : Preferred step.2).replaceAll ?_ old
        obtain ⟨span,member,rfl⟩ := List.mem_map.mp inside
        exact fun none => some_text span member (String.toList_inj.mp none)
      have reads := isCommand_traced traced marks
      by_cases command : Commands r.note.text.toList (holes times)
      · refine .inl ⟨⟨times,Nat.lt_succ_self times,command⟩,fun i there => ?_,fun n id text => ?_⟩
        · rw [next,tracePreferences,if_pos (reads.trans command)] at there
          exact label_unplaced there
        · rw [Function.iterate_succ_apply',Function.iterate_succ_apply']
          refine preferenceMask_same (by rw [iterate_id,iterate_id,id]) (iterate_text id text) (.inl ?_)
          rw [← shownText_iterate]
          exact reads.trans command
      · refine .inr ⟨fun ⟨k,before,commands⟩ => ?_,?_⟩
        · rcases Nat.lt_succ_iff_lt_or_eq.mp before with earlier | rfl
          · exact other ⟨k,earlier,commands⟩
          · exact command commands
        · obtain ⟨ps',after,rest⟩ := traced.each readable (steps_marks preferenceMark_marks)
          refine ⟨ps',?_,rest⟩
          rw [next,tracePreferences,if_neg (fun is => command (reads.symm.trans is)),foldl_traceSpan some_text]
          have chained : holes (times + 1) = (s.preferenceSteps r.note.id).foldl (takeStep r.note.text.toList) (holes times) := by
            change takenEach _ _ = _
            rw [List.replicate_succ',List.flatten_concat,takenEach,List.foldl_append]
            rfl
          rw [chained]
          exact after

/-- What is left of a note where its spans are legible. -/
theorem traced_trace {r : Reading} (legible : s.Legible r) :
    s.Commanded r ∧ (∀ i, some i ∉ (s.trace r).map Prod.snd) ∧
        (∀ n : NoteText, n.id = r.note.id → n.text = r.note.text → s.seen { r with note := n } = s.seen r) ∨
      ¬s.Commanded r ∧ ∃ ps, Traced noteFence r.note.text.toList (s.trace r) (takenEach (s.stepsOf r) r.note.text.toList) ps := by
  have preferences := traced_preferences legible
  unfold trace seen
  unfold Legible at legible
  unfold stepsOf at legible preferences ⊢
  rcases preferences with ⟨command,none,same⟩ | ⟨other,ps,traced,readable⟩
  · refine .inl ⟨command,fun i there => ?_,fun n id text => ?_⟩
    · split at there
      · exact none i (label_of_kept kept_foldl there)
      · exact none i there
    · dsimp only
      rw [same n id text]
  · refine .inr ⟨other,?_⟩
    split
    · rename_i facts
      rw [if_pos facts] at readable legible
      have some_text : ∀ span ∈ factSpans s.tombstones r.note.id, span ≠ "" := by
        rintro span there rfl
        refine spans_of_legible legible [] ?_ rfl
        exact List.mem_map.mpr ⟨([],factMark.toList),List.mem_append_right _ (List.mem_map.mpr ⟨"",there,rfl⟩),rfl⟩
      rw [← List.append_nil (s.factSteps r.note.id)] at readable
      obtain ⟨ps',after,-⟩ := traced.each readable (steps_marks factMark_marks)
      refine ⟨ps',?_⟩
      rw [foldl_traceSpan some_text,takenEach,List.foldl_append]
      exact after
    · exact ⟨ps,by rwa [List.append_nil]⟩

theorem seen_same {r : Reading} (some_steps : s.stepsOf r ≠ []) {n : NoteText} (id : n.id = r.note.id) (text : n.text = r.note.text) :
    s.seen { r with note := n } = s.seen r := by
  have preferences (some_step : s.preferenceSteps r.note.id ≠ []) (times : Nat) :
      (preferenceMask s.forgotten)^[times + 1] n = (preferenceMask s.forgotten)^[times + 1] r.note := by
    rw [Function.iterate_succ_apply',Function.iterate_succ_apply']
    refine preferenceMask_same (by rw [iterate_id,iterate_id,id]) (iterate_text id text) (.inr ?_)
    rw [iterate_id]
    exact mt steps_eq_nil.mpr some_step
  unfold seen
  unfold stepsOf at some_steps
  dsimp only
  rcases Classical.em ((List.replicate r.times (s.preferenceSteps r.note.id)).flatten = []) with none | some_preference
  · rw [none,List.nil_append] at some_steps
    split at some_steps
    · rename_i facts
      rw [if_pos facts,if_pos facts]
      refine factMask_same (by rw [iterate_id,iterate_id,id]) (iterate_text id text) ?_
      rw [iterate_id]
      exact mt steps_eq_nil.mpr some_steps
    · exact absurd rfl some_steps
  · obtain ⟨times,same⟩ : ∃ times, r.times = times + 1 := by
      cases times : r.times with
      | zero => exact absurd (by rw [times]; rfl) some_preference
      | succ k => exact ⟨k,rfl⟩
    have some_step : s.preferenceSteps r.note.id ≠ [] := fun none => some_preference (by simp [none])
    rw [same,preferences some_step times]

/-- Without a command and without spans a note is shown as it is. -/
theorem seen_of_no_steps {r : Reading} (other : ¬s.Commanded r) (none : s.stepsOf r = []) : s.seen r = r.note := by
  obtain ⟨no_preferences,no_facts⟩ := List.append_eq_nil_iff.mp none
  have preferences : (preferenceMask s.forgotten)^[r.times] r.note = r.note := by
    cases times : r.times with
    | zero => rfl
    | succ k =>
      rw [times,List.replicate_succ,List.flatten_cons,List.append_eq_nil_iff] at no_preferences
      have plain : isCommand r.note.text = false := by
        refine Bool.eq_false_iff.mpr (fun command => other ⟨0,by omega,?_⟩)
        have whole : Traced noteFence r.note.text.toList (placed r.note.text.toList 0) [] _ := .whole_text
        have reads := isCommand_traced whole (fun h there => nomatch there)
        rw [shownText_placed,command] at reads
        exact reads.symm
      have unchanged : preferenceMask s.forgotten r.note = r.note := by
        unfold preferenceMask
        rw [if_neg (Bool.eq_false_iff.mp plain),steps_eq_nil.mp no_preferences.1]
      exact Function.iterate_fixed unchanged (k + 1)
  unfold seen
  rw [preferences]
  split
  · rename_i facts
    rw [if_pos facts] at no_facts
    unfold factMask
    dsimp only
    rw [steps_eq_nil.mp no_facts]
  · rfl

/-- Without a command it takes spans for the words of a note not to show. -/
theorem seen_same_iff {r : Reading} (other : ¬s.Commanded r) : (∀ n : NoteText, n.id = r.note.id → n.text = r.note.text →
    s.seen { r with note := n } = s.seen r) ↔ s.stepsOf r ≠ [] := by
  refine ⟨fun same none => ?_,fun some_steps n id text => seen_same some_steps id text⟩
  have titles := congrArg NoteText.title (same { r.note with title := r.note.title ++ "x" } rfl rfl)
  rw [seen_of_no_steps other none,seen_of_no_steps (r := { r with note := { r.note with title := r.note.title ++ "x" } }) other none] at titles
  have lengths := congrArg String.length titles
  rw [String.length_append] at lengths
  exact absurd lengths (Nat.succ_ne_self _)

/-- A path conceals what is forgotten of a note just where its masks reach it. -/
theorem conceals_iff {path : NotePath} {r : Reading} (legible : s.Legible r) :
    s.Conceals path r ↔ s.ReachedText path r ∧ s.ReachedWords r := by
  have text : (∀ i < r.note.text.toList.length, some i ∈ (path.cutCells (s.trace r)).map Prod.snd ↔ ¬s.Forgotten r i) ↔
      s.ReachedText path r := by
    refine forall₂_congr (fun i short => ?_)
    rcases traced_trace legible with ⟨command,none,-⟩ | ⟨other,ps,traced⟩
    · have gone : some i ∉ (path.cutCells (s.trace r)).map Prod.snd := fun there => none i (label_of_kept kept_cutCells there)
      simp only [gone,false_iff,not_not,command,true_or,iff_true]
    · rw [label_cutCells traced,and_iff_right short,or_iff_right other,not_iff_not]
      exact Iff.comm
  have words : ((∃ i, s.Forgotten r i) → ∀ n : NoteText, n.id = r.note.id → n.text = r.note.text →
      s.seen { r with note := n } = s.seen r) ↔ s.ReachedWords r := by
    have among : (∃ i, s.Forgotten r i) ↔ ∃ i < r.note.text.toList.length, s.Forgotten r i :=
      exists_congr (fun i => (and_iff_right_of_imp Covered.lt).symm)
    rw [among]
    refine imp_congr_right (fun _ => ?_)
    rcases traced_trace legible with ⟨command,-,same⟩ | ⟨other,-⟩
    · exact iff_of_true same (.inl command)
    · rw [or_iff_right other]
      exact seen_same_iff other
  rw [← text,← words]
  exact ⟨fun conceals => ⟨conceals.text,conceals.words⟩,fun ⟨shown,same⟩ => ⟨shown,same⟩⟩

/-! ### The readers -/

def Read (s : NoteShelf) (n n' : NoteMetadata) : Prop :=
  n'.spaceId = n.spaceId ∧ words n' = if s.postgres then words n else preferenceMask s.forgotten (words n)

theorem words_withWords {n : NoteMetadata} {t : NoteText} (same : t.id = n.id) : words (withWords n t) = t := by
  obtain ⟨id,title,summary,tags,text⟩ := t
  obtain rfl : id = n.id := same
  rfl

theorem read_of_row (postgres : s.postgres = true) {n : NoteMetadata} (there : n ∈ s.rows) : ∃ m ∈ s.notes, s.Read m n :=
  ⟨n,List.mem_of_mem_filter there,rfl,by rw [if_pos postgres]⟩

theorem read_of_safe (index : s.postgres = false) {n : NoteMetadata} (there : n ∈ s.safeNotes) : ∃ m ∈ s.notes, s.Read m n := by
  obtain ⟨m,member,rfl⟩ := List.mem_map.mp there
  refine ⟨m,List.mem_of_mem_filter member,rfl,?_⟩
  rw [words_withWords preferenceMask_id,if_neg (Bool.eq_false_iff.mp index)]

theorem read_of_candidate {n : NoteMetadata} (there : n ∈ s.candidates) : ∃ m ∈ s.notes, s.Read m n := by
  unfold candidates at there
  split at there
  · rename_i postgres
    exact read_of_row postgres (List.mem_of_mem_filter there)
  · rename_i index
    exact read_of_safe (Bool.eq_false_iff.mpr index) there

theorem read_of_find {noteId : String} {n : NoteMetadata} (found : s.findNote noteId = some n) : ∃ m ∈ s.notes, s.Read m n := by
  have there := List.mem_of_find?_eq_some (Option.filter_eq_some_iff.mp found).1
  split at there
  · rename_i postgres
    exact read_of_row postgres there
  · rename_i index
    exact read_of_safe (Bool.eq_false_iff.mpr index) there

theorem Read.iterate {n n' : NoteMetadata} (read : s.Read n n') :
    (preferenceMask s.forgotten)^[(if s.postgres then 0 else 1) + 1] (words n) = preferenceMask s.forgotten (words n') := by
  rw [read.2]
  split <;> rfl

theorem Read.brief {path : NotePath} {n n' : NoteMetadata} (read : s.Read n n') {limit : Nat} (brief : path.evidence = false)
    (cut : path.cut = clip limit) : (s.noteBrief limit n').shown = s.view path (s.reading path n) := by
  have seen : s.seen (s.reading path n) =
      if n'.spaceId = "" then words n' else factMask s.tombstones (preferenceMask s.forgotten (words n')) := by
    unfold NoteShelf.seen reading
    rw [brief,read.1]
    by_cases spaceless : n.spaceId = ""
    · simp only [spaceless,Bool.not_false,Bool.true_and,ne_eq,not_true_eq_false,decide_false,Bool.false_or,Bool.false_eq_true,if_false,
        if_true,Nat.add_zero]
      rw [read.2]
      split <;> rfl
    · simp only [spaceless,Bool.not_false,Bool.true_and,ne_eq,not_false_eq_true,decide_true,Bool.or_true,if_true,if_false,read.iterate]
  rw [view,seen,cut]
  rfl

theorem Read.evidence {path : NotePath} {n n' : NoteMetadata} (read : s.Read n n') (evidence : path.evidence = true) :
    s.seen (s.reading path n) = preferenceMask s.forgotten (words n') := by
  unfold NoteShelf.seen reading
  rw [evidence]
  simp only [Bool.not_true,Bool.false_and,Bool.true_or,if_true,Bool.false_eq_true,if_false,read.iterate]

/-- A reading of the path shows it. -/
def Shows (s : NoteShelf) (path : NotePath) (w : NoteWords) : Prop := ∃ r ∈ s.readings path, w = s.view path r

theorem shows_note {path : NotePath} {n : NoteMetadata} (stored : n ∈ s.notes) (rows : s.readsVectors path = false) {w : NoteWords}
    (same : w = s.view path (s.reading path n)) : s.Shows path w := by
  refine ⟨s.reading path n,?_,same⟩
  rw [readings,rows]
  exact List.mem_map_of_mem stored

theorem shows_brief {path : NotePath} {n' : NoteMetadata} (source : ∃ n ∈ s.notes, s.Read n n') (rows : s.readsVectors path = false)
    {limit : Nat} (brief : path.evidence = false) (cut : path.cut = clip limit) : s.Shows path (s.noteBrief limit n').shown := by
  obtain ⟨n,stored,read⟩ := source
  exact shows_note stored rows (read.brief brief cut)

theorem shows_briefs {path : NotePath} {q : NoteQuery} (rows : s.readsVectors path = false) (brief : path.evidence = false)
    (cut : path.cut = clip 500) : ∀ w ∈ (s.briefs q).map (·.shown), s.Shows path w := by
  intro w there
  obtain ⟨b,member,rfl⟩ := List.mem_map.mp there
  obtain ⟨n',chosen,rfl⟩ := List.mem_map.mp member
  exact shows_brief (read_of_candidate (s.choose_subset q _ chosen)) rows brief cut

theorem shows_entries {path : NotePath} {query : String} {topK : Nat} (vectors : s.readsVectors path = true)
    (cut : path.cut = clip 500) : ∀ w ∈ (s.vectorSearch query topK).map (·.shown), s.Shows path w := by
  intro w there
  obtain ⟨entry,member,rfl⟩ := List.mem_map.mp there
  obtain ⟨e,chosen,rfl⟩ := List.mem_map.mp member
  refine ⟨⟨e.toNoteText,1,false⟩,?_,?_⟩
  · rw [readings,vectors]
    exact List.mem_map_of_mem (s.nearest_subset _ _ _ chosen)
  · rw [view,cut]
    rfl

theorem mem_followLinks {noteId : String} {limit : Int} {links : Links} (found : s.followLinks noteId limit = some links) {b : Brief}
    (among : b ∈ links.all) : ∃ n', (∃ n ∈ s.notes, s.Read n n') ∧ b = s.noteBrief 500 n' := by
  unfold followLinks at found
  split at found
  · rename_i postgres
    have row {n : NoteMetadata} (there : n ∈ s.shownRows) (ids : List String) :
        ∃ n', (∃ m ∈ s.notes, s.Read m n') ∧ s.noteBrief 500 { n with related := ids } = s.noteBrief 500 n' := by
      obtain ⟨m,member,read⟩ := read_of_row postgres (List.mem_of_mem_filter there)
      exact ⟨{ n with related := ids },⟨m,member,read⟩,rfl⟩
    obtain ⟨n,source,rfl⟩ := Option.map_eq_some_iff.mp found
    rcases List.mem_cons.mp among with rfl | among
    · exact row (List.mem_of_find?_eq_some source) _
    · rcases List.mem_append.mp among with linked | linked <;>
      · obtain ⟨n,listed,rfl⟩ := List.mem_map.mp linked
        obtain ⟨id,-,there⟩ := List.mem_filterMap.mp listed
        exact row (List.mem_of_find?_eq_some there) _
  · rename_i index
    have safe {n : NoteMetadata} (there : n ∈ s.safeNotes) :
        ∃ n', (∃ m ∈ s.notes, s.Read m n') ∧ s.noteBrief 500 n = s.noteBrief 500 n' :=
      ⟨n,read_of_safe (Bool.eq_false_iff.mpr index) there,rfl⟩
    obtain ⟨n,source,rfl⟩ := Option.map_eq_some_iff.mp found
    rcases List.mem_cons.mp among with rfl | among
    · exact safe (List.mem_of_find?_eq_some source)
    · rcases List.mem_append.mp among with linked | linked
      · obtain ⟨n,listed,rfl⟩ := List.mem_map.mp linked
        obtain ⟨id,-,there⟩ := List.mem_filterMap.mp listed
        exact safe (List.mem_of_mem_filter (List.mem_of_getLast? there))
      · obtain ⟨n,listed,rfl⟩ := List.mem_map.mp linked
        exact safe (List.mem_of_mem_filter (List.mem_of_mem_take listed))

theorem shows_searched {path : NotePath} {query : String} {topK : Int} (brief : path.evidence = false)
    (vectors : s.readsVectors path = !(s.postgres && s.hybrid)) (cut : path.cut = clip 500) :
    ∀ w ∈ searched (s.semanticSearch query topK), s.Shows path w := by
  unfold semanticSearch
  intro w there
  dsimp only at there
  split at there
  · exact absurd there List.not_mem_nil
  · split at there
    · rename_i hybrid
      exact shows_briefs (by rw [vectors,hybrid]; rfl) brief cut w there
    · rename_i plain_search
      exact shows_entries (by rw [vectors,Bool.eq_false_iff.mpr plain_search]; rfl) cut w there

/-- What a path gives is what one of its readings shows. -/
theorem shown_shows {path : NotePath} {w : NoteWords} (there : w ∈ s.shown path) : s.Shows path w := by
  cases path with
  | getNote noteId =>
    obtain ⟨brief,found,rfl⟩ := List.mem_map.mp there
    obtain ⟨n,source,rfl⟩ := Option.map_eq_some_iff.mp (Option.mem_toList.mp found)
    exact shows_brief (read_of_find source) rfl rfl rfl
  | getNoteForEvidence noteId =>
    obtain ⟨shown,found,rfl⟩ := List.mem_map.mp there
    obtain ⟨n',source,rfl⟩ := Option.map_eq_some_iff.mp (Option.mem_toList.mp found)
    obtain ⟨n,stored,read⟩ := read_of_find source
    refine shows_note stored rfl ?_
    rw [view,read.evidence rfl]
    rfl
  | hydrated noteId =>
    obtain ⟨shown,found,rfl⟩ := List.mem_map.mp there
    obtain ⟨full,whole,rfl⟩ := Option.map_eq_some_iff.mp (Option.mem_toList.mp found)
    obtain ⟨n',source,rfl⟩ := Option.map_eq_some_iff.mp whole
    obtain ⟨n,stored,read⟩ := read_of_find source
    refine shows_note stored rfl ?_
    rw [view,read.evidence rfl]
    rfl
  | filterNotes noteType tags matchAll limit => exact shows_briefs rfl rfl rfl w there
  | listRecent days limit => exact shows_briefs rfl rfl rfl w there
  | provisionalSearch query limit => exact shows_briefs rfl rfl rfl w there
  | semanticSearch query topK => exact shows_searched rfl rfl rfl w there
  | followLinks noteId limit =>
    obtain ⟨brief,member,rfl⟩ := List.mem_map.mp there
    obtain ⟨links,found,among⟩ := List.mem_flatMap.mp member
    obtain ⟨n',source,rfl⟩ := mem_followLinks (Option.mem_toList.mp found) among
    exact shows_brief source rfl rfl rfl
  | memoryNoteFallback query limit =>
    change w ∈ searched (s.memoryNoteFallback query limit) at there
    unfold memoryNoteFallback at there
    split at there
    · rename_i rows_only
      have rows : s.readsVectors (.memoryNoteFallback query limit) = false := by
        rw [readsVectors,(Bool.and_eq_true_iff.mp rows_only).1]
        rfl
      exact shows_briefs rows rfl rfl w there
    · rename_i other
      refine shows_searched rfl ?_ rfl w there
      revert other
      change ¬(s.postgres && !s.hybrid) = true → (!s.postgres) = !(s.postgres && s.hybrid)
      cases s.postgres <;> cases s.hybrid <;> decide

def noteWith (text : String) : NoteMetadata :=
  ⟨"n","m","s","2026-01-01","标题",["生活"],"note","摘要",text,[],"ready",0,none,none,none,"normal","default"⟩

def ofNote (text : String) (forgotten : List ForgottenSource) (tombstones : List Facts.Tombstone) : NoteShelf where
  spaceId := "s"
  postgres := true
  hybrid := true
  notes := [noteWith text]
  relations := []
  vectors := []
  forgotten := forgotten
  tombstones := tombstones
  casefold := id
  containsSensitiveData := fun _ => false
  choose := fun _ notes => notes
  choose_subset := fun _ _ => List.Subset.refl _
  nearest := fun _ _ entries => entries
  nearest_subset := fun _ _ _ => List.Subset.refl _

/-- Of a note with a fact and a preference forgotten both spans are gone, also one in brackets. -/
def forgetful : NoteShelf := ofNote "我住在北京，喜欢[咖啡]" [⟨"f","n","喜欢[咖啡]"⟩] [⟨"n","住在北京"⟩]

end NoteShelf
end Suixinji.Ask
