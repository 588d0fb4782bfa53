import Suixinji.Ask.Fallback
import Suixinji.Relational.Firsts
import Suixinji.Relational.Window

/-! `hydrate_selected_evidence` (agent/ask_executor.py): the ids it collects, and the notes it reads for them. -/
namespace Suixinji.Ask
open Firsts

structure SourcedItem extends EvidenceItem where
  fullText : Option String := none

structure SourcedBundle where
  unitId : String
  evidence : List SourcedItem
  resolution : UnitResolution

/-- A note of `get_note_for_evidence`, which has the id that was asked for. -/
structure SourceNote where
  ts : Option String
  createdAt : Option String
  title : String
  summary : String
  text : String

abbrev NoteReader := String → Option (Option SourceNote)

/-! ### The ids -/

def SourcedItem.own (item : SourcedItem) : Option String := if item.sourceKind = .note then item.noteId.filter (· ≠ "") else none

def addNew (ids : List String) (id : String) : List String := if id ∈ ids then ids else ids ++ [id]

def takeSources (most : Nat) : List String → List String → List String
  | ids,[] => ids
  | ids,id::rest => if most ≤ (addNew ids id).length then addNew ids id else takeSources most (addNew ids id) rest

def takeItem (most : Nat) (ids : List String) (item : SourcedItem) : List String × Bool :=
  match item.own with
  | none => (takeSources most ids item.sourceNoteIds,false)
  | some id =>
    if id ∈ ids then (takeSources most ids item.sourceNoteIds,false)
    else if most ≤ (ids ++ [id]).length then (ids ++ [id],true)
    else (takeSources most (ids ++ [id]) item.sourceNoteIds,false)

def takeItems (most : Nat) : List String → List SourcedItem → List String
  | ids,[] => ids
  | ids,item::rest =>
    let (ids,ended) := takeItem most ids item
    if ended then ids else takeItems most ids rest

def takeBundle (most : Nat) (need : String → Bool) (ids : List String) (b : SourcedBundle) : List String :=
  if need b.unitId then takeItems most ids b.evidence else ids

def noteIds (most : Nat) (need : String → Bool) (bundles : List SourcedBundle) : List String := bundles.foldl (takeBundle most need) []

/-! ### The notes -/

/-- `item.note_id == note_id or item.evidence_id == note_id or note_id in item.source_note_ids` -/
def SourcedItem.names (item : SourcedItem) (id : String) : Bool := item.noteId = some id || item.evidenceId = id || id ∈ item.sourceNoteIds

/-- Python's `a or b` on texts that may be missing. -/
def orGiven (a b : Option String) : Option String := if a.getD "" = "" then b else a

def SourceNote.full (note : SourceNote) : String := orText note.text (orText note.summary note.title)

def expansion : String := "expand_memory_evidence"

def SourcedItem.fill (item : SourcedItem) (note : SourceNote) : SourcedItem :=
  { item with
    fullText := some note.full
    observedAt := orGiven item.observedAt (orGiven note.ts note.createdAt)
    retrievalChannels := addNew item.retrievalChannels expansion }

def noteItem (id : String) (note : SourceNote) : SourcedItem where
  evidenceId := id
  sourceKind := .note
  memoryType := none
  content := Text.slice 2400 (orText note.summary note.title)
  evidenceSpan := none
  memoryId := none
  versionId := none
  noteId := some id
  sourceNoteIds := []
  taskCard := none
  preferenceDetails := []
  eventTime := none
  observedAt := orGiven note.ts note.createdAt
  recordedAt := none
  taskStatus := none
  retrievalChannels := [expansion]
  evidenceRole := .rawNote
  fullText := some note.full

def Citable (id : String) : Prop := 1 ≤ id.length ∧ id.length ≤ 128

instance (id : String) : Decidable (Citable id) := inferInstanceAs (Decidable (_ ∧ _))

def SourcedBundle.fill (b : SourcedBundle) (id : String) (note : SourceNote) : SourcedBundle :=
  { b with evidence := b.evidence.map (fun item => if item.names id then item.fill note else item) }

/-- A bundle with a note, and whether the making of an item of it has raised. -/
def expandBundle (need : String → Bool) (id : String) (note : SourceNote) (b : SourcedBundle) : SourcedBundle × Bool :=
  if !need b.unitId || !b.evidence.any (·.names id) then (b,false)
  else if (b.fill id note).evidence.any (fun item => item.noteId = some id) then (b.fill id note,false)
  else if Citable id then ({ b with evidence := (b.fill id note).evidence ++ [noteItem id note] },false)
  else (b.fill id note,true)

def expandBundles (need : String → Bool) (id : String) (note : SourceNote) : List SourcedBundle → List SourcedBundle × Bool
  | [] => ([],false)
  | b::rest =>
    let (b,raised) := expandBundle need id note b
    if raised then (b::rest,true)
    else
      let (rest,raised) := expandBundles need id note rest
      (b::rest,raised)

/-- What callers are shown of a note. -/
structure NotePreview where
  id : String
  title : String
  summary : String
  text : String
  ts : Option String
  deriving DecidableEq

def SourceNote.preview (id : String) (note : SourceNote) : NotePreview :=
  { id,title := note.title,summary := note.summary,text := Text.slice 1200 note.text,ts := orGiven note.ts note.createdAt }

structure Hydration where
  bundles : List SourcedBundle
  notes : List NotePreview := []
  /-- The ids that were read. -/
  reads : List String := []
  raised : Bool := false

def hydrateNote (need : String → Bool) (read : NoteReader) (d : Hydration) (id : String) : Hydration :=
  if d.raised then d
  else match read id with
  | none => { d with reads := d.reads ++ [id],raised := true }
  | some none => { d with reads := d.reads ++ [id] }
  | some (some note) =>
    let (bundles,raised) := expandBundles need id note d.bundles
    { bundles,notes := d.notes ++ [note.preview id],reads := d.reads ++ [id],raised }

def needsSource (plan : AskPlan) (id : String) : Bool := plan.units.any (fun unit => unit.id = id && unit.needSourceEvidence)

/-- `hydrate_selected_evidence`; where it raises the bundles are left as they are then. -/
def hydrateSelectedEvidence (plan : AskPlan) (maxHydrateIds : ℤ) (read : NoteReader) (bundles : List SourcedBundle) : Hydration :=
  (noteIds (max 1 maxHydrateIds).toNat (needsSource plan) bundles).foldl (hydrateNote (needsSource plan) read) {bundles}

/-! ### What the ids come to -/

def SourcedItem.offers (item : SourcedItem) : List String := item.own.toList ++ item.sourceNoteIds

/-- Those that are looked at when there is no room any more. -/
def SourcedItem.looked (item : SourcedItem) : List String := item.own.toList ++ item.sourceNoteIds.take 1

def offersOf (need : String → Bool) (bundles : List SourcedBundle) : List String :=
  bundles.flatMap (fun b => if need b.unitId then b.evidence.flatMap (·.offers) else [])

def distinct (ids : List String) : List String := firsts (fun id => id) ids

/-- An item's own id is a new one, and the last that there is room for. -/
def Ends (most : Nat) (seen : List String) (item : SourcedItem) : Prop := ∃ id ∈ item.own, id ∉ seen ∧ (distinct seen).length + 1 = most

/-- The items with those ids that come before each of them. -/
def Ended (most : Nat) (seen : List String) (items : List SourcedItem) : Prop :=
  ∃ before item after, items = before ++ item::after ∧ Ends most (seen ++ before.flatMap (·.offers)) item

/-- No item that comes when there is no room any more has at first an id that there was no room for; those after an item whose own id
took the last room do not come. -/
def Calm (most : Nat) (seen : List String) (items : List SourcedItem) : Prop :=
  ∀ before item after, items = before ++ item::after → most ≤ (distinct (seen ++ before.flatMap (·.offers))).length →
    ¬Ended most seen before → item.looked ⊆ (distinct (seen ++ before.flatMap (·.offers))).take most

section Ids

variable {most : Nat} {seen ids : List String} {id : String} {item : SourcedItem} {items rest : List SourcedItem}

theorem mem_distinct : id ∈ distinct seen ↔ id ∈ seen := by
  have keys : id ∈ (distinct seen).map (fun id => id) ↔ id ∈ seen.map (fun id => id) := mem_keys_firsts
  rwa [List.map_id',List.map_id'] at keys

theorem distinct_snoc (seen : List String) (id : String) : distinct (seen ++ [id]) = addNew (distinct seen) id := by
  rw [distinct,firsts_snoc,List.map_id']
  rfl

theorem distinct_append (seen more : List String) : distinct seen <+: distinct (seen ++ more) := by
  induction more using List.reverseRecOn with
  | nil => rw [List.append_nil]
  | append_singleton more id ih =>
    rw [← List.append_assoc,distinct_snoc,addNew]
    split
    · exact ih
    · exact ih.trans (List.prefix_append _ _)

theorem take_distinct_append (full : most ≤ (distinct seen).length) (more : List String) :
    (distinct (seen ++ more)).take most = (distinct seen).take most := by
  obtain ⟨later,same⟩ := distinct_append seen more
  rw [← same,List.take_append_of_le_length full]

/-- The ids are the distinct ones of those seen, or hold the first of them that there was room for. -/
structure Collected (most : Nat) (seen ids : List String) : Prop where
  open_ : (distinct seen).length < most → ids = distinct seen
  full : most ≤ (distinct seen).length → (distinct seen).take most <+: ids

theorem collected_distinct (seen : List String) : Collected most seen (distinct seen) := ⟨fun _ => rfl,fun _ => List.take_prefix _ _⟩

theorem Collected.length (collected : Collected most seen ids) : most ≤ ids.length ↔ most ≤ (distinct seen).length := by
  by_cases full : most ≤ (distinct seen).length
  · have few := (collected.full full).length_le
    rw [List.length_take,min_eq_left full] at few
    exact ⟨fun _ => full,fun _ => few⟩
  · rw [collected.open_ (not_le.mp full)]

theorem addNew_grows (ids : List String) (id : String) : ids <+: addNew ids id := by
  unfold addNew
  split
  · exact List.prefix_rfl
  · exact List.prefix_append _ _

theorem Collected.add (collected : Collected most seen ids) (id : String) : Collected most (seen ++ [id]) (addNew ids id) := by
  by_cases full : most ≤ (distinct seen).length
  · have still : most ≤ (distinct (seen ++ [id])).length := full.trans (distinct_append seen [id]).length_le
    refine ⟨fun room => absurd still (not_le.mpr room),fun _ => ?_⟩
    rw [take_distinct_append full]
    exact (collected.full full).trans (addNew_grows ids id)
  · rw [collected.open_ (not_le.mp full),← distinct_snoc]
    exact collected_distinct _

theorem Collected.past (collected : Collected most seen ids) (full : most ≤ ids.length) (more : List String) : Collected most (seen ++ more) ids := by
  have before := collected.length.mp full
  have still := before.trans (distinct_append seen more).length_le
  refine ⟨fun room => absurd still (not_le.mpr room),fun _ => ?_⟩
  rw [take_distinct_append before]
  exact collected.full before

theorem Collected.ofSources (collected : Collected most seen ids) (more : List String) :
    Collected most (seen ++ more) (takeSources most ids more) := by
  induction more generalizing seen ids with
  | nil => rwa [List.append_nil]
  | cons id more ih =>
    have added := collected.add id
    rw [takeSources]
    split
    · rename_i full
      rw [List.append_cons]
      exact added.past full more
    · rw [List.append_cons]
      exact ih added

theorem Collected.ofItem (collected : Collected most seen ids) (item : SourcedItem) :
    Collected most (seen ++ item.offers) (takeItem most ids item).1 := by
  unfold takeItem SourcedItem.offers
  cases own : item.own with
  | none => exact collected.ofSources item.sourceNoteIds
  | some id =>
    have added := collected.add id
    rw [Option.toList_some,← List.append_assoc]
    dsimp only
    split
    · rename_i known
      rw [addNew,if_pos known] at added
      exact added.ofSources item.sourceNoteIds
    · rename_i new
      rw [addNew,if_neg new] at added
      split
      · rename_i full
        exact added.past full item.sourceNoteIds
      · exact added.ofSources item.sourceNoteIds

theorem takeItem_ended (ended : (takeItem most ids item).2 = true) : most ≤ (takeItem most ids item).1.length := by
  unfold takeItem at ended ⊢
  cases own : item.own with
  | none => simp [own] at ended
  | some id =>
    simp only [own] at ended ⊢
    split at ended
    · cases ended
    · split at ended
      · rename_i new full
        rw [if_neg new,if_pos full]
        exact full
      · cases ended

theorem takeItems_cons : takeItems most ids (item::rest) =
    if (takeItem most ids item).2 then (takeItem most ids item).1 else takeItems most (takeItem most ids item).1 rest := rfl

theorem Collected.ofItems (collected : Collected most seen ids) (items : List SourcedItem) :
    Collected most (seen ++ items.flatMap (·.offers)) (takeItems most ids items) := by
  induction items generalizing seen ids with
  | nil => rwa [List.flatMap_nil,List.append_nil]
  | cons item rest ih =>
    have first := collected.ofItem item
    rw [takeItems_cons,List.flatMap_cons,← List.append_assoc]
    split
    · rename_i ended
      exact first.past (takeItem_ended ended) _
    · exact ih first

theorem takeSources_grows (ids more : List String) : ids <+: takeSources most ids more := by
  induction more generalizing ids with
  | nil => exact List.prefix_rfl
  | cons id more ih =>
    rw [takeSources]
    split
    · exact addNew_grows ids id
    · exact (addNew_grows ids id).trans (ih _)

theorem takeItem_grows (ids : List String) (item : SourcedItem) : ids <+: (takeItem most ids item).1 := by
  unfold takeItem
  split
  · exact takeSources_grows ids _
  · split
    · exact takeSources_grows ids _
    · split
      · exact List.prefix_append _ _
      · exact (List.prefix_append _ _).trans (takeSources_grows _ _)

theorem takeItems_grows (ids : List String) (items : List SourcedItem) : ids <+: takeItems most ids items := by
  induction items generalizing ids with
  | nil => exact List.prefix_rfl
  | cons item rest ih =>
    rw [takeItems_cons]
    split
    · exact takeItem_grows ids item
    · exact (takeItem_grows ids item).trans (ih _)

theorem takeSources_room (room : ids.length < most) (more : List String) : (takeSources most ids more).length ≤ most := by
  induction more generalizing ids with
  | nil => exact room.le
  | cons id more ih =>
    have one : (addNew ids id).length ≤ ids.length + 1 := by
      unfold addNew
      split
      · omega
      · rw [List.length_append,List.length_singleton]
    rw [takeSources]
    split
    · omega
    · rename_i still
      exact ih (not_le.mp still)

theorem takeItem_room (room : ids.length < most) (item : SourcedItem) : (takeItem most ids item).1.length ≤ most := by
  unfold takeItem
  split
  · exact takeSources_room room _
  · split
    · exact takeSources_room room _
    · split
      · rw [List.length_append,List.length_singleton]
        exact room
      · rename_i still
        exact takeSources_room (not_le.mp still) _

theorem addNew_length : (addNew ids id).length ≤ ids.length ↔ id ∈ ids := by
  unfold addNew
  split
  · simp [*]
  · simp [*]

theorem takeSources_full (full : most ≤ ids.length) (more : List String) : (takeSources most ids more).length ≤ ids.length ↔ more.take 1 ⊆ ids := by
  cases more with
  | nil => simp [takeSources]
  | cons id more =>
    rw [takeSources,if_pos (full.trans (addNew_grows ids id).length_le),addNew_length]
    simp

theorem takeItem_full (full : most ≤ ids.length) (item : SourcedItem) : (takeItem most ids item).1.length ≤ ids.length ↔ item.looked ⊆ ids := by
  unfold takeItem SourcedItem.looked
  cases item.own with
  | none => exact takeSources_full full _
  | some id =>
    dsimp only
    rw [Option.toList_some,List.singleton_append,List.cons_subset]
    by_cases known : id ∈ ids
    · rw [if_pos known,takeSources_full full]
      exact (and_iff_right known).symm
    · have filled : most ≤ (ids ++ [id]).length := full.trans (List.prefix_append ids [id]).length_le
      rw [if_neg known,if_pos filled,List.length_append,List.length_singleton]
      exact ⟨fun few => absurd few (by omega),fun held => absurd held.1 known⟩

theorem ended_cons : Ended most seen (item::rest) ↔ Ends most seen item ∨ Ended most (seen ++ item.offers) rest := by
  have first (items : List SourcedItem) :=
    @exists_split_cons _ (fun before item => Ends most (seen ++ before.flatMap (·.offers)) item) items item
  simpa only [Ended,List.flatMap_cons,List.flatMap_nil,List.append_nil,List.append_assoc] using first rest

theorem calm_nil : Calm most seen [] := fun before item after split => by simp at split

theorem calm_cons : Calm most seen (item::rest) ↔
    (most ≤ (distinct seen).length → item.looked ⊆ (distinct seen).take most) ∧ (Ends most seen item ∨ Calm most (seen ++ item.offers) rest) := by
  have start : ¬Ended most seen [] := by
    rintro ⟨before,_,_,split,_⟩
    simp at split
  unfold Calm
  rw [Window.splits_cons]
  simp only [ended_cons,List.flatMap_cons,List.flatMap_nil,List.append_nil,start,not_false_eq_true,true_imp_iff,List.append_assoc,not_or,and_imp]
  refine and_congr_right fun _ => ⟨fun later => ?_,?_⟩
  · by_cases ends : Ends most seen item
    · exact .inl ends
    · exact .inr fun before item' after split full calm => later before item' after split full ends calm
  · rintro (ends | later) before item' after split full others calm
    · exact absurd ends others
    · exact later before item' after split full calm

theorem Collected.eq_take (collected : Collected most seen ids) (few : ids.length ≤ most) : ids = (distinct seen).take most := by
  by_cases full : most ≤ (distinct seen).length
  · refine ((collected.full full).eq_of_length ?_).symm
    rw [List.length_take,min_eq_left full]
    exact le_antisymm (collected.length.mpr full) few
  · rw [collected.open_ (not_le.mp full),List.take_of_length_le (not_le.mp full).le]

theorem takeItem_ends : (takeItem most ids item).2 = true ↔ ∃ id ∈ item.own, id ∉ ids ∧ most ≤ ids.length + 1 := by
  unfold takeItem
  cases item.own with
  | none => simp
  | some id =>
    dsimp only
    by_cases known : id ∈ ids
    · simp [known]
    · rw [if_neg known,List.length_append,List.length_singleton]
      by_cases full : most ≤ ids.length + 1
      · simp [known,full]
      · simp [full]

theorem takeItems_calm (collected : Collected most seen ids) (few : ids.length ≤ most) (items : List SourcedItem) :
    (takeItems most ids items).length ≤ most ↔ Calm most seen items := by
  induction items generalizing seen ids with
  | nil => exact iff_of_true few calm_nil
  | cons item rest ih =>
    have next := collected.ofItem item
    rw [takeItems_cons,calm_cons]
    rcases few.lt_or_eq with room | full
    · have open_ : (distinct seen).length < most := not_le.mp (fun full => absurd (collected.length.mpr full) (not_le.mpr room))
      obtain rfl := collected.open_ open_
      have fits := takeItem_room room item
      have ends : (takeItem most (distinct seen) item).2 = true ↔ Ends most seen item := by
        rw [takeItem_ends]
        unfold Ends
        simp only [mem_distinct]
        exact exists_congr fun id => and_congr_right fun _ => and_congr_right fun _ => ⟨fun full => by omega,fun full => full.ge⟩
      rw [and_iff_right (fun full => absurd open_ (not_lt.mpr full)),← ends]
      by_cases ended : (takeItem most (distinct seen) item).2 = true
      · rw [if_pos ended]
        exact iff_of_true fits (.inl ended)
      · rw [if_neg ended,or_iff_right ended]
        exact ih next fits
    · have full' := collected.length.mp full.ge
      have same := collected.eq_take few
      have fits := takeItem_full full.ge item
      rw [full,same] at fits
      rw [← same] at fits
      have open_ : ¬Ends most seen item := by
        rintro ⟨_,_,_,room⟩
        omega
      rw [or_iff_right open_,← same]
      by_cases looked : item.looked ⊆ ids
      · have ended : ¬(takeItem most ids item).2 = true := by
          rw [takeItem_ends]
          rintro ⟨id,own,new,_⟩
          refine new (looked ?_)
          rw [SourcedItem.looked,own]
          exact List.mem_cons_self
        rw [if_neg ended,ih next (fits.mpr looked)]
        exact (and_iff_right fun _ => looked).symm
      · refine iff_of_false (fun all => looked (fits.mp (le_trans ?_ all))) fun both => looked (both.1 full')
        split
        · exact le_rfl
        · exact (takeItems_grows _ _).length_le

theorem addNew_nodup (once : ids.Nodup) (id : String) : (addNew ids id).Nodup := by
  unfold addNew
  split
  · exact once
  · rename_i new
    rw [← List.concat_eq_append]
    exact once.concat new

theorem takeSources_nodup (once : ids.Nodup) (more : List String) : (takeSources most ids more).Nodup := by
  induction more generalizing ids with
  | nil => exact once
  | cons id more ih =>
    rw [takeSources]
    split
    · exact addNew_nodup once id
    · exact ih (addNew_nodup once id)

theorem takeItem_nodup (once : ids.Nodup) (item : SourcedItem) : (takeItem most ids item).1.Nodup := by
  unfold takeItem
  split
  · exact takeSources_nodup once _
  · rename_i id _
    have added := addNew_nodup once id
    split
    · exact takeSources_nodup once _
    · rename_i new
      rw [addNew,if_neg new] at added
      split
      · exact added
      · exact takeSources_nodup added _

theorem takeItems_nodup (once : ids.Nodup) (items : List SourcedItem) : (takeItems most ids items).Nodup := by
  induction items generalizing ids with
  | nil => exact once
  | cons item rest ih =>
    have first : (takeItem most ids item).1.Nodup := takeItem_nodup once item
    rw [takeItems_cons]
    split
    · exact first
    · exact ih first

section Bundles

variable {need : String → Bool} {b : SourcedBundle} {bundles : List SourcedBundle}

theorem offersOf_snoc : offersOf need (bundles ++ [b]) = offersOf need bundles ++ if need b.unitId then b.evidence.flatMap (·.offers) else [] := by
  rw [offersOf,List.flatMap_append,List.flatMap_singleton]
  rfl

theorem noteIds_snoc : noteIds most need (bundles ++ [b]) = takeBundle most need (noteIds most need bundles) b := by
  rw [noteIds,List.foldl_append]
  rfl

theorem noteIds_nodup (bundles : List SourcedBundle) : (noteIds most need bundles).Nodup := by
  induction bundles using List.reverseRecOn with
  | nil => exact List.nodup_nil
  | append_singleton bundles b ih =>
    rw [noteIds_snoc,takeBundle]
    split
    · exact takeItems_nodup ih _
    · exact ih

theorem noteIds_collected (bundles : List SourcedBundle) : Collected most (offersOf need bundles) (noteIds most need bundles) := by
  induction bundles using List.reverseRecOn with
  | nil => exact collected_distinct []
  | append_singleton bundles b ih =>
    rw [noteIds_snoc,offersOf_snoc,takeBundle]
    split
    · exact ih.ofItems b.evidence
    · rwa [List.append_nil]

def CalmBundles (most : Nat) (need : String → Bool) (bundles : List SourcedBundle) : Prop :=
  ∀ before b after, bundles = before ++ b::after → need b.unitId = true → Calm most (offersOf need before) b.evidence

theorem calmBundles_snoc : CalmBundles most need (bundles ++ [b]) ↔
    CalmBundles most need bundles ∧ (need b.unitId = true → Calm most (offersOf need bundles) b.evidence) := by
  constructor
  · intro calm
    refine ⟨fun before b' after split => calm before b' (after ++ [b]) ?_,calm bundles b [] rfl⟩
    rw [split,List.append_assoc,List.cons_append]
  · rintro ⟨calm,last⟩ before b' after split
    rcases List.eq_nil_or_concat after with rfl | ⟨after,c,rfl⟩
    · obtain ⟨rfl,same⟩ := List.append_inj' split rfl
      obtain rfl := List.singleton_inj.mp same
      exact last
    · rw [List.concat_eq_append,← List.cons_append,← List.append_assoc] at split
      obtain ⟨whole,_⟩ := List.append_inj' split rfl
      exact calm before b' after whole

theorem noteIds_calm (bundles : List SourcedBundle) : (noteIds most need bundles).length ≤ most ↔ CalmBundles most need bundles := by
  induction bundles using List.reverseRecOn with
  | nil =>
    refine iff_of_true (Nat.zero_le most) ?_
    intro before b after split
    simp at split
  | append_singleton bundles b ih =>
    rw [noteIds_snoc,calmBundles_snoc,← ih,takeBundle]
    by_cases wanted : need b.unitId = true
    · rw [if_pos wanted]
      constructor
      · intro fits
        have grown : noteIds most need bundles <+: takeItems most (noteIds most need bundles) b.evidence := takeItems_grows _ _
        have few := grown.length_le.trans fits
        exact ⟨few,fun _ => (takeItems_calm (noteIds_collected bundles) few b.evidence).mp fits⟩
      · rintro ⟨few,calm⟩
        exact (takeItems_calm (noteIds_collected bundles) few b.evidence).mpr (calm wanted)
    · rw [if_neg wanted]
      exact (and_iff_left fun needed => absurd needed wanted).symm

theorem take_noteIds (bundles : List SourcedBundle) : (noteIds most need bundles).take most = (distinct (offersOf need bundles)).take most := by
  have collected : Collected most (offersOf need bundles) (noteIds most need bundles) := noteIds_collected bundles
  by_cases full : most ≤ (distinct (offersOf need bundles)).length
  · obtain ⟨later,same⟩ := collected.full full
    rw [← same,List.take_append_of_le_length (by rw [List.length_take,min_eq_left full]),List.take_take,min_self]
  · rw [collected.open_ (not_le.mp full)]

end Bundles

end Ids

/-! ### What a note does to the bundles -/

structure Filled (read : NoteReader) (item item' : SourcedItem) : Prop where
  same : item' = { item with fullText := item'.fullText,observedAt := item'.observedAt,retrievalChannels := item'.retrievalChannels }
  text : item'.fullText = item.fullText ∨ ∃ id note, item.names id = true ∧ read id = some (some note) ∧ item'.fullText = some note.full

/-- What a bundle can become once the notes of some ids are read: with no more than one item of its own for each note. -/
structure Expanded (need : String → Bool) (read : NoteReader) (reads : List String) (b b' : SourcedBundle) : Prop where
  unitId : b'.unitId = b.unitId
  resolution : b'.resolution = b.resolution
  frame : need b.unitId = false → b' = b
  evidence : ∃ (kept : List SourcedItem) (added : List (String × SourceNote)),
    b'.evidence = kept ++ added.map (fun note => noteItem note.1 note.2) ∧ List.Forall₂ (Filled read) b.evidence kept ∧
    (added.map Prod.fst).Nodup ∧ ∀ note ∈ added, note.1 ∈ reads ∧ read note.1 = some (some note.2)

section Notes

variable {need : String → Bool} {read : NoteReader} {reads : List String} {id : String} {note : SourceNote} {item item' : SourcedItem}
  {b b' : SourcedBundle} {bs ds : List SourcedBundle}

theorem Filled.refl (item : SourcedItem) : Filled read item item := ⟨rfl,.inl rfl⟩

theorem Filled.names (filled : Filled read item item') (id : String) : item'.names id = item.names id := by
  rw [filled.same]
  rfl

theorem Filled.noteId (filled : Filled read item item') : item'.noteId = item.noteId := by
  rw [filled.same]

theorem Filled.fill (filled : Filled read item item') (found : read id = some (some note)) (named : item'.names id = true) :
    Filled read item (item'.fill note) := by
  refine ⟨?_,.inr ⟨id,note,(filled.names id).symm.trans named,found,rfl⟩⟩
  conv_lhs => rw [SourcedItem.fill,filled.same]
  rfl

theorem noteItem_names {other : String} : (noteItem id note).names other = true ↔ other = id := by
  change (decide (some id = some other) || decide (id = other) || decide (other ∈ ([] : List String))) = true ↔ other = id
  rw [Bool.or_eq_true,Bool.or_eq_true,decide_eq_true_eq,decide_eq_true_eq,decide_eq_true_eq,Option.some_inj,or_self,or_iff_left List.not_mem_nil]
  exact eq_comm

theorem Expanded.refl (b : SourcedBundle) : Expanded need read reads b b where
  unitId := rfl
  resolution := rfl
  frame _ := rfl
  evidence := ⟨b.evidence,[],(List.append_nil _).symm,List.forall₂_same.mpr fun item _ => Filled.refl item,List.nodup_nil,fun _ absent => by cases absent⟩

theorem Expanded.mono (expanded : Expanded need read reads b b') (id : String) : Expanded need read (reads ++ [id]) b b' := by
  obtain ⟨kept,added,whole,filled,once,came⟩ := expanded.evidence
  exact { expanded with
    evidence := ⟨kept,added,whole,filled,once,fun note member => ⟨List.mem_append_left _ (came note member).1,(came note member).2⟩⟩ }

theorem Expanded.any (expanded : Expanded need read reads b b') {p : SourcedItem → Bool}
    (respects : ∀ item item', Filled read item item' → p item' = p item) (others : ∀ id ∈ reads, ∀ note, p (noteItem id note) = false) :
    b'.evidence.any p = b.evidence.any p := by
  obtain ⟨kept,added,whole,filled,_,came⟩ := expanded.evidence
  have none_ : (added.map (fun note => noteItem note.1 note.2)).any p = false := by
    rw [List.any_eq_false]
    intro item member
    obtain ⟨note,from_,rfl⟩ := List.mem_map.mp member
    rw [others note.1 (came note from_).1 note.2]
    exact Bool.false_ne_true
  have same {items kept : List SourcedItem} (filled : List.Forall₂ (Filled read) items kept) : kept.any p = items.any p := by
    induction filled with
    | nil => rfl
    | cons first _ ih => rw [List.any_cons,List.any_cons,respects _ _ first,ih]
  rw [whole,List.any_append,none_,Bool.or_false,same filled]

def Uncited (need : String → Bool) (id : String) (b : SourcedBundle) : Prop :=
  ¬Citable id ∧ need b.unitId = true ∧ b.evidence.any (·.names id) = true ∧ b.evidence.any (fun item => item.noteId = some id) = false

theorem fill_noteId (b : SourcedBundle) :
    (b.fill id note).evidence.any (fun item => item.noteId = some id) = b.evidence.any (fun item => item.noteId = some id) := by
  rw [SourcedBundle.fill,List.any_map]
  congr 1
  funext item
  dsimp only [Function.comp_apply]
  split <;> rfl

theorem expandBundle_raised : (expandBundle need id note b).2 = true ↔ Uncited need id b := by
  unfold expandBundle Uncited
  rw [fill_noteId]
  by_cases looked : (!need b.unitId || !b.evidence.any (·.names id)) = true
  · rw [if_pos looked]
    refine iff_of_false Bool.false_ne_true ?_
    rintro ⟨_,needed,named,_⟩
    rw [needed,named] at looked
    exact Bool.false_ne_true looked
  · rw [if_neg looked]
    have both : need b.unitId = true ∧ b.evidence.any (·.names id) = true := by simpa using looked
    by_cases cited : b.evidence.any (fun item => item.noteId = some id) = true
    · rw [if_pos cited,cited]
      exact iff_of_false Bool.false_ne_true fun uncited => Bool.false_ne_true uncited.2.2.2.symm
    · rw [if_neg cited]
      by_cases citable : Citable id
      · rw [if_pos citable]
        exact iff_of_false Bool.false_ne_true fun uncited => uncited.1 citable
      · rw [if_neg citable]
        exact iff_of_true rfl ⟨citable,both.1,both.2,Bool.eq_false_iff.mpr cited⟩

theorem Expanded.step (expanded : Expanded need read reads b b') (new : id ∉ reads) (found : read id = some (some note)) :
    Expanded need read (reads ++ [id]) b (expandBundle need id note b').1 := by
  unfold expandBundle
  by_cases looked : (!need b'.unitId || !b'.evidence.any (·.names id)) = true
  · rw [if_pos looked]
    exact expanded.mono id
  rw [if_neg looked]
  have both : need b'.unitId = true ∧ b'.evidence.any (·.names id) = true := by simpa using looked
  have frame : need b.unitId = false → (b'.fill id note) = b := by
    intro unneeded
    rw [expanded.unitId,unneeded] at both
    exact absurd both.1 Bool.false_ne_true
  obtain ⟨kept,added,whole,filled,once,came⟩ := expanded.evidence
  have others : (added.map (fun note => noteItem note.1 note.2)).map (fun item => if item.names id then item.fill note else item) =
      added.map (fun note => noteItem note.1 note.2) := by
    rw [List.map_map]
    refine List.map_congr_left fun note from_ => if_neg fun named => new ?_
    exact noteItem_names.mp named ▸ (came note from_).1
  have filled' : List.Forall₂ (Filled read) b.evidence (kept.map (fun item => if item.names id then item.fill note else item)) := by
    rw [List.forall₂_map_right_iff]
    refine filled.imp fun item item' filled => ?_
    split
    · rename_i named
      exact filled.fill found named
    · exact filled
  have whole' : (b'.fill id note).evidence =
      kept.map (fun item => if item.names id then item.fill note else item) ++ added.map (fun note => noteItem note.1 note.2) := by
    rw [SourcedBundle.fill,whole,List.map_append,others]
  have came' : ∀ note ∈ added, note.1 ∈ reads ++ [id] ∧ read note.1 = some (some note.2) := fun note member =>
    ⟨List.mem_append_left _ (came note member).1,(came note member).2⟩
  have plain : Expanded need read (reads ++ [id]) b (b'.fill id note) :=
    ⟨expanded.unitId,expanded.resolution,frame,_,added,whole',filled',once,came'⟩
  split
  · exact plain
  · split
    · refine ⟨expanded.unitId,expanded.resolution,fun unneeded => ?_,_,added ++ [(id,note)],?_,filled',?_,?_⟩
      · rw [expanded.unitId,unneeded] at both
        exact absurd both.1 Bool.false_ne_true
      · rw [whole',List.map_append,List.append_assoc]
        rfl
      · rw [List.map_append,List.map_singleton,← List.concat_eq_append]
        refine List.Nodup.concat (fun member => new ?_) once
        obtain ⟨earlier,from_,same⟩ := List.mem_map.mp member
        change earlier.1 = id at same
        exact same ▸ (came earlier from_).1
      · intro note' member
        rcases List.mem_append.mp member with earlier | last
        · exact came' note' earlier
        · rw [List.mem_singleton.mp last]
          exact ⟨List.mem_append_right _ List.mem_cons_self,found⟩
    · exact plain

theorem Expanded.uncited (expanded : Expanded need read reads b b') (new : id ∉ reads) : Uncited need id b' ↔ Uncited need id b := by
  have named := expanded.any (p := (·.names id)) (fun _ _ filled => filled.names id) fun other read note =>
    Bool.eq_false_iff.mpr fun named => new (noteItem_names.mp named ▸ read)
  have cited := expanded.any (p := fun item => item.noteId = some id) (fun _ _ filled => by rw [filled.noteId]) fun other read note =>
    decide_eq_false fun same => new (Option.some.inj same ▸ read)
  rw [Uncited,Uncited,named,cited,expanded.unitId]

theorem expandBundles_raised : (expandBundles need id note ds).2 = true ↔ ∃ b ∈ ds, Uncited need id b := by
  induction ds with
  | nil => simp [expandBundles]
  | cons b ds ih =>
    have first : (expandBundle need id note b).2 = true ↔ Uncited need id b := expandBundle_raised
    rw [List.exists_mem_cons_iff,← ih,← first,expandBundles]
    by_cases raised : (expandBundle need id note b).2 = true
    · simp only [raised,if_true,true_or]
    · simp only [raised,Bool.false_eq_true,if_false,false_or]

theorem expandBundles_step (expanded : List.Forall₂ (Expanded need read reads) bs ds) (new : id ∉ reads) (found : read id = some (some note)) :
    List.Forall₂ (Expanded need read (reads ++ [id])) bs (expandBundles need id note ds).1 := by
  induction expanded with
  | nil => exact .nil
  | cons first rest ih =>
    have next := first.step new found
    rw [expandBundles]
    dsimp only
    split
    · exact .cons next (rest.imp fun _ _ expanded => expanded.mono id)
    · exact .cons next ih

def Stops (need : String → Bool) (read : NoteReader) (bundles : List SourcedBundle) (id : String) : Prop :=
  read id = none ∨ (∃ note, read id = some (some note)) ∧ ∃ b ∈ bundles, Uncited need id b

theorem uncited_iff (expanded : List.Forall₂ (Expanded need read reads) bs ds) (new : id ∉ reads) :
    (∃ b ∈ ds, Uncited need id b) ↔ ∃ b ∈ bs, Uncited need id b := by
  induction expanded with
  | nil => rfl
  | cons first _ ih => rw [List.exists_mem_cons_iff,List.exists_mem_cons_iff,first.uncited new,ih]

section Run

variable {bundles : List SourcedBundle} {d : Hydration}

theorem hydrateNote_step (live : d.raised = false) (expanded : List.Forall₂ (Expanded need read d.reads) bundles d.bundles) (new : id ∉ d.reads) :
    List.Forall₂ (Expanded need read (hydrateNote need read d id).reads) bundles (hydrateNote need read d id).bundles ∧
    (hydrateNote need read d id).reads = d.reads ++ [id] ∧
    ((hydrateNote need read d id).raised = true ↔ Stops need read bundles id) := by
  have still := expanded.imp fun _ _ expanded => expanded.mono id
  unfold hydrateNote Stops
  rw [if_neg (live ▸ Bool.false_ne_true)]
  cases found : read id with
  | none => exact ⟨still,rfl,iff_of_true rfl (.inl rfl)⟩
  | some answer =>
    cases answer with
    | none => exact ⟨still,rfl,iff_of_false (live ▸ Bool.false_ne_true) (by simp)⟩
    | some note =>
      refine ⟨expandBundles_step expanded new found,rfl,expandBundles_raised.trans ?_⟩
      rw [uncited_iff expanded new]
      simp

theorem hydrate_stopped (stopped : d.raised = true) (ids : List String) : ids.foldl (hydrateNote need read) d = d := by
  induction ids with
  | nil => rfl
  | cons id ids ih =>
    rw [List.foldl_cons,hydrateNote,if_pos stopped]
    exact ih

theorem hydrate_run {ids : List String} (once : ids.Nodup) (apart : ∀ id ∈ ids, id ∉ d.reads) (live : d.raised = false)
    (expanded : List.Forall₂ (Expanded need read d.reads) bundles d.bundles) :
    List.Forall₂ (Expanded need read (ids.foldl (hydrateNote need read) d).reads) bundles (ids.foldl (hydrateNote need read) d).bundles ∧
    ∃ more, (ids.foldl (hydrateNote need read) d).reads = d.reads ++ more ∧
      ∀ n, more.length ≤ n ↔ ids.length ≤ n ∨ ∃ id ∈ ids.take n, Stops need read bundles id := by
  induction ids generalizing d with
  | nil => exact ⟨expanded,[],(List.append_nil _).symm,fun n => by simp⟩
  | cons id ids ih =>
    obtain ⟨first,reads,stops⟩ := hydrateNote_step live expanded (apart id List.mem_cons_self)
    rw [List.foldl_cons]
    by_cases stopped : Stops need read bundles id
    · rw [hydrate_stopped (stops.mpr stopped)]
      refine ⟨first,[id],reads,fun n => ?_⟩
      cases n with
      | zero => simp
      | succ n => exact iff_of_true (by simp) (.inr ⟨id,List.mem_cons_self,stopped⟩)
    · obtain ⟨fresh,once⟩ := List.nodup_cons.mp once
      have apart' : ∀ other ∈ ids, other ∉ (hydrateNote need read d id).reads := by
        intro other member known
        rw [reads] at known
        rcases List.mem_append.mp known with earlier | same
        · exact apart other (List.mem_cons_of_mem id member) earlier
        · exact fresh (List.mem_singleton.mp same ▸ member)
      obtain ⟨later,more,grown,count⟩ := ih once apart' (Bool.eq_false_iff.mpr (mt stops.mp stopped)) first
      refine ⟨later,id::more,?_,fun n => ?_⟩
      · rw [grown,reads,List.append_assoc,List.singleton_append]
      · cases n with
        | zero => simp
        | succ n =>
          rw [List.length_cons,List.length_cons,Nat.add_le_add_iff_right,Nat.add_le_add_iff_right,List.take_succ_cons,
            List.exists_mem_cons_iff,or_iff_right stopped]
          exact count n

end Run

end Notes

/-! ### The whole -/

/-- What hydration promises: so many notes, and nothing but what they bring to those that name them. -/
structure Hydrated (plan : AskPlan) (maxHydrateIds : ℤ) (read : NoteReader) (bundles : List SourcedBundle) (d : Hydration) : Prop where
  bounded : d.reads.length ≤ (max 1 maxHydrateIds).toNat
  expanded : List.Forall₂ (Expanded (needsSource plan) read d.reads) bundles d.bundles

theorem hydrate_iff {plan : AskPlan} {most : ℤ} {read : NoteReader} {bundles : List SourcedBundle} :
    Hydrated plan most read bundles (hydrateSelectedEvidence plan most read bundles) ↔
      CalmBundles (max 1 most).toNat (needsSource plan) bundles ∨
      ∃ id ∈ (distinct (offersOf (needsSource plan) bundles)).take (max 1 most).toNat, Stops (needsSource plan) read bundles id := by
  have begun : List.Forall₂ (Expanded (needsSource plan) read []) bundles bundles := List.forall₂_same.mpr fun b _ => Expanded.refl b
  have start : ∀ id ∈ noteIds (max 1 most).toNat (needsSource plan) bundles, id ∉ ({ bundles } : Hydration).reads := fun _ _ => List.not_mem_nil
  obtain ⟨expanded,more,reads,count⟩ := hydrate_run (noteIds_nodup bundles) start rfl begun
  rw [← take_noteIds,← noteIds_calm,← count]
  have same : (hydrateSelectedEvidence plan most read bundles).reads = more := reads
  rw [← same]
  exact ⟨fun hydrated => hydrated.bounded,fun few => ⟨few,expanded⟩⟩

/-- Repair and hydration do what they promise exactly where the records that are quoted can be, and either the ids fit or the reading
ends early. -/
theorem repair_hydrate_iff {readers : FallbackReaders} {rounds mostUnits mostIds : ℤ} {plan : AskPlan} {bundles : List UnitEvidenceBundle}
    {read : NoteReader} {selected : List SourcedBundle} (apart : (plan.units.map (·.id)).Nodup) :
    ((∃ d, repairMissing readers rounds mostUnits plan bundles = .ok d ∧ Replaced (max 0 mostUnits).toNat bundles d.bundles) ∧
      Hydrated plan mostIds read selected (hydrateSelectedEvidence plan mostIds read selected)) ↔
    (∀ unit ∈ (plan.units.filter (repairs readers (bundleOfUnit bundles))).take (fallbackBudget rounds mostUnits),
      Quotable (readers.fallback unit).records) ∧
    (CalmBundles (max 1 mostIds).toNat (needsSource plan) selected ∨
      ∃ id ∈ (distinct (offersOf (needsSource plan) selected)).take (max 1 mostIds).toNat, Stops (needsSource plan) read selected id) :=
  and_congr (repairMissing_iff apart) hydrate_iff

def memoryItem (id : String) (notes : List String) : SourcedItem where
  evidenceId := id
  sourceKind := .memory
  memoryType := some .semantic
  content := "milk"
  evidenceSpan := none
  memoryId := some id
  versionId := none
  noteId := none
  sourceNoteIds := notes
  taskCard := none
  preferenceDetails := []
  eventTime := none
  observedAt := none
  recordedAt := none
  taskStatus := none
  retrievalChannels := []
  evidenceRole := .currentCandidate

/-- Two memories, of two notes and of a third one. -/
def sourced : SourcedBundle := ⟨"u1",[memoryItem "m1" ["n1","n2"],memoryItem "m2" ["n3"]],⟨.resolved,none,.directDomainEvidence,[],[]⟩⟩

def milkPlan : AskPlan where
  originalQuery := "milk"
  context := []
  units := [{ fallbackUnit "milk" with id := "u1",needSourceEvidence := true }]
  answerMode := .direct
  query_fits := by decide
  context_fits := no_context_fits
  units_fit := by decide

def plainNote : SourceNote := ⟨none,none,"","","milk"⟩

def missing : UnitEvidenceBundle := ⟨"u1",[],⟨.notFound,none,.noDirectEvidence,[],[]⟩⟩

theorem n1_fits : 1 ≤ "n1".length ∧ "n1".length ≤ 128 := by decide

/-- A note of this text for every unit. -/
def noteReaders (content : String) : FallbackReaders where
  memorySearch _ := none
  noteFallback _ := some [{ id := some ⟨"n1",n1_fits⟩,sourceKind := "note",content := content }]
  recordRelevant _ _ := true

theorem repairs_milk (content : String) :
    (∀ unit ∈ (milkPlan.units.filter (repairs (noteReaders content) (bundleOfUnit [missing]))).take (fallbackBudget 2 2),
      Quotable ((noteReaders content).fallback unit).records) ↔ (orText content "").length ≤ 1000 := by
  have repaired : (milkPlan.units.filter (repairs (noteReaders content) (bundleOfUnit [missing]))).take (fallbackBudget 2 2) = milkPlan.units := rfl
  have records : ∀ unit ∈ milkPlan.units, ((noteReaders content).fallback unit).records =
      [{ id := some ⟨"n1",n1_fits⟩,sourceKind := "note",content := content }] := by
    intro unit member
    obtain rfl := List.mem_singleton.mp member
    rfl
  rw [repaired]
  constructor
  · intro all
    have quotable := all _ List.mem_cons_self
    rw [records _ List.mem_cons_self] at quotable
    exact quotable.2 _ rfl
  · intro short unit member
    rw [records unit member]
    refine ⟨fun item member => ?_,fun first same => ?_⟩
    · obtain rfl := List.mem_singleton.mp member
      exact ⟨fun _ absent => absurd absent (Option.not_mem_none _),fun _ absent => absurd absent (Option.not_mem_none _)⟩
    · obtain rfl := Option.some_inj.mp same
      exact short

theorem milk_repaired : (∃ d, repairMissing (noteReaders "milk") 2 2 milkPlan [missing] = .ok d ∧ Replaced (max 0 2 : ℤ).toNat [missing] d.bundles) ∧
    Hydrated milkPlan 5 (fun _ => some (some plainNote)) [sourced] (hydrateSelectedEvidence milkPlan 5 (fun _ => some (some plainNote)) [sourced]) :=
  (repair_hydrate_iff (by decide)).mpr ⟨(repairs_milk "milk").mpr (by decide),.inl ((noteIds_calm _).mp (by decide +kernel))⟩

/-- The repair raises for a note that is too long a value; and with room for one note two are read, since the loop over the items goes on
when there is no room. -/
theorem one_note_more :
    (¬∃ d, repairMissing (noteReaders (String.ofList (List.replicate 1001 'a'))) 2 2 milkPlan [missing] = .ok d ∧
      Replaced (max 0 2 : ℤ).toNat [missing] d.bundles) ∧
    ¬Hydrated milkPlan 1 (fun _ => some (some plainNote)) [sourced]
      (hydrateSelectedEvidence milkPlan 1 (fun _ => some (some plainNote)) [sourced]) := by
  constructor
  · rw [repairMissing_iff (by decide),repairs_milk]
    have some_text : String.ofList (List.replicate 1001 'a') ≠ "" := by
      intro empty
      have size := congrArg String.length empty
      rw [String.length_ofList,List.length_replicate] at size
      exact absurd size (by decide)
    rw [orText,if_neg some_text,String.length_ofList,List.length_replicate]
    decide
  · intro hydrated
    have reads : (hydrateSelectedEvidence milkPlan 1 (fun _ => some (some plainNote)) [sourced]).reads = ["n1","n3"] := by decide +kernel
    have few := hydrated.bounded
    rw [reads] at few
    exact absurd few (by decide)

end Suixinji.Ask
