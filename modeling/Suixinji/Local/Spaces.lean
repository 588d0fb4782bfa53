import Suixinji.Local.Files
import Mathlib.Tactic.Tauto

/-! Which spaces of the local back end share files: the calls made for the one are not
seen by the loads of the other exactly when the names of the two keep their files apart. -/
namespace Suixinji.Local
open Suixinji.Footprint (Reads Call)

/-- The notes of the space are in data/notes itself. -/
def Flat (spaceId : String) : Prop := safeSpaceId spaceId = "" ∨ safeSpaceId spaceId = "."

instance (spaceId : String) : Decidable (Flat spaceId) := inferInstanceAs (Decidable (_ ∨ _))

def DayFile (name : String) : Prop := ∃ ts, isoformatted ts ∧ name = noteDate ts ++ ".md"

/-- The files written for s are none of those that are read for t. -/
structure Apart (s t : String) : Prop where
  names : safeSpaceId s ≠ safeSpaceId t
  inside : Flat s → ¬Flat t ∧ safeSpaceId t ≠ "vectors" ∧ safeSpaceId t ≠ "index.json" ∧ ¬DayFile (safeSpaceId t)
  outside : Flat t → safeSpaceId s ≠ "vectors" ∧ safeSpaceId s ≠ "index.json"

/-- No calls for s change what the loads of t return, whatever has been called before. -/
def Unseen (reading : Reading) (s t : String) : Prop :=
  ∀ earlier ops : List Op, (∀ op ∈ ops, op.space = s) →
    loads (after reading (after reading noFiles earlier) ops) t = loads (after reading noFiles earlier) t

/-! ### Regions -/

/-- What the calls for a space write. -/
inductive Written (s : String) : Path → Prop
  | wal : Written s (walPath s)
  | dir (there : noteDir s ≠ []) (below : noteDir s ≠ ["notes"]) : Written s (noteDir s)
  | index : Written s (indexPath s)
  | vectorDir : Written s (vectorDir s)
  | vectors : Written s (vectorIndexPath s)
  | day {ts : String} (known : isoformatted ts) : Written s (noteFile s ts)

/-- What the loads of a space read. -/
inductive Read (s : String) : Path → Prop
  | wal : Read s (walPath s)
  | dir (there : noteDir s ≠ []) (below : noteDir s ≠ ["notes"]) : Read s (noteDir s)
  | index : Read s (indexPath s)
  | vectorDir : Read s (vectorDir s)
  | vectors : Read s (vectorIndexPath s)

theorem noteDir_cases (s : String) :
    Flat s ∧ noteDir s = ["notes"] ∨ safeSpaceId s = ".." ∧ noteDir s = [] ∨ ¬Flat s ∧ noteDir s = ["notes",safeSpaceId s] := by
  unfold noteDir Flat
  split
  · rename_i flat
    exact .inl ⟨flat,rfl⟩
  · rename_i nested
    split
    · rename_i up
      exact .inr (.inl ⟨up,rfl⟩)
    · exact .inr (.inr ⟨nested,rfl⟩)

theorem walPath_inj {s t : String} : walPath s = walPath t ↔ safeSpaceId s = safeSpaceId t := by
  simp [walPath]

theorem noteDir_congr {s t : String} (same : safeSpaceId s = safeSpaceId t) : noteDir s = noteDir t := by
  simp only [noteDir,same]

theorem written_congr {s t : String} (same : safeSpaceId s = safeSpaceId t) : Written s = Written t := by
  have one {s t : String} (same : safeSpaceId s = safeSpaceId t) {p : Path} (written : Written s p) : Written t p := by
    have dirs := noteDir_congr same
    cases written with
    | wal => rw [walPath_inj.mpr same]; exact .wal
    | dir there below => rw [dirs] at there below ⊢; exact .dir there below
    | index => rw [indexPath,dirs]; exact .index
    | vectorDir => rw [Local.vectorDir,dirs]; exact .vectorDir
    | vectors => rw [vectorIndexPath,Local.vectorDir,dirs]; exact .vectors
    | day known => rw [noteFile,dirs]; exact .day known
  funext p
  exact propext ⟨one same,one same.symm⟩

theorem written_below {s : String} {p : Path} (written : Written s p) :
    p = walPath s ∨ ∃ rest, p = noteDir s ++ rest ∧ (noteDir s ≠ [] ∧ noteDir s ≠ ["notes"] ∨
      ∃ name tail, rest = name::tail ∧ (name = "index.json" ∨ name = "vectors" ∨ DayFile name ∧ tail = [])) := by
  cases written with
  | wal => exact .inl rfl
  | dir there below => exact .inr ⟨[],by simp,.inl ⟨there,below⟩⟩
  | index => exact .inr ⟨["index.json"],rfl,.inr ⟨_,_,rfl,.inl rfl⟩⟩
  | vectorDir => exact .inr ⟨["vectors"],rfl,.inr ⟨_,_,rfl,.inr (.inl rfl)⟩⟩
  | vectors => exact .inr ⟨["vectors","index.json"],by simp [vectorIndexPath,vectorDir],.inr ⟨_,_,rfl,.inr (.inl rfl)⟩⟩
  | day known => exact .inr ⟨[_],rfl,.inr ⟨_,_,rfl,.inr (.inr ⟨⟨_,known,rfl⟩,rfl⟩)⟩⟩

theorem read_below {t : String} {p : Path} (read : Read t p) :
    p = walPath t ∨ ∃ rest, p = noteDir t ++ rest ∧ (noteDir t ≠ [] ∧ noteDir t ≠ ["notes"] ∨
      ∃ name tail, rest = name::tail ∧ (name = "index.json" ∨ name = "vectors")) := by
  cases read with
  | wal => exact .inl rfl
  | dir there below => exact .inr ⟨[],by simp,.inl ⟨there,below⟩⟩
  | index => exact .inr ⟨["index.json"],rfl,.inr ⟨_,_,rfl,.inl rfl⟩⟩
  | vectorDir => exact .inr ⟨["vectors"],rfl,.inr ⟨_,_,rfl,.inr rfl⟩⟩
  | vectors => exact .inr ⟨["vectors","index.json"],by simp [vectorIndexPath,vectorDir],.inr ⟨_,_,rfl,.inr rfl⟩⟩

theorem walPath_ne {s t : String} {rest : Path} (below : noteDir t ≠ [] ∨ ∃ name tail, rest = name::tail ∧ (tail = [] ∨ name ≠ "cache")) :
    walPath s ≠ noteDir t ++ rest := by
  intro same
  rcases noteDir_cases t with ⟨-,dir⟩ | ⟨-,dir⟩ | ⟨-,dir⟩ <;> rw [dir] at same below
  · simp [walPath] at same
  · obtain ⟨name,tail,rfl,other⟩ := below.resolve_left (fun no => no rfl)
    simp only [walPath,List.nil_append,List.cons.injEq] at same
    rcases other with rfl | other
    · cases same.2
    · exact other same.1.symm
  · simp [walPath] at same

theorem known_ne {name : String} (known : name = "index.json" ∨ name = "vectors") : name ≠ "notes" := by
  rcases known with rfl | rfl <;> decide

theorem top_ne {rest rest' : Path} (shape : ∃ name tail, rest = name::tail ∧ (name = "index.json" ∨ name = "vectors" ∨ DayFile name ∧ tail = []))
    (more : rest' ≠ []) : rest ≠ "notes"::rest' := by
  obtain ⟨name,tail,rfl,which⟩ := shape
  intro same
  obtain ⟨eq,tails⟩ := List.cons.inj same
  rcases which with known | known | ⟨-,rfl⟩
  · exact known_ne (.inl known) eq
  · exact known_ne (.inr known) eq
  · exact more tails.symm

theorem apart_below {s t : String} (apart : Apart s t) {rest rest' : Path}
    (shape : noteDir s ≠ [] ∧ noteDir s ≠ ["notes"] ∨
      ∃ name tail, rest = name::tail ∧ (name = "index.json" ∨ name = "vectors" ∨ DayFile name ∧ tail = []))
    (shape' : noteDir t ≠ [] ∧ noteDir t ≠ ["notes"] ∨ ∃ name tail, rest' = name::tail ∧ (name = "index.json" ∨ name = "vectors")) :
    noteDir s ++ rest ≠ noteDir t ++ rest' := by
  intro same
  rcases noteDir_cases s with ⟨flat,dir⟩ | ⟨name,dir⟩ | ⟨deep,dir⟩ <;> rw [dir] at same shape <;>
    rcases noteDir_cases t with ⟨flat',dir'⟩ | ⟨name',dir'⟩ | ⟨deep',dir'⟩ <;> rw [dir'] at same shape'
  · exact (apart.inside flat).1 flat'
  · obtain ⟨name,tail,rfl,which⟩ := shape'.resolve_left (fun no => no.1 rfl)
    exact known_ne which (List.cons.inj same).1.symm
  · -- the name of t is that of a file or directory of s
    obtain ⟨name,tail,rfl,which⟩ := shape.resolve_left (fun no => no.2 rfl)
    obtain rfl := (List.cons.inj (List.cons.inj same).2).1
    obtain ⟨-,vectors,index,day⟩ := apart.inside flat
    rcases which with no | no | ⟨no,-⟩
    · exact index no
    · exact vectors no
    · exact day no
  · obtain ⟨name,tail,rfl,-⟩ := shape'.resolve_left (fun no => no.2 rfl)
    exact top_ne (shape.resolve_left (fun no => no.1 rfl)) (List.cons_ne_nil _ _) same
  · exact apart.names (name.trans name'.symm)
  · exact top_ne (shape.resolve_left (fun no => no.1 rfl)) (List.cons_ne_nil _ _) same
  · obtain ⟨name,tail,rfl,which⟩ := shape'.resolve_left (fun no => no.2 rfl)
    obtain ⟨eq,-⟩ := List.cons.inj (List.cons.inj same).2
    obtain ⟨vectors,index⟩ := apart.outside flat'
    rcases which with rfl | rfl
    · exact index eq
    · exact vectors eq
  · obtain ⟨name,tail,rfl,which⟩ := shape'.resolve_left (fun no => no.1 rfl)
    exact known_ne which (List.cons.inj same).1.symm
  · exact apart.names (List.cons.inj (List.cons.inj same).2).1

theorem apart_disjoint {s t : String} (apart : Apart s t) {p : Path} (written : Written s p) : ¬Read t p := by
  intro read
  rcases written_below written with rfl | ⟨rest,rfl,shape⟩
  · rcases read_below read with same | ⟨rest',same,shape'⟩
    · exact apart.names (walPath_inj.mp same)
    · refine walPath_ne ?_ same
      refine shape'.imp And.left (fun ⟨name,tail,eq,which⟩ => ⟨name,tail,eq,.inr ?_⟩)
      rcases which with rfl | rfl <;> decide
  · rcases read_below read with same | ⟨rest',same,shape'⟩
    · refine walPath_ne ?_ same.symm
      refine shape.imp And.left (fun ⟨name,tail,eq,which⟩ => ⟨name,tail,eq,?_⟩)
      rcases which with rfl | rfl | ⟨-,rfl⟩
      · exact .inr (by decide)
      · exact .inr (by decide)
      · exact .inl rfl
    · exact apart_below apart shape shape' same

/-! ### What the calls write -/

def Homed (files : Files) : Prop := ∀ p records, files p = some (.records records) → ∀ r ∈ records, walPath r.spaceId = p

abbrev writtenRegion (s : String) : Set Path := {p | Written s p}

abbrev readRegion (t : String) : Set Path := {p | Read t p}

theorem homed_update {files : Files} (homed : Homed files) {p : Path} {node : Node}
    (own : ∀ records, node = .records records → ∀ r ∈ records, walPath r.spaceId = p) : Homed (Function.update files p (some node)) := by
  intro q records found r inside
  by_cases same : q = p
  · subst same
    rw [Function.update_self] at found
    exact own records (Option.some.inj found) r inside
  · rw [Function.update_of_ne same] at found
    exact homed q records found r inside

section
variable {s : String} {p : Path}

theorem keeps_mkdir (inside : p ≠ [] → p ≠ ["notes"] → Written s p) : Footprint.Keeps Homed (writtenRegion s) (mkdir p) (fun _ => True) := by
  unfold mkdir
  split
  · exact .pure trivial
  · rename_i below
    rw [not_or] at below
    refine .bind .get (fun found _ => ?_)
    split
    · exact .put (inside below.1 below.2) (fun files homed => homed_update homed (by simp))
    · exact .pure trivial
    · exact .fail

theorem keeps_write {node : Node} (inside : Written s p) (own : ∀ records, node = .records records → ∀ r ∈ records, walPath r.spaceId = p) :
    Footprint.Keeps Homed (writtenRegion s) (write p node) (fun _ => True) := by
  refine .bind .get (fun found _ => ?_)
  split
  · exact .fail
  · exact .put inside (fun files homed => homed_update homed own)

theorem keeps_loadRecords (t : String) :
    Footprint.Keeps Homed (writtenRegion s) (loadRecordsOf t) (fun records => ∀ r ∈ records, walPath r.spaceId = walPath t) := by
  have own : Footprint.Keeps Homed (writtenRegion s) (Footprint.get (walPath t))
      (fun found => ∀ records, found = some (Node.records records) → ∀ r ∈ records, walPath r.spaceId = walPath t) :=
    .get_of _ (fun files homed records found => homed _ records found)
  refine own.bind (fun found own => ?_)
  split
  · exact .pure (by simp)
  · exact .pure (own _ rfl)
  · exact .fail

theorem keeps_append (r : WalRecord) : Footprint.Keeps Homed (writtenRegion r.spaceId) (appendMessageOnce r) (fun _ => True) := by
  refine .bind (keeps_loadRecords _) (fun records own => ?_)
  split
  · exact .pure trivial
  · refine .bind (keeps_write .wal ?_) (fun _ _ => .pure trivial)
    intro records' same q inside
    cases same
    rcases List.mem_append.mp inside with old | new
    · exact own q old
    · rw [List.mem_singleton.mp new]

theorem keeps_rewrite (t : String) {f : List WalRecord → List WalRecord}
    (kept : ∀ records q, q ∈ f records → ∃ r ∈ records, q.spaceId = r.spaceId) (inside : Written s (walPath t)) :
    Footprint.Keeps Homed (writtenRegion s) (do
      let records ← loadRecordsOf t
      write (walPath t) (.records (f records))) (fun _ => True) := by
  refine .bind (keeps_loadRecords _) (fun records own => keeps_write inside ?_)
  intro records' same q inside
  cases same
  obtain ⟨r,old,space⟩ := kept records q inside
  rw [walPath,space]
  exact own r old

theorem keeps_markProcessed {t : String} (recordId : String) (inside : Written s (walPath t)) :
    Footprint.Keeps Homed (writtenRegion s) (markProcessed t recordId) (fun _ => True) := by
  refine keeps_rewrite t (fun records q there => ?_) inside
  obtain ⟨r,old,rfl⟩ := List.mem_map.mp there
  refine ⟨r,old,?_⟩
  split <;> rfl

theorem keeps_markSensitiveBlocked {t : String} (recordId category : String) (preserve : Bool) (inside : Written s (walPath t)) :
    Footprint.Keeps Homed (writtenRegion s) (markSensitiveBlocked t recordId category preserve) (fun _ => True) := by
  refine keeps_rewrite t (fun records q there => ?_) inside
  obtain ⟨r,old,rfl⟩ := List.mem_map.mp there
  refine ⟨r,old,?_⟩
  split <;> rfl

theorem keeps_itemsAt : Footprint.Keeps Homed (writtenRegion s) (itemsAt p) (fun _ => True) := by
  refine .bind .get (fun found _ => ?_)
  split
  · exact .pure trivial
  · exact .pure trivial
  · exact .fail

theorem keeps_loadIndex : Footprint.Keeps Homed (writtenRegion s) (loadIndex s) (fun _ => True) :=
  .bind (keeps_mkdir Written.dir) (fun _ _ => keeps_itemsAt)

theorem keeps_saveIndex (items : List Item) : Footprint.Keeps Homed (writtenRegion s) (saveIndex s items) (fun _ => True) :=
  .bind (keeps_mkdir Written.dir) (fun _ _ => keeps_write .index (by simp))

theorem keeps_updateNote (noteId : String) (updates : List NoteField) : Footprint.Keeps Homed (writtenRegion s) (updateNote s noteId updates) (fun _ => True) := by
  refine .bind keeps_loadIndex (fun items _ => ?_)
  split
  · exact keeps_saveIndex _
  · exact .pure trivial

theorem keeps_appendMarkdownNote (n : NoteMetadata) : Footprint.Keeps Homed (writtenRegion n.spaceId) (appendMarkdownNote n) (fun _ => True) := by
  refine .bind (keeps_mkdir Written.dir) (fun _ _ => ?_)
  split
  · rename_i known
    refine .bind .get (fun found _ => ?_)
    split
    · exact .put (Written.day known) (fun files homed => homed_update homed (by simp))
    · exact .put (Written.day known) (fun files homed => homed_update homed (by simp))
    · exact .fail
  · exact .fail

theorem keeps_noteThere (messageId : String) : Footprint.Keeps Homed (writtenRegion s) (noteThere s messageId) (fun _ => True) :=
  .bind keeps_loadIndex (fun _ _ => .pure trivial)

theorem keeps_saveNote (n : NoteMetadata) : Footprint.Keeps Homed (writtenRegion n.spaceId) (saveNote n) (fun _ => True) := by
  refine .bind (keeps_noteThere _) (fun there _ => ?_)
  split
  · exact .pure trivial
  · exact .bind (keeps_appendMarkdownNote n) (fun _ _ => .bind keeps_loadIndex (fun items _ => keeps_saveIndex _))

theorem keeps_vectorDirOf : Footprint.Keeps Homed (writtenRegion s) (vectorDirOf s) (fun _ => True) :=
  .bind (keeps_mkdir Written.dir) (fun _ _ => keeps_mkdir (fun _ _ => .vectorDir))

theorem keeps_loadVectorItems : Footprint.Keeps Homed (writtenRegion s) (loadVectorItems s) (fun _ => True) :=
  .bind keeps_vectorDirOf (fun _ _ => .bind keeps_itemsAt (fun _ _ => .ofOption (fun _ _ => trivial)))

theorem keeps_saveVectorItems (items : List VectorItem) : Footprint.Keeps Homed (writtenRegion s) (saveVectorItems s items) (fun _ => True) :=
  .bind keeps_vectorDirOf (fun _ _ => keeps_write .vectors (by simp))

theorem keeps_addVectorItem (item : VectorItem) : Footprint.Keeps Homed (writtenRegion s) (addVectorItem s item) (fun _ => True) := by
  refine .bind keeps_loadVectorItems (fun items _ => ?_)
  split
  · exact .pure trivial
  · exact .bind (keeps_saveVectorItems _) (fun _ _ => .pure trivial)

theorem keeps_removeVectorItem (noteId : String) : Footprint.Keeps Homed (writtenRegion s) (removeVectorItem s noteId) (fun _ => True) := by
  refine .bind keeps_loadVectorItems (fun items _ => ?_)
  simp only
  split
  · exact .pure trivial
  · exact .bind (keeps_saveVectorItems _) (fun _ _ => .pure trivial)

theorem keeps_processRecord (reading : Reading) (r : WalRecord) : Footprint.Keeps Homed (writtenRegion r.spaceId) (processRecord reading r) (fun _ => True) := by
  unfold processRecord
  split
  · exact keeps_markSensitiveBlocked _ _ _ .wal
  · refine .bind (keeps_noteThere _) (fun there _ => ?_)
    split
    · exact keeps_markProcessed _ .wal
    · exact .bind (keeps_saveNote _) (fun _ _ => keeps_markProcessed _ .wal)

theorem keeps_markDuplicate (recordId : String) : Footprint.Keeps Homed (writtenRegion s) (markDuplicate s recordId) (fun _ => True) := by
  unfold markDuplicate
  split
  · exact .pure trivial
  · exact keeps_markProcessed _ .wal

theorem keeps_processAll (reading : Reading) {records : List WalRecord} (own : ∀ r ∈ records, walPath r.spaceId = walPath s) (seen : List String) :
    Footprint.Keeps Homed (writtenRegion s) (processAll reading s records seen) (fun _ => True) := by
  induction records generalizing seen with
  | nil => exact .pure trivial
  | cons r records ih =>
    have rest := ih (fun q inside => own q (List.mem_cons_of_mem _ inside))
    unfold processAll
    split
    · exact .bind (keeps_markDuplicate r.id) (fun _ _ => rest _)
    · have paths : writtenRegion r.spaceId = writtenRegion s :=
        congrArg Set.ofPred (written_congr (walPath_inj.mp (own r List.mem_cons_self)))
      exact .bind (.attempt (paths ▸ keeps_processRecord reading r)) (fun _ _ => rest _)

theorem keeps_processPending (reading : Reading) : Footprint.Keeps Homed (writtenRegion s) (processPending reading s) (fun _ => True) :=
  .bind (keeps_loadRecords s) (fun _ own => keeps_processAll reading (fun r inside => own r (List.mem_filter.mp inside).1) [])

theorem keeps_call (reading : Reading) (op : Op) : Footprint.Keeps Homed (writtenRegion op.space) (op.call reading) (fun _ => True) := by
  cases op with
  | append r => exact .bind (keeps_append r) (fun _ _ => .pure trivial)
  | markProcessed spaceId recordId => exact keeps_markProcessed recordId .wal
  | processPending spaceId => exact keeps_processPending reading
  | saveNote n => exact keeps_saveNote n
  | updateNoteMetadata spaceId noteId updates => exact keeps_updateNote noteId updates
  | addVectorItem spaceId item => exact .bind (keeps_addVectorItem item) (fun _ _ => .pure trivial)
  | removeVectorItem spaceId noteId => exact .bind (keeps_removeVectorItem noteId) (fun _ _ => .pure trivial)
end

/-! ### What the loads go by -/

section
variable {t : String} {p : Path}

theorem reads_mkdir (inside : p ≠ [] → p ≠ ["notes"] → Read t p) : Reads (readRegion t) (mkdir p) := by
  unfold mkdir
  split
  · exact .pure
  · rename_i below
    rw [not_or] at below
    refine .bind (.get (inside below.1 below.2)) (fun found => ?_)
    split
    · exact .put
    · exact .pure
    · exact .fail

theorem reads_itemsAt (inside : Read t p) : Reads (readRegion t) (itemsAt p) := by
  refine .bind (.get inside) (fun found => ?_)
  split
  · exact .pure
  · exact .pure
  · exact .fail

theorem reads_loadRecords : Reads (readRegion t) (loadRecordsOf t) := by
  refine .bind (.get .wal) (fun found => ?_)
  split
  · exact .pure
  · exact .pure
  · exact .fail

theorem reads_loadIndex : Reads (readRegion t) (loadIndex t) := .bind (reads_mkdir Read.dir) (fun _ => reads_itemsAt .index)

theorem reads_loadVectorItems : Reads (readRegion t) (loadVectorItems t) :=
  .bind (.bind (reads_mkdir Read.dir) (fun _ => reads_mkdir (fun _ _ => .vectorDir)))
    (fun _ => .bind (reads_itemsAt .vectors) (fun _ => .ofOption))
end

theorem homed_after (reading : Reading) {files : Files} (homed : Homed files) (ops : List Op) : Homed (after reading files ops) := by
  induction ops generalizing files with
  | nil => exact homed
  | cons op ops ih => exact ih (keeps_call reading op files homed).1

theorem loads_call {s t : String} (apart : Apart s t) (reading : Reading) {files : Files} (homed : Homed files) {op : Op} (own : op.space = s) :
    loads (op.call reading files).2 t = loads files t := by
  have keeps := keeps_call reading op
  rw [own] at keeps
  have disjoint : Disjoint (writtenRegion s) (readRegion t) := Set.disjoint_left.mpr (fun p written => apart_disjoint apart written)
  unfold loads
  rw [keeps.unseen reads_loadRecords disjoint homed,keeps.unseen reads_loadIndex disjoint homed,
    keeps.unseen reads_loadVectorItems disjoint homed]

theorem loads_after {s t : String} (apart : Apart s t) (reading : Reading) {files : Files} (homed : Homed files) {ops : List Op}
    (own : ∀ op ∈ ops, op.space = s) : loads (after reading files ops) t = loads files t := by
  induction ops generalizing files with
  | nil => rfl
  | cons op ops ih =>
    have one := loads_call apart reading homed (own op List.mem_cons_self)
    exact (ih (keeps_call reading op files homed).1 (fun op inside => own op (List.mem_cons_of_mem _ inside))).trans one

theorem unseen_of_apart {s t : String} (apart : Apart s t) (reading : Reading) : Unseen reading s t := by
  intro earlier ops own
  have homed : Homed noFiles := by
    intro p records found
    cases found
  exact loads_after apart reading (homed_after reading homed earlier) own

/-! ### Spaces that share -/

section
variable {reading : Reading} {s t : String}

theorem noteDir_flat (flat : Flat s) : noteDir s = ["notes"] := if_pos flat

theorem noteDir_named {name : String} (named : safeSpaceId t = name) (deep : name ≠ "" ∧ name ≠ "." ∧ name ≠ "..") :
    noteDir t = ["notes",name] := by
  unfold noteDir
  rw [named,if_neg (by simp [deep]),if_neg deep.2.2]

@[simp] theorem noFiles_apply (p : Path) : noFiles p = none := rfl

theorem dayFile_last {name : String} (day : DayFile name) : name.toList.getLast? = some 'd' := by
  obtain ⟨ts,-,rfl⟩ := day
  simp

theorem dayFile_ne {name : String} (day : DayFile name) : name ≠ "index.json" := by
  rintro rfl
  have last := dayFile_last day
  simp at last

theorem save_flat {n : NoteMetadata} (flat : Flat n.spaceId) (known : isoformatted n.ts) :
    after reading noFiles [.saveNote n] =
      Function.update (Function.update noFiles ["notes",noteDate n.ts ++ ".md"] (some (.markdown [block n])))
        ["notes","index.json"] (some (.items [.note n])) := by
  have other : ["notes","index.json"] ≠ ["notes",noteDate n.ts ++ ".md"] := by
    have := dayFile_ne ⟨n.ts,known,rfl⟩
    simpa using this.symm
  simp [after,Op.call,saveNote,noteThere,loadIndex,itemsAt,mkdir,appendMarkdownNote,appendIndex,saveIndex,write,Footprint.bind_apply,
    noteDir_flat flat,indexPath,noteFile,known,Function.update_of_ne other]

theorem shared_log (same : safeSpaceId s = safeSpaceId t) (r : WalRecord) (own : r.spaceId = s) :
    loads (after reading noFiles [.append r]) t ≠ loads noFiles t := by
  intro eq
  have records := congrArg Loads.records eq
  subst own
  simp [loads,after,Op.call,appendMessageOnce,loadRecordsOf,write,Footprint.bind_apply,messageExists,walPath_inj.mpr same] at records

theorem shared_index {n : NoteMetadata} (flat : Flat n.spaceId) (flat' : Flat t) (known : isoformatted n.ts) :
    loads (after reading noFiles [.saveNote n]) t ≠ loads noFiles t := by
  intro eq
  have index := congrArg Loads.index eq
  rw [save_flat flat known] at index
  simp [loads,loadIndex,itemsAt,mkdir,Footprint.bind_apply,noteDir_flat flat',indexPath] at index

theorem blocked_dir {n : NoteMetadata} (flat : Flat n.spaceId) (known : isoformatted n.ts) {name : String} (named : safeSpaceId t = name)
    (deep : name ≠ "" ∧ name ≠ "." ∧ name ≠ "..") (file : name = "index.json" ∨ name = noteDate n.ts ++ ".md") :
    loads (after reading noFiles [.saveNote n]) t ≠ loads noFiles t := by
  intro eq
  have index := congrArg Loads.index eq
  have dir : noteDir t = ["notes",name] := noteDir_named named deep
  rw [save_flat flat known] at index
  by_cases same : name = "index.json"
  · subst same
    simp [loads,loadIndex,itemsAt,mkdir,Footprint.bind_apply,dir,indexPath] at index
  · have date := file.resolve_left same
    have other : ["notes",name] ≠ ["notes","index.json"] := by simpa using same
    simp [loads,loadIndex,itemsAt,mkdir,Footprint.bind_apply,dir,indexPath,Function.update_of_ne other] at index
    simp [← date] at index

theorem vectors_as_index (flat : Flat s) (named : safeSpaceId t = "vectors") (v : VectorItem) :
    loads (after reading noFiles [.addVectorItem s v]) t ≠ loads noFiles t := by
  intro eq
  have index := congrArg Loads.index eq
  have dir : noteDir t = ["notes","vectors"] := noteDir_named named (by decide)
  simp [after,Op.call,addVectorItem,loadVectorItems,vectorDirOf,saveVectorItems,loads,loadIndex,itemsAt,mkdir,write,Footprint.bind_apply,dir,
    noteDir_flat flat,indexPath,vectorIndexPath,vectorDir] at index

theorem index_as_vectors {n : NoteMetadata} (named : safeSpaceId n.spaceId = "vectors") (flat : Flat t) (known : isoformatted n.ts) :
    loads (after reading noFiles [.saveNote n]) t ≠ loads noFiles t := by
  intro eq
  have vectors := congrArg Loads.vectors eq
  have dir : noteDir n.spaceId = ["notes","vectors"] := noteDir_named named (by decide)
  have other : ["notes","vectors","index.json"] ≠ ["notes","vectors",noteDate n.ts ++ ".md"] := by
    have := dayFile_ne ⟨n.ts,known,rfl⟩
    simpa using this.symm
  simp [after,Op.call,saveNote,noteThere,appendMarkdownNote,appendIndex,saveIndex,loadIndex,loads,loadVectorItems,vectorDirOf,itemsAt,
    mkdir,write,Footprint.bind_apply,dir,noteDir_flat flat,indexPath,vectorIndexPath,vectorDir,noteFile,known,Function.update_of_ne other,
    Item.asVector] at vectors

theorem dir_as_index (named : safeSpaceId s = "index.json") (flat : Flat t) :
    loads (after reading noFiles [.removeVectorItem s ""]) t ≠ loads noFiles t := by
  intro eq
  have index := congrArg Loads.index eq
  have dir : noteDir s = ["notes","index.json"] := noteDir_named named (by decide)
  simp [after,Op.call,removeVectorItem,loadVectorItems,vectorDirOf,loads,loadIndex,itemsAt,mkdir,Footprint.bind_apply,dir,
    noteDir_flat flat,indexPath,vectorIndexPath,vectorDir] at index

theorem dayFile_deep {name : String} (day : DayFile name) : name ≠ "" ∧ name ≠ "." ∧ name ≠ ".." := by
  refine ⟨?_,?_,?_⟩ <;> rintro rfl <;> have last := dayFile_last day <;> simp at last

def sample (spaceId ts : String) : WalRecord where
  id := "r"
  source := "feishu"
  eventId := none
  messageId := "m"
  spaceId := spaceId
  chatId := none
  chatType := "p2p"
  sender := []
  ts := ts
  text := "text"

def sampleNote (spaceId ts : String) : NoteMetadata := noteOf {title := "text",tags := [],type := "other",summary := "text"} (sample spaceId ts)

theorem apart_of_unseen (unseen : Unseen reading s t) : Apart s t := by
  have one {op : Op} (own : op.space = s) (seen : loads (after reading noFiles [op]) t ≠ loads noFiles t) : False :=
    seen (unseen [] [op] (by simpa using own))
  have known : isoformatted "2026-08-01" := by decide
  refine ⟨fun same => ?_,fun flat => ⟨fun flat' => ?_,fun named => ?_,fun named => ?_,fun day => ?_⟩,fun flat => ⟨fun named => ?_,fun named => ?_⟩⟩
  · exact one rfl (shared_log same (sample s "2026-08-01") rfl)
  · exact one rfl (shared_index (n := sampleNote s "2026-08-01") flat flat' known)
  · exact one rfl (vectors_as_index flat named ⟨"r","m","text",[],[]⟩)
  · exact one rfl (blocked_dir (n := sampleNote s "2026-08-01") flat known named (by decide) (.inl rfl))
  · have deep := dayFile_deep day
    obtain ⟨ts,known,name⟩ := day
    exact one rfl (blocked_dir (n := sampleNote s ts) flat known rfl deep (.inr name))
  · exact one rfl (index_as_vectors (n := sampleNote s "2026-08-01") named flat known)
  · exact one rfl (dir_as_index named flat)
end

/-- The loads of t go by nothing the calls for s write just when the names keep the
files of the two apart. -/
theorem unseen_iff (reading : Reading) (s t : String) : Unseen reading s t ↔ Apart s t :=
  ⟨apart_of_unseen,fun apart => unseen_of_apart apart reading⟩

end Suixinji.Local
