import Mathlib.Data.Prod.Lex
import Mathlib.Data.String.Basic
import Mathlib.Tactic.Linarith
import Mathlib.Tactic.Ring
import Suixinji.Relational.Window
import Suixinji.Summaries.Report

/-! The windows of summaries (summary/daily_summary.py), whatever the clock of the place does, and what is loaded for one, by the texts of
the times. -/
namespace Suixinji.Summaries
open Ask (NoteShelf preferenceMask words withWords)
open Local (NoteMetadata)
open Memories (MemoryId SpaceId Time)
open Window

variable {σ : Type}

def day : Time := 86400000000

/-- A local time zone, by how far its clock is ahead of UTC at each time. -/
structure Zone where
  offset : Time → Time

namespace Zone

variable (z : Zone)

/-- The day that the clock shows, counted from the first of the times. -/
def localDay (t : Time) : ℤ := (t + z.offset t) / day

/-- `_local_midnight`: the offset stays that of now. -/
def localMidnight (now : Time) : Time := now - (now + z.offset now) % day

/-- `build_time_range`; an unknown key raises. -/
def buildTimeRange (key : String) (now : Time) : Option (Time × Time) :=
  let today := z.localMidnight now
  let tomorrow := today + day
  match key with
  | "today" => some (today,tomorrow)
  | "yesterday" => some (today - day,today)
  | "week" => some (today - 6 * day,tomorrow)
  | "month" => some (today - 29 * day,tomorrow)
  | "half_year" => some (today - 182 * day,tomorrow)
  | "year" => some (today - 364 * day,tomorrow)
  | _ => none

/-- The window of a day begins where that of the day before ends, and this is the one of yesterday; the windows of all the days, each made
at any time of it, hold every time once. -/
structure Exact : Prop where
  adjoin : ∀ now next, z.localDay next = z.localDay now + 1 →
    (z.buildTimeRange "today" now).map Prod.snd = (z.buildTimeRange "today" next).map Prod.fst ∧
    z.buildTimeRange "yesterday" next = z.buildTimeRange "today" now
  once : ∀ now : ℤ → Time, (∀ d, z.localDay (now d) = d) → ∀ t, ∃! d, ∃ window ∈ z.buildTimeRange "today" (now d), window.1 ≤ t ∧ t < window.2

def Steady : Prop := ∀ now next, z.localDay next = z.localDay now + 1 → z.offset next = z.offset now

variable {z}

theorem localMidnight_eq (now : Time) : z.localMidnight now = z.localDay now * day - z.offset now := by
  have split := Int.mul_ediv_add_emod (now + z.offset now) day
  unfold localMidnight localDay
  linarith

theorem today_eq (now : Time) :
    z.buildTimeRange "today" now = some (z.localDay now * day - z.offset now,(z.localDay now + 1) * day - z.offset now) := by
  have stop : z.localMidnight now + day = (z.localDay now + 1) * day - z.offset now := by
    rw [localMidnight_eq]
    ring
  rw [← stop,← localMidnight_eq]
  rfl

theorem yesterday_eq (now : Time) :
    z.buildTimeRange "yesterday" now = some ((z.localDay now - 1) * day - z.offset now,z.localDay now * day - z.offset now) := by
  have start : z.localMidnight now - day = (z.localDay now - 1) * day - z.offset now := by
    rw [localMidnight_eq]
    ring
  rw [← start,← localMidnight_eq]
  rfl

theorem Steady.same (steady : z.Steady) {now : ℤ → Time} (daily : ∀ d, z.localDay (now d) = d) (d : ℤ) : z.offset (now d) = z.offset (now 0) := by
  have next (d : ℤ) : z.offset (now (d + 1)) = z.offset (now d) := steady _ _ (by rw [daily,daily])
  induction d using Int.induction_on with
  | zero => rfl
  | succ d ih => exact (next d).trans ih
  | pred d ih =>
    have back := next (-d - 1)
    rw [sub_add_cancel] at back
    exact back.symm.trans ih

theorem exact_iff_steady : z.Exact ↔ z.Steady := by
  constructor
  · intro exact_ now next days
    have joined := (exact_.adjoin now next days).1
    rw [today_eq,today_eq,days,Option.map_some,Option.map_some,Option.some_inj] at joined
    linarith
  · intro steady
    refine ⟨fun now next days => ?_,fun now daily t => ?_⟩
    · rw [yesterday_eq,today_eq,today_eq,steady now next days,days,add_sub_cancel_right]
      exact ⟨rfl,rfl⟩
    · have positive : (0 : ℤ) < day := by decide
      have held (d : ℤ) : (∃ window ∈ z.buildTimeRange "today" (now d), window.1 ≤ t ∧ t < window.2) ↔ (t + z.offset (now 0)) / day = d := by
        rw [today_eq,daily,steady.same daily,Int.ediv_eq_iff_of_pos positive]
        simp only [Option.mem_def,Option.some_inj,exists_eq_left']
        constructor <;> rintro ⟨first,last⟩ <;> constructor <;> linarith
      refine ⟨(t + z.offset (now 0)) / day,(held _).mpr rfl,fun d inside => ((held d).mp inside).symm⟩

end Zone

/-- What is read of a row of `memories` here; the time of its last change is a text. -/
structure MemoryRow where
  id : MemoryId
  spaceId : SpaceId
  updatedAt : String
  deriving DecidableEq

/-- The rows of a space in the order that the database comes to them, which it also takes them in where their texts are equal. -/
def scanned (spaceId : SpaceId) (rows : List MemoryRow) : List (MemoryRow × Nat) := (rows.filter (·.spaceId = spaceId)).zipIdx

/-- `ORDER BY updated_at`. -/
def place (row : MemoryRow × Nat) : String ×ₗ Nat := toLex (row.1.updatedAt,row.2)

/-- `list_memories` of a space, whatever their status, by the texts of their times. -/
def listMemories (spaceId : SpaceId) (limit : Nat) (rows : List MemoryRow) : List MemoryRow :=
  ((sortDesc place (scanned spaceId rows)).take (max 1 (min limit 100))).map Prod.fst

def Period.reads (p : Period) (readTs : String → Option Time) (text : String) : Bool := (readTs text).any p.has

/-- `load_memory_changes`, by the texts of the times. -/
def loadMemoryRows (readTs : String → Option Time) (spaceId : SpaceId) (rows : List MemoryRow) (p : Period) : List MemoryRow :=
  ((listMemories spaceId 100 rows).filter (fun row => p.reads readTs row.updatedAt)).insertionSort (fun a b => a.updatedAt ≤ b.updatedAt)

/-- The times of some texts do not go back. -/
def Chronological (readTs : String → Option Time) (texts : List String) : Prop :=
  texts.Pairwise (fun a b => ∀ s ∈ readTs a, ∀ t ∈ readTs b, s ≤ t)

def Agree (readTs : String → Option Time) (texts : List String) : Prop :=
  ∀ a ∈ texts, ∀ b ∈ texts, a < b → ∀ s ∈ readTs a, ∀ t ∈ readTs b, s ≤ t

def Desk.within (d : Desk σ) (p : Period) : List NoteMetadata := d.shelf.notes.filter (fun n => d.shelf.queryable n && p.reads d.readTs n.ts)

def changedWithin (readTs : String → Option Time) (spaceId : SpaceId) (rows : List MemoryRow) (p : Period) : List MemoryRow :=
  rows.filter (fun row => p.reads readTs row.updatedAt && row.spaceId = spaceId)

structure Desk.NotesExact (d : Desk σ) (p : Period) : Prop where
  all : (d.loadNotesInRange p).Perm ((d.within p).map (fun n => withWords n (preferenceMask d.shelf.forgotten (words n))))
  chronological : Chronological d.readTs ((d.loadNotesInRange p).map (·.ts))

structure ChangesExact (readTs : String → Option Time) (spaceId : SpaceId) (rows : List MemoryRow) (p : Period) : Prop where
  all : (loadMemoryRows readTs spaceId rows p).Perm (changedWithin readTs spaceId rows p)
  chronological : Chronological readTs ((loadMemoryRows readTs spaceId rows p).map (·.updatedAt))

def Listed (readTs : String → Option Time) (spaceId : SpaceId) (rows : List MemoryRow) (p : Period) : Prop :=
  ∀ row ∈ scanned spaceId rows, p.reads readTs row.1.updatedAt → (scanned spaceId rows).countP (fun other => place row < place other) < 100

section Loaded

variable {readTs : String → Option Time} {spaceId : SpaceId} {rows : List MemoryRow} {p : Period}

theorem chronological_sorted {α : Type} {text : α → String} (as : List α) :
    Chronological readTs ((as.insertionSort (fun a b => text a ≤ text b)).map text) ↔ Agree readTs (as.map text) := by
  have equal : ∀ a b : α, text a = text b → ∀ s ∈ readTs (text a), ∀ t ∈ readTs (text b), s ≤ t := by
    intro a b same s first t second
    rw [same] at first
    exact (Option.mem_unique first second).le
  rw [Chronological,List.pairwise_map,pairwise_sorted_iff equal]
  unfold Agree
  simp only [List.forall_mem_map]

theorem Desk.notesExact_iff {d : Desk σ} : d.NotesExact p ↔ Agree d.readTs ((d.within p).map (·.ts)) := by
  have sorted : ((d.within p).insertionSort (fun a b => a.ts ≤ b.ts)).Perm (d.within p) := List.perm_insertionSort _ _
  have stamps : (d.loadNotesInRange p).map (·.ts) = ((d.within p).insertionSort (fun a b => a.ts ≤ b.ts)).map (·.ts) := by
    rw [Desk.loadNotesInRange,List.map_map]
    rfl
  rw [← chronological_sorted,← stamps]
  exact ⟨fun exact_ => exact_.chronological,fun chronological => ⟨sorted.map _,chronological⟩⟩

theorem scanned_keys : ((scanned spaceId rows).map place).Nodup := by
  have once : ((scanned spaceId rows).map Prod.snd).Nodup := by
    rw [scanned,List.zipIdx_map_snd]
    exact List.nodup_range'
  exact List.Nodup.of_map (fun key => (ofLex key).2) (by rwa [List.map_map])

theorem listed_iff : (loadMemoryRows readTs spaceId rows p).Perm (changedWithin readTs spaceId rows p) ↔ Listed readTs spaceId rows p := by
  let wanted : MemoryRow × Nat → Bool := fun row => p.reads readTs row.1.updatedAt
  have keys : ((scanned spaceId rows).map place).Nodup := scanned_keys
  have listed : ((sortDesc place (scanned spaceId rows)).take 100).filter wanted = (sortDesc place (scanned spaceId rows)).filter wanted ↔
      Listed readTs spaceId rows p := fetched_iff keys
  have sorted : (loadMemoryRows readTs spaceId rows p).Perm ((((sortDesc place (scanned spaceId rows)).take 100).filter wanted).map Prod.fst) := by
    rw [loadMemoryRows,listMemories,List.filter_map]
    exact List.perm_insertionSort _ _
  have changed : (((sortDesc place (scanned spaceId rows)).filter wanted).map Prod.fst).Perm (changedWithin readTs spaceId rows p) := by
    have all : ((scanned spaceId rows).filter wanted).map Prod.fst = changedWithin readTs spaceId rows p := by
      have whole : (scanned spaceId rows).map Prod.fst = rows.filter (·.spaceId = spaceId) := List.zipIdx_map_fst 0 _
      rw [changedWithin,← List.filter_filter,← whole,List.filter_map]
      rfl
    rw [← all]
    exact ((sortDesc_perm place _).filter wanted).map _
  rw [← listed]
  constructor
  · intro perm
    have first : ((sortDesc place (scanned spaceId rows)).take 100).filter wanted <+: (sortDesc place (scanned spaceId rows)).filter wanted :=
      (List.take_prefix _ _).filter wanted
    refine first.eq_of_length ?_
    have size := (sorted.symm.trans (perm.trans changed.symm)).length_eq
    rwa [List.length_map,List.length_map] at size
  · intro same
    rw [same] at sorted
    exact sorted.trans changed

theorem loadMemoryRows_length : (loadMemoryRows readTs spaceId rows p).length ≤ 100 := by
  have few : (listMemories spaceId 100 rows).length ≤ 100 := by
    rw [listMemories,List.length_map]
    exact List.length_take_le _ _
  rw [loadMemoryRows,List.length_insertionSort]
  exact (List.length_filter_le _ _).trans few

theorem changesExact_iff : ChangesExact readTs spaceId rows p ↔
    Listed readTs spaceId rows p ∧ Agree readTs ((changedWithin readTs spaceId rows p).map (·.updatedAt)) := by
  have ordered (perm : (loadMemoryRows readTs spaceId rows p).Perm (changedWithin readTs spaceId rows p)) :
      Chronological readTs ((loadMemoryRows readTs spaceId rows p).map (·.updatedAt)) ↔
        Agree readTs ((changedWithin readTs spaceId rows p).map (·.updatedAt)) := by
    have same : ∀ text, text ∈ ((listMemories spaceId 100 rows).filter (fun row => p.reads readTs row.updatedAt)).map (·.updatedAt) ↔
        text ∈ (changedWithin readTs spaceId rows p).map (·.updatedAt) := fun text =>
      (((List.perm_insertionSort _ _).symm.trans perm).map (·.updatedAt)).mem_iff
    rw [loadMemoryRows,chronological_sorted,Agree,Agree]
    simp only [same]
  rw [← listed_iff]
  exact ⟨fun exact_ => ⟨exact_.all,(ordered exact_.all).mp exact_.chronological⟩,fun ⟨all,agree⟩ => ⟨all,(ordered all).mpr agree⟩⟩

end Loaded

/-- The windows are exact and what is loaded for one is what happened in it, exactly where the clock is steady, the texts of the notes and
of the memories that are loaded are in the order of their times, and no such memory is behind a hundred others. -/
theorem windows_exact_iff {z : Zone} {d : Desk σ} {rows : List MemoryRow} {p : Period} :
    (z.Exact ∧ d.NotesExact p ∧ ChangesExact d.readTs d.spaceId rows p) ↔
      z.Steady ∧ Agree d.readTs ((d.within p).map (·.ts)) ∧ Listed d.readTs d.spaceId rows p ∧
        Agree d.readTs ((changedWithin d.readTs d.spaceId rows p).map (·.updatedAt)) :=
  and_congr Zone.exact_iff_steady (and_congr Desk.notesExact_iff changesExact_iff)

/-- The clock is an hour ahead from two hours after the beginning of day 1 on. -/
def spring : Zone := ⟨fun t => if t < day + 7200000000 then 0 else 3600000000⟩

def early : String := "2026-10-25T02:30:00+02:00"

def late : String := "2026-10-25T02:10:00+01:00"

/-- Two notes, of which the later one has the smaller text. -/
def autumn : Desk Unit where
  shelf := { NoteShelf.ofNote "milk" [] [] with
    notes := [{ NoteShelf.noteWith "milk" with ts := early },{ NoteShelf.noteWith "bread" with id := "m",ts := late }] }
  memories := Memories.Store.empty Unit
  spaceId := 1
  readTs text := if text = early then some 1800000000 else if text = late then some 4200000000 else none

def october : Period := ⟨"今天",0,day⟩

def crowd : List MemoryRow := (List.range 101).map (fun id => ⟨id,1,early⟩)

/-- The clock is changed, the texts are not in the order of the times, and one change of a hundred and one is left out. -/
theorem windows_inexact : ¬spring.Exact ∧ ¬autumn.NotesExact october ∧ ¬ChangesExact autumn.readTs 1 crowd october := by
  refine ⟨fun exact_ => ?_,fun exact_ => ?_,fun exact_ => ?_⟩
  · have ahead := Zone.exact_iff_steady.mp exact_ day (2 * day) (by decide)
    exact absurd ahead (by decide)
  · have back := Desk.notesExact_iff.mp exact_ late (by decide +kernel) early (by decide +kernel) (by decide +kernel)
    exact absurd (back 4200000000 (by decide +kernel) 1800000000 (by decide +kernel)) (by decide)
  · have all : changedWithin autumn.readTs 1 crowd october = crowd := by
      refine List.filter_eq_self.mpr (fun row member => ?_)
      obtain ⟨id,_,rfl⟩ := List.mem_map.mp member
      change (october.reads autumn.readTs early && decide ((1 : SpaceId) = 1)) = true
      decide +kernel
    have many : 101 ≤ (loadMemoryRows autumn.readTs 1 crowd october).length := by
      rw [exact_.all.length_eq,all,crowd,List.length_map,List.length_range]
    exact absurd (many.trans loadMemoryRows_length) (by decide)

end Suixinji.Summaries
