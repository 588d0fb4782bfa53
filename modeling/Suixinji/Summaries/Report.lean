import Suixinji.Ask.Masked

/-! What a summary is made of (summary/daily_summary.py): the notes and the changes of
memories of a period, the payloads the model is given, and the text without a model. -/
namespace Suixinji.Summaries
open Ask (NoteShelf preferenceMask words withWords clip descending orText)
open Local (NoteMetadata)
open Memories (Memory Store MemoryStatus MemoryType TaskStatus MemoryId NoteId Time)
open Ranking

variable {σ : Type}

structure Period where
  label : String
  start : Time
  stop : Time
  deriving DecidableEq

def Period.has (p : Period) (t : Time) : Bool := p.start ≤ t && t < p.stop

/-- A space whose summary is made; `readTs` is `_parse_ts`. -/
structure Desk (σ : Type) where
  shelf : NoteShelf
  memories : Store σ
  spaceId : Memories.SpaceId
  readTs : String → Option Time

/-- One of `_brief_notes`. -/
structure BriefNote where
  id : String
  time : String
  title : String
  type : String
  tags : List String
  summary : String
  text : String
  deriving DecidableEq

/-- One of `_brief_memories`. -/
structure BriefMemory where
  id : MemoryId
  memoryType : MemoryType
  content : String
  status : MemoryStatus
  taskStatus : Option TaskStatus
  updatedAt : Time
  sourceNoteIds : List NoteId
  deriving DecidableEq

/-- `_stats`. -/
structure Stats where
  noteCount : Nat
  typeCounts : List (String × Nat)
  topTags : List (String × Nat)
  deriving DecidableEq

structure Payload where
  rangeLabel : String
  start : Time
  stop : Time
  stats : Stats
  notes : List BriefNote
  memoryChanges : List BriefMemory
  deriving DecidableEq

/-- What the review is given, with the draft. -/
structure ReviewPayload where
  notes : List BriefNote
  memoryChanges : List BriefMemory
  draft : String
  deriving DecidableEq

/-- `Counter.most_common`: of equal counts the one met first. -/
def mostCommon (items : List String) : List (String × Nat) :=
  (items.eraseDups.map (fun item => (item,items.count item))).insertionSort (fun a b => b.2 ≤ a.2)

def stats (notes : List NoteMetadata) : Stats :=
  ⟨notes.length,mostCommon (notes.map (fun n => orText n.type "未分类")),(mostCommon (notes.flatMap (·.tags))).take 20⟩

def briefNote (n : NoteMetadata) : BriefNote := ⟨n.id,n.ts,n.title,n.type,n.tags,n.summary,clip 260 n.text⟩

def briefNotes (notes : List NoteMetadata) : List BriefNote := (notes.take 120).map briefNote

namespace Desk

variable (d : Desk σ) (p : Period)

/-- `load_notes_in_range`. -/
def loadNotesInRange : List NoteMetadata :=
  ((d.shelf.notes.filter (fun n => d.shelf.queryable n && (d.readTs n.ts).any p.has)).insertionSort (fun a b => a.ts ≤ b.ts)).map
    (fun n => withWords n (preferenceMask d.shelf.forgotten (words n)))

/-- `list_memories` of a space, whatever their status. -/
def listMemories : List (Memory σ) :=
  (descending (byThen (·.updatedAt) (less (·.id))) (d.memories.memories.rows.filter (·.spaceId = d.spaceId))).take 100

/-- `load_memory_changes`. -/
def loadMemoryChanges : List (Memory σ) :=
  (d.listMemories.filter (fun m => p.has m.updatedAt)).insertionSort (fun a b => a.updatedAt ≤ b.updatedAt)

def briefMemory (m : Memory σ) : BriefMemory :=
  ⟨m.id,m.memoryType,clip 360 m.content,m.status,m.taskStatus,m.updatedAt,
    ((d.memories.sources.rows.filter (·.memoryId = m.id)).take 8).map (·.noteId)⟩

def briefMemories (memories : List (Memory σ)) : List BriefMemory := (memories.take 60).map d.briefMemory

end Desk

def noteLine (n : NoteMetadata) : String :=
  "- " ++ String.ofList (n.ts.toList.take 10) ++ "｜" ++ orText n.title "无标题" ++ "：" ++ orText n.summary n.text

/-- `MEMORY_STATUSES`. -/
def statusText : MemoryStatus → String
  | .active => "active"
  | .superseded => "superseded"
  | .conflicted => "conflicted"
  | .forgotten => "forgotten"
  | .archived => "archived"
  | .pendingReview => "pending_review"
  | .deleted => "deleted"
  | .expired => "expired"

def memoryLine (m : Memory σ) : String :=
  "- " ++ m.memoryType.text ++ "｜" ++ statusText m.status ++ (m.taskStatus.elim "" ("｜" ++ ·.text)) ++ "：" ++ m.content

def fallbackLines (label : String) (notes : List NoteMetadata) (memories : List (Memory σ)) : List String :=
  ["## " ++ label ++ "随心记总结","","共记录 " ++ toString (stats notes).noteCount ++ " 条笔记。"] ++
    (if notes = [] then [] else
      ["","### 分类概览"] ++ (stats notes).typeCounts.map (fun c => "- " ++ c.1 ++ "：" ++ toString c.2 ++ " 条") ++
        ["","### 主要记录"] ++ (notes.take 10).map noteLine) ++
    (if memories = [] then [] else ["","### 长期状态变化"] ++ (memories.take 10).map memoryLine)

/-- `_fallback_summary`. -/
def fallbackSummary (label : String) (notes : List NoteMetadata) (memories : List (Memory σ)) : String :=
  if notes = [] ∧ memories = [] then label ++ "没有记录到随心记笔记。"
  else "\n".intercalate (fallbackLines label notes memories)

namespace Desk

variable (d : Desk σ) (p : Period)

/-- What the draft is made from; without notes the model is not asked. -/
def payload : Option Payload :=
  if d.loadNotesInRange p = [] then none
  else some ⟨p.label,p.start,p.stop,stats (d.loadNotesInRange p),briefNotes (d.loadNotesInRange p),
    d.briefMemories (d.loadMemoryChanges p)⟩

def reviewPayload (draft : String) : Option ReviewPayload :=
  (d.payload p).map (fun payload => ⟨payload.notes,payload.memoryChanges,draft⟩)

def fallback : String := fallbackSummary p.label (d.loadNotesInRange p) (d.loadMemoryChanges p)

end Desk
end Suixinji.Summaries
