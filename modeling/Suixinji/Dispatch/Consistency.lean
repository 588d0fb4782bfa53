import Mathlib.Data.List.Infix
import Suixinji.Relational.Text

/-! What a task must wait for (runtime/consistency.py). -/
namespace Suixinji.Dispatch

/-- The library functions that rest on tables too large to write down. -/
structure Host where
  sha256Hex : String → String
  casefold : String → String
  lower : String → String
  isSpace : Char → Bool

/-- The library functions on plain ASCII text; no digest is taken there. -/
def asciiHost : Host where
  sha256Hex := id
  casefold text := String.ofList (text.toList.map Char.toLower)
  lower text := String.ofList (text.toList.map Char.toLower)
  isSpace := Text.isSpace

/-- `text.split()`. -/
def Host.split (host : Host) (text : String) : List String :=
  ((text.toList.splitOnP host.isSpace).filter (· ≠ [])).map String.ofList

/-- `text.strip()`. -/
def Host.strip (host : Host) (text : String) : String :=
  String.ofList (Text.strip host.isSpace text.toList)

inductive Consistency where
  | note
  | memory
  | weak
  deriving DecidableEq

def Consistency.text : Consistency → String
  | .note => "note"
  | .memory => "memory"
  | .weak => "weak"

def memoryQueryMarkers : List String :=
  ["喜欢","讨厌","偏好","习惯","过敏","当前待办","未完成任务","待办任务","标记完成","标记为完成",
    "标记为已完成","现在的任务","待办是什么","任务进度","做到哪了","有进展吗","完成了吗","换得怎么样",
    "弄好了吗","住在哪里","住哪","现在住","正在学习","当前项目","what do i like","preference","todo",
    "current task","where do i live"]

def noteQueryMarkers : List String :=
  ["最近","笔记","记录","记了","写了","/type","/tag","标签","类型","recent","record","note"]

def queryConsistency (host : Host) (question : String) : Consistency :=
  let normalized := " ".intercalate (host.split (host.casefold (host.strip question)))
  if memoryQueryMarkers.any (Text.contains normalized) then .memory
  else if noteQueryMarkers.any (Text.contains normalized) then .note
  else .weak

/-- `consistency` and `question` are the payload's keys of that name. -/
def taskConsistency (host : Host) (taskType : String) (consistency question : Option String) : Consistency :=
  let explicit := host.lower (host.strip (consistency.getD ""))
  if explicit = "note" then .note
  else if explicit = "memory" then .memory
  else if explicit = "weak" then .weak
  else if taskType = "ingest" ∨ taskType = "summary" then .note
  else if taskType = "query" then queryConsistency host (question.getD "")
  else .weak

end Suixinji.Dispatch
