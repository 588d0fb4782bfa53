import Mathlib.Data.List.Dedup
import Mathlib.Data.Prod.Lex
import Mathlib.Order.WithBot
import Suixinji.Relational.Grouping
import Suixinji.Relational.Ranking

/-! Which of the tasks that tell of one thing a reader is to believe: `_task_instance_groups` and
the two passes over its groups (repositories/postgres/memory.py). Numbers are of any ordered type,
with whatever addition and rounding it has. -/
namespace Suixinji.Retrieval
open Suixinji.Ranking Suixinji.Grouping

section Records

variable (F : Type)

/-- `MemoryRecord`: the fields that the passes read, the times as `_dt` reads them. -/
structure MemoryRecord where
  id : String
  memoryType : String := "task"
  status : String := "active"
  taskStatus : Option String := none
  currentVersion : ℤ := 1
  confidence : Option F := none
  lastConfirmedAt : Option F := none
  updatedAt : Option F := none
  validFrom : Option F := none
  createdAt : Option F := none
  sources : Nat := 0
  versions : Nat := 0
  deriving DecidableEq

/-- What a pass changes of a `MemoryRetrievalHit`. -/
structure Trace where
  finalScore : F
  reasons : List String := []
  deriving DecidableEq

structure Item where
  memory : MemoryRecord F
  score : F
  hit : Trace F
  deriving DecidableEq

/-- `str.casefold`, the clock, the margin 0.02 and `round(x, 4)`. -/
structure Reading where
  casefold : String → String
  now : Option F
  margin : F
  round4 : F → F

end Records

inductive Verdict where
  | ambiguous
  | authoritative
  | superseded
  deriving DecidableEq

/-- What a pass notes of one memory of a group: a verdict and, mostly, a new score. -/
structure Note (F : Type) where
  id : String
  score : Option F
  verdict : Verdict
  deriving DecidableEq

variable {F : Type} [LinearOrder F] [Zero F] [One F] [Add F] [Sub F]

/-- `_task_current_timestamp`: the first time that is not in the future. -/
def taskCurrentTimestamp (r : Reading F) (m : MemoryRecord F) : WithBot F :=
  let times := [m.lastConfirmedAt,m.updatedAt,m.validFrom,m.createdAt].filterMap id
  ((times.find? (fun t => r.now.all (t ≤ ·))).map WithBot.some).getD ⊥

def unsafeStatuses : List String := ["pending","pending_review","conflicted"]

/-- `_task_authority_key`. -/
def taskAuthorityKey (r : Reading F) (m : MemoryRecord F) : ℕ ×ₗ ℕ ×ₗ WithBot F ×ₗ ℤ ×ₗ F :=
  let status := r.casefold m.status
  toLex ((if status = "active" then 1 else 0),toLex ((if status ∉ unsafeStatuses then 1 else 0),
    toLex (taskCurrentTimestamp r m,toLex ((if m.currentVersion = 0 then 1 else m.currentVersion),m.confidence.getD 0))))

/-- `_task_history_authority_key`. -/
def taskHistoryAuthorityKey (r : Reading F) (m : MemoryRecord F) : ℕ ×ₗ ℕ ×ₗ ℤ ×ₗ ℕ ×ₗ ℕ ×ₗ WithBot F ×ₗ F :=
  let status := r.casefold m.status
  toLex ((if status = "active" then 1 else 0),toLex ((if status ∉ unsafeStatuses then 1 else 0),
    toLex ((if m.currentVersion = 0 then 1 else m.currentVersion),toLex (m.sources,toLex (m.versions,
      toLex (taskCurrentTimestamp r m,m.confidence.getD 0))))))

/-- How a pass orders the members of a group, when it finds the first of them in dispute, which of them
it takes otherwise, and what it calls its verdicts. -/
structure Precedence (F κ : Type) where
  key : MemoryRecord F → κ
  contested : List (Item F) → Bool
  winner : List (Item F) → Option (Item F)
  text : Verdict → String

def currentPrecedence (r : Reading F) : Precedence F (ℕ ×ₗ ℕ ×ₗ WithBot F ×ₗ ℤ ×ₗ F) where
  key := taskAuthorityKey r
  contested leaders := 1 < leaders.length && 1 < (leaders.map (·.memory.taskStatus.getD "")).dedup.length
  winner := greatest (byThen Item.score (less (·.memory.id)))
  text
    | .ambiguous => "task_current_state_ambiguous"
    | .authoritative => "task_current_authoritative"
    | .superseded => "task_current_superseded"

def historyPrecedence (r : Reading F) : Precedence F (ℕ ×ₗ ℕ ×ₗ ℤ ×ₗ ℕ ×ₗ ℕ ×ₗ WithBot F ×ₗ F) where
  key := taskHistoryAuthorityKey r
  contested leaders := leaders.length ≠ 1
  winner := List.head?
  text
    | .ambiguous => "task_history_representative_ambiguous"
    | .authoritative => "task_history_representative"
    | .superseded => "task_history_nonrepresentative"

variable {κ : Type} [LinearOrder κ]

def leadersOf (p : Precedence F κ) (group : List (Item F)) : List (Item F) :=
  let best := (group.map (fun i => p.key i.memory)).max?
  group.filter (fun i => some (p.key i.memory) = best)

/-- The body of the loop over the groups. -/
def groupNotes (r : Reading F) (p : Precedence F κ) (group : List (Item F)) : List (Note F) :=
  if group.length ≤ 1 then []
  else
    let leaders := leadersOf p group
    if p.contested leaders then leaders.map (fun i => ⟨i.memory.id,none,.ambiguous⟩)
    else
      let winnerScore := min 1 (((group.map Item.score).max?).getD 0 + r.margin)
      let loserCap := max 0 (winnerScore - r.margin)
      group.map (fun i =>
        if some i.memory.id = (p.winner leaders).map (·.memory.id) then ⟨i.memory.id,some winnerScore,.authoritative⟩
        else ⟨i.memory.id,some (min i.score loserCap),.superseded⟩)

/-- `_task_instance_groups`. -/
def taskInstanceGroups (same : MemoryRecord F → MemoryRecord F → Bool) (ranked : List (Item F)) : List (List (Item F)) :=
  groupsOf (fun i j => same i.memory j.memory) (ranked.filter (·.memory.memoryType = "task"))

/-- What is noted of a memory: in `adjusted_scores` and on its hit. -/
def notesOf (r : Reading F) (p : Precedence F κ) (groups : List (List (Item F))) (id : String) : List (Note F) :=
  (groups.flatMap (groupNotes r p)).filter (·.id = id)

def settle (r : Reading F) (p : Precedence F κ) (notes : List (Note F)) (i : Item F) : Item F :=
  let score := r.round4 (((notes.filterMap Note.score).getLast?).getD i.score)
  { i with score, hit := { finalScore := score,reasons := i.hit.reasons ++ notes.map (p.text ·.verdict) } }

def applyPrecedence (r : Reading F) (p : Precedence F κ) (same : MemoryRecord F → MemoryRecord F → Bool)
    (ranked : List (Item F)) : List (Item F) :=
  let groups := taskInstanceGroups same ranked
  ranked.map (fun i => settle r p (notesOf r p groups i.memory.id) i)

/-- `_apply_task_current_precedence`. -/
def applyTaskCurrentPrecedence (r : Reading F) := applyPrecedence r (currentPrecedence r)

/-- `_apply_task_history_precedence`. -/
def applyTaskHistoryPrecedence (r : Reading F) := applyPrecedence r (historyPrecedence r)

end Suixinji.Retrieval
