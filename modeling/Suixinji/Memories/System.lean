import Suixinji.Relational.Transition
import Suixinji.Memories.Apply
import Suixinji.Memories.Review

/-! Long-term memory as a system: the commands of one transaction each, in any order. -/
namespace Suixinji.Memories
open Relational Checked Transition

variable {σ : Type}

inductive Command (σ : Type) where
  | apply (call : ApplyCall σ)
  | insert (id : MemoryId) (spaceId : SpaceId) (c : Candidate σ) (noteId : NoteId) (status : MemoryStatus) (now : Time)
  | addSource (id : MemoryId) (noteId : NoteId) (relation : SourceRelation)
  | update (id : MemoryId) (c : Changes σ) (reason : Option String) (noteId : Option NoteId) (now : Time)
  | correct (id : MemoryId) (content : String) (taskStatus : Option (Option TaskStatus)) (now : Time)
  | softDelete (id : MemoryId) (now : Time)
  | expire (ids : List MemoryId) (now : Time)
  | resolve (id : MemoryId) (resolution : Resolution) (now : Time)
  | purge (id : MemoryId)
  | approve (id : MemoryId) (now : Time)
  | reject (id : MemoryId) (now : Time)
  | edit (id : MemoryId) (content : String) (now : Time)

/-- The transaction of a command; one that raises is rolled back, and the failure of
an application is then recorded. -/
def execute (lib : Library σ) (s : Store σ) : Command σ → Except Error (Store σ)
  | .apply call => .ok (applyMemoryDecision lib call s).2
  | .insert id spaceId c noteId status now => insertMemoryCommand lib id spaceId c noteId .createdFrom status now s
  | .addSource id noteId relation => .ok (addSourceCommand lib id noteId relation s)
  | .update id c reason noteId now => updateMemory lib id c reason noteId now s
  | .correct id content taskStatus now => correctMemory lib id content taskStatus now s
  | .softDelete id now => softDeleteMemory lib id now s
  | .expire ids now => expireDueMemories lib ids now s
  | .resolve id resolution now => resolveMemoryConflict lib id resolution now s
  | .purge id => .ok (purgeMemory id s)
  | .approve id now => do return (← approvePendingMemory lib id now s).2
  | .reject id now => rejectPendingMemory lib id now s
  | .edit id content now => do return (← editPendingMemory lib id content now s).2

def Step (lib : Library σ) (s : Store σ) (c : Command σ) (s' : Store σ) : Prop := execute lib s c = .ok s'

/-- The store after commands that all go through; unchanged if one does not. -/
def Store.after (lib : Library σ) (s : Store σ) (cs : List (Command σ)) : Store σ :=
  (cs.foldlM (execute lib) s).toOption.getD s

theorem run_after (lib : Library σ) (s : Store σ) (cs : List (Command σ))
    (passes : (cs.foldlM (execute lib) s).toOption.isSome) : Run (Step lib) s cs (s.after lib cs) :=
  .of_checked (ok_of_isSome s passes)

/-- The texts functions on lower-case words that none of them drops or rewrites. -/
def Library.plain (σ : Type) : Library σ where
  normalizeContent := id
  memoryKeyFor := fun memoryType subject predicate objectValue content =>
    ":".intercalate [memoryType.text,subject.getD "用户",predicate.getD memoryType.text,objectValue.getD content]
  taskFamilyCompatible := fun _ _ => false
  taskInstanceAuthorized := fun _ _ => false
  referenceResolved := fun _ => false

end Suixinji.Memories
