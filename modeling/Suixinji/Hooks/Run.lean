import Suixinji.Coordination.Lock

/-! Nested calls of `HookManager.run_agent`, `run_llm` and `run_tool` on one
context, with the default hooks (agent/hooks). -/
namespace Suixinji.Hooks
open Suixinji.Coordination

/-- space_lock.py, `WRITE_TOOLS`. -/
def writeTools : List String :=
  ["save_note","update_memory","forget_memory","purge_memory","consolidate_memory","process_memory"]

/-- tool_cache.py, `READ_TOOLS`. -/
def readTools : List String :=
  ["search_notes","get_note","get_related_notes","search_memories","search_tasks","memory_search","semantic_search",
    "list_recent","follow_links","by_type","by_tag","filter_notes","related_notes","task_status_search"]

/-- task_dispatch.py, the keys of `ASYNC_TOOLS`. -/
def asyncTools : List String := ["generate_summary","consolidate_memory","large_import"]

inductive Scope where
  | agent
  | llm
  | tool (name : String)
  deriving DecidableEq

inductive Hook where
  | observability
  | rateLimit
  | idempotency
  | session
  | llmUsage
  | taskDispatch
  | toolCache
  | spaceLock
  deriving DecidableEq

/-- `_build_default_manager`. -/
def hooks : List Hook :=
  [.observability,.rateLimit,.idempotency,.session,.llmUsage,.taskDispatch,.toolCache,.spaceLock]

/-- An entry `space_lock:{tool_name}` of the resources. -/
abbrev Lock := String × Nat

/-- What a hook obtains; the number is drawn at the acquisition. -/
inductive Resource where
  | lock (entry : Lock)
  | slot (n : Nat)
  | record (n : Nat)
  deriving DecidableEq

inductive Act where
  | acquires (r : Resource)
  /-- A lock or slot is released, a record is completed or failed. -/
  | ends (r : Resource)
  /-- The callable of a write tool starts, with the lock acquired for it. -/
  | enters (lock : Lock)
  | leaves (lock : Lock)
  deriving DecidableEq

/-- Where a call stands, with the hooks whose methods are still to run. -/
inductive Phase where
  | before (rest : List Hook)
  | callable
  | after (rest : List Hook)
  | failing (rest : List Hook)
  deriving DecidableEq

/-- A call that has not ended. -/
structure Frame where
  scope : Scope
  phase : Phase := .before hooks
  /-- The lock that `SpaceLockHook.before_tool` has acquired for it, until the hook's own release. -/
  lock : Option Lock := none
  deriving DecidableEq

/-- What a `before` method comes to: it has nothing to do, it does what it is
for, or it raises. -/
inductive Outcome where
  | passes
  | acts
  | raises
  deriving DecidableEq

/-- `context.resources` and the calls on the context, the innermost first. -/
structure World where
  locks : List Lock := []
  /-- `llm_slots`, the last one first. -/
  slots : List Nat := []
  /-- `idempotency`. -/
  record : Option Nat := none
  /-- The entries `tool_cache_hit:{tool_name}`. -/
  hits : List String := []
  stack : List Frame := []
  drawn : Nat := 0
  log : List Act := []
  deriving DecidableEq

/-- `context.resources[f"space_lock:{tool_name}"] = manager`. -/
def setItem (locks : List Lock) (lock : Lock) : List Lock :=
  if lock.1 ∈ locks.map Prod.fst then locks.map (fun entry => if entry.1 = lock.1 then lock else entry)
  else locks ++ [lock]

def World.register (w : World) : Resource → World
  | .lock entry => {w with locks := setItem w.locks entry}
  | .slot n => {w with slots := n::w.slots}
  | .record n => {w with record := some n}

def Resource.lock? : Resource → Option Lock
  | .lock entry => some entry
  | .slot _ | .record _ => none

/-- The `pop` before a release. -/
def World.drop (w : World) : Resource → World
  | .lock entry => {w with locks := w.locks.filter (·.1 ≠ entry.1)}
  | .slot n => {w with slots := w.slots.erase n}
  | .record _ => {w with record := none}

/-- What the `before` method of a hook acquires. -/
def obtained (n : Nat) (outcome : Outcome) : Hook → Scope → Option Resource
  | .spaceLock,.tool name => if name ∈ writeTools then some (.lock (name,n)) else none
  | .llmUsage,.llm => some (.slot n)
  -- no message, or a call that belongs to a task: the hook returns at once
  | .idempotency,.agent => if outcome = .acts then some (.record n) else none
  | _,_ => none

/-- The marker that makes `run_tool` use a stored result. -/
def marked (outcome : Outcome) : Hook → Scope → Option String
  | .taskDispatch,.tool name => if outcome = .acts ∧ name ∈ asyncTools then some name else none
  | .toolCache,.tool name => if outcome = .acts ∧ name ∈ readTools then some name else none
  | _,_ => none

/-- What the `after` method of a hook releases. -/
def World.dueAfter (w : World) : Hook → Scope → List Resource
  | .spaceLock,.tool name => (w.locks.filter (·.1 = name)).map .lock
  | .llmUsage,.llm => w.slots.map .slot
  | .idempotency,.agent => w.record.toList.map .record
  | _,_ => []

/-- What its `on_error` releases. -/
def World.dueOnError (w : World) : Hook → Scope → List Resource
  | .spaceLock,_ => w.locks.map .lock
  | .llmUsage,.llm | .llmUsage,.agent => w.slots.map .slot
  | .idempotency,.agent => w.record.toList.map .record
  | _,_ => []

/-- One `pop` and release. -/
def World.release (w : World) (r : Resource) (answer : Answer) : World :=
  {w.drop r with log := if answer = .failed then w.log else w.log ++ [.ends r]}

/-- The releases of one method, and whether it raises. `LlmUsageHook._release`
swallows what `release_slot` raises and goes on. -/
def World.releaseAll (w : World) (hook : Hook) (answers : Resource → Answer) : List Resource → World × Bool
  | [] => (w,false)
  | r::rest =>
    if answers r = .replied ∨ hook = .llmUsage then (w.release r (answers r)).releaseAll hook answers rest
    else (w.release r (answers r),true)

inductive Event where
  | call (scope : Scope)
  | before (outcome : Outcome)
  /-- The `before` methods are done. -/
  | start
  | leave (raises : Bool)
  | after (answers : Resource → Answer) (raises : Bool)
  | onError (answers : Resource → Answer)
  /-- The call returns or raises to its caller. -/
  | finish

def World.enter (w : World) (frame : Frame) (below : List Frame) : World :=
  match frame.scope with
  | .tool name =>
    if name ∈ w.hits then
      {w with hits := w.hits.erase name, stack := {frame with phase := .after hooks.reverse}::below}
    else {w with log := w.log ++ frame.lock.toList.map .enters, stack := {frame with phase := .callable}::below}
  | _ => {w with stack := {frame with phase := .callable}::below}

/-- The `before` method of a hook that does not raise. -/
def World.perform (w : World) (hook : Hook) (outcome : Outcome) (frame : Frame) (below : List Frame) : World :=
  match obtained w.drawn outcome hook frame.scope with
  | none => {w with hits := (marked outcome hook frame.scope).elim w.hits (w.hits.insert ·), stack := frame::below}
  | some r =>
    {w.register r with
      drawn := w.drawn + 1
      log := w.log ++ [.acquires r]
      stack := {frame with lock := r.lock?.or frame.lock}::below}

def next (w : World) : Event → Option World
  | .call scope =>
    match w.stack with
    | [] => some {w with stack := [{scope}]}
    | frame::below => if frame.phase = .callable then some {w with stack := {scope}::frame::below} else none
  | .before outcome =>
    match w.stack with
    | ⟨scope,.before (hook::rest),lock⟩::below =>
      if outcome = .raises then some {w with stack := ⟨scope,.failing hooks.reverse,lock⟩::below}
      else some (w.perform hook outcome ⟨scope,.before rest,lock⟩ below)
    | _ => none
  | .start =>
    match w.stack with
    | ⟨scope,.before [],lock⟩::below => some (w.enter ⟨scope,.before [],lock⟩ below)
    | _ => none
  -- an exception of a nested call that is not caught leaves the callable too
  | .leave raises =>
    match w.stack with
    | ⟨scope,.callable,lock⟩::below =>
      some {w with
        log := w.log ++ lock.toList.map .leaves
        stack := ⟨scope,if raises then .failing hooks.reverse else .after hooks.reverse,lock⟩::below}
    | _ => none
  | .after answers raises =>
    match w.stack with
    | ⟨scope,.after (hook::rest),lock⟩::below =>
      let (w,failed) := w.releaseAll hook answers (w.dueAfter hook scope)
      some {w with
        stack := ⟨scope,if failed || raises then .failing hooks.reverse else .after rest,
          if hook = .spaceLock then none else lock⟩::below}
    | _ => none
  -- whatever `on_error` raises is swallowed
  | .onError answers =>
    match w.stack with
    | ⟨scope,.failing (hook::rest),lock⟩::below =>
      let (w,_) := w.releaseAll hook answers (w.dueOnError hook scope)
      some {w with stack := ⟨scope,.failing rest,if hook = .spaceLock then none else lock⟩::below}
    | _ => none
  | .finish =>
    match w.stack with
    | ⟨_,.after [],_⟩::below | ⟨_,.failing [],_⟩::below => some {w with stack := below}
    | _ => none

end Suixinji.Hooks
