import Mathlib.Logic.Function.Basic
import Suixinji.Dispatch.Consistency
import Suixinji.Dispatch.TaskLife
import Suixinji.Relational.Transition

/-! Consolidation runs (`reserve_consolidation_run`, `mark_consolidation_completed`,
`mark_consolidation_failed`): memory/repository.py with one writer at a time, and
repositories/postgres/memory.py with row locks. -/
namespace Suixinji.Consolidation
open Suixinji.Relational Suixinji.Dispatch Suixinji.Transition

inductive RunStatus where
  | running
  | completed
  | failed
  deriving DecidableEq

/-- A space, a cadence and a period key. -/
abbrev Period := String × String × String

structure ConsolidationRun where
  id : String
  spaceId : String
  cadence : String
  periodKey : String
  status : RunStatus
  startedAt : Time
  completedAt : Option Time
  error : Option String
  resultJson : Option String
  deriving DecidableEq

/-- `uq_memory_consolidation_period`. -/
def ConsolidationRun.period (r : ConsolidationRun) : Period := (r.spaceId,r.cadence,r.periodKey)

/-- `cadence.strip().lower()`. -/
def normalCadence (host : Host) (cadence : String) : String := host.lower (host.strip cadence)

/-- `utc_now_iso`, to the second. -/
def utcNow (now : Time) : Time := now - now % 1000

def isStale (leaseSeconds : Int) (startedAt now : Time) : Bool := seconds leaseSeconds < now - startedAt

def ConsolidationRun.closed (leaseSeconds : Int) (now : Time) (r : ConsolidationRun) : Bool :=
  r.status = .completed || r.status = .running && !isStale leaseSeconds r.startedAt now

/-- The row of a reservation, new or written over the old one with all its columns. -/
def Period.reserved (p : Period) (id : String) (now : Time) : ConsolidationRun where
  id
  spaceId := p.1
  cadence := p.2.1
  periodKey := p.2.2
  status := .running
  startedAt := utcNow now
  completedAt := none
  error := none
  resultJson := none

inductive Mark where
  | completed (result : String)
  | failed (error : String)
  deriving DecidableEq

def Mark.status : Mark → RunStatus
  | .completed _ => .completed
  | .failed _ => .failed

def Mark.write (now : Time) (r : ConsolidationRun) : Mark → ConsolidationRun
  | .completed result => {r with status := .completed,completedAt := some (utcNow now),error := none,resultJson := some result}
  | .failed error => {r with status := .failed,completedAt := some (utcNow now),error := some error}

/-- The table, the ids drawn by `new_id`, the runs that reservations have returned, the
ids a mark has been called for, and the last reading of the clock. -/
structure Runs where
  rows : Table ConsolidationRun.period := .empty
  drawn : List String := []
  returned : List ConsolidationRun := []
  ended : List String := []
  clock : Time := 0

def Runs.take (s : Runs) (p : Period) (id : String) (now later : Time) : Runs :=
  {s with rows := s.rows.upsert (p.reserved id now),drawn := id::s.drawn,clock := later}

/-- `UPDATE memory_consolidation_runs SET ... WHERE id = run_id`. -/
def Runs.mark (s : Runs) (runId : String) (m : Mark) (now : Time) : Runs :=
  {s with
    rows := s.rows.updateWhere (·.id = runId) (m.write now ·) (by intro r; cases m <;> rfl)
    ended := runId::s.ended
    clock := now}

abbrev Worker := Nat

/-- Each worker with the id of its reservation, until it has read the run back. -/
structure LocalWorld where
  runs : Runs
  phase : Worker → Option String

inductive LocalEvent where
  -- `BEGIN IMMEDIATE`: the clock is read for the row, then for the lease
  | reserve (w : Worker) (spaceId cadence periodKey id : String) (now later : Time) (granted : Bool)
  -- `get_consolidation_run`
  | fetch (w : Worker)
  | mark (runId : String) (m : Mark) (now : Time)
  deriving DecidableEq

def localNext (host : Host) (leaseSeconds : Int) (s : LocalWorld) : LocalEvent → Option LocalWorld
  | .reserve w spaceId cadence periodKey id now later granted =>
    if s.phase w = none ∧ s.runs.clock ≤ now ∧ now ≤ later then
      let p : Period := (spaceId,normalCadence host cadence,periodKey)
      if (s.runs.rows.find? p).any (·.closed leaseSeconds later) then
        if granted then none else some {s with runs := {s.runs with clock := later}}
      else if granted ∧ id ∉ s.runs.drawn then
        some {runs := s.runs.take p id now later,phase := Function.update s.phase w (some id)}
      else none
    else none
  | .fetch w =>
    match s.phase w with
    | some id =>
      let found := s.runs.rows.rows.find? (·.id = id)
      some {runs := {s.runs with returned := found.toList ++ s.runs.returned},phase := Function.update s.phase w none}
    | none => none
  | .mark runId m now => if s.runs.clock ≤ now then some {s with runs := s.runs.mark runId m now} else none

inductive Phase where
  | idle
  | taking (p : Period)
  | adding (p : Period)
  deriving DecidableEq

structure World where
  runs : Runs
  phase : Worker → Phase
  lock : Period → Option Worker

inductive Event where
  -- `SELECT ... FOR UPDATE`, and whether the reservation goes on
  | look (w : Worker) (spaceId cadence periodKey : String) (now : Time) (open_ : Bool)
  -- the insert or update with its commit; the unique constraint may refuse the insert
  | write (w : Worker) (p : Period) (id : String) (now : Time) (granted : Bool)
  | mark (runId : String) (m : Mark) (now : Time)
  | crash (w : Worker)
  deriving DecidableEq

def World.move (s : World) (w : Worker) (dest : Phase) : World := {s with phase := Function.update s.phase w dest}

def World.setLock (s : World) (p : Period) (holder : Option Worker) : World := {s with lock := Function.update s.lock p holder}

/-- The run that a reservation writes is the run it returns. -/
def World.grant (s : World) (p : Period) (id : String) (now : Time) : World :=
  let runs := s.runs.take p id now now
  {s with runs := {runs with returned := p.reserved id now::runs.returned}}

def next (host : Host) (leaseSeconds : Int) (s : World) : Event → Option World
  | .look w spaceId cadence periodKey now open_ =>
    if s.phase w = .idle ∧ s.runs.clock ≤ now then
      let p : Period := (spaceId,normalCadence host cadence,periodKey)
      let s := {s with runs := {s.runs with clock := now}}
      match s.runs.rows.find? p with
      | none => if open_ then some (s.move w (.adding p)) else none
      | some r =>
        -- a locked row is waited for
        if s.lock p ≠ none then none
        else match r.closed leaseSeconds now,open_ with
          | true,false => some s
          | false,true => some ((s.move w (.taking p)).setLock p (some w))
          | _,_ => none
    else none
  | .write w p id now granted =>
    if s.runs.clock ≤ now ∧ id ∉ s.runs.drawn then
      match s.phase w,granted with
      | .taking q,true => if q = p then some (((s.grant p id now).move w .idle).setLock p none) else none
      | .adding q,true => if q = p ∧ s.runs.rows.find? p = none then some ((s.grant p id now).move w .idle) else none
      -- the constraint is violated and the transaction rolled back
      | .adding q,false => if q = p ∧ s.runs.rows.find? p ≠ none then some (s.move w .idle) else none
      | _,_ => none
    else none
  | .mark runId m now =>
    if s.runs.clock ≤ now ∧ (s.runs.rows.rows.find? (·.id = runId)).all (fun r => s.lock r.period = none) then
      some {s with runs := s.runs.mark runId m now}
    else none
  | .crash w =>
    match s.phase w with
    | .taking p => some ((s.move w .idle).setLock p none)
    | _ => some (s.move w .idle)

end Suixinji.Consolidation
