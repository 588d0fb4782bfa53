import Suixinji.Ask.Validate
import Suixinji.Ask.Evidence
import Mathlib.Data.Finset.Card
import Mathlib.Data.Finset.Insert

/-! The execution of a plan (agent/ask_executor.py): rounds of the units whose
parents are done, each in a future of its own, within one deadline. -/
namespace Suixinji.Ask

/-- What the tool of a unit comes to. -/
inductive Outcome where
  | returned (tool : Tool) (records : List Record)
  | raised (kind text : String)

/-- The futures that `as_completed` yields before the deadline, in that order, and those
the sweep after it still finds done. A future is told by the place of its unit. -/
structure Timing where
  yielded : List Nat
  swept : List Nat
  distinct : yielded.Nodup

def Timing.done (timing : Timing) (place : Nat) : Prop := place ∈ timing.yielded ∨ place ∈ timing.swept

instance (timing : Timing) (place : Nat) : Decidable (timing.done place) := inferInstanceAs (Decidable (_ ∨ _))

structure Start where
  unit : QueryUnit
  answered : List String

/-- `AskExecutionResult` and the ids completed, with the tools started so far. -/
structure Progress where
  bundles : List UnitEvidenceBundle := []
  recordsByUnit : String → Option (List Record) := fun _ => none
  executedTools : List Tool := []
  unitErrors : String → Option String := fun _ => none
  timedOutUnits : List String := []
  completed : Finset String := ∅
  started : List Start := []

/-- A unit with its place in the plan. -/
abbrev Future := QueryUnit × Nat

instance lawfulFuture : LawfulBEq Future := inferInstance

def Outcome.result : Outcome → Tool × List Record
  | .returned tool records => (tool,records)
  | .raised _ _ => (.domainError,[])

def Outcome.error : Outcome → Option String
  | .returned _ _ => none
  | .raised kind text => some (kind ++ ": " ++ Text.slice 180 text)

/-- `_ready_units`. -/
def readyUnits (plan : AskPlan) (completed : Finset String) : List Future :=
  plan.units.zipIdx.filter (fun f => f.1.id ∉ completed ∧ ∀ parent ∈ f.1.dependsOn, parent ∈ completed)

section Round

variable (lib : Library) (tools : Nat → Outcome) (timing : Timing)

def consume (f : Future) (s : Progress) : Except ValidationError Progress := do
  let (tool,records) := (tools f.2).result
  let bundle ← lib.resolve f.1 tool records
  pure { s with
    unitErrors := match (tools f.2).error with
      | none => s.unitErrors
      | some text => Function.update s.unitErrors f.1.id (some text)
    executedTools := s.executedTools ++ [tool]
    recordsByUnit := Function.update s.recordsByUnit f.1.id (some records)
    bundles := s.bundles ++ [bundle]
    completed := insert f.1.id s.completed }

/-- What the sweep does with a future that is not done. -/
def timeOut (f : Future) (s : Progress) : Progress :=
  { s with
    unitErrors := Function.update s.unitErrors f.1.id (some "executor_timeout")
    timedOutUnits := s.timedOutUnits ++ [f.1.id]
    recordsByUnit := Function.update s.recordsByUnit f.1.id (some [])
    executedTools := s.executedTools ++ [.executorTimeout]
    bundles := s.bundles ++ [emptyBundle f.1 .partly .executorTimeout]
    completed := insert f.1.id s.completed }

/-- The loop over what `as_completed` yields: the futures consumed, and what ended it early. -/
def consumeYielded : List Future → Progress → List Future × Progress × Option ValidationError
  | [],s => ([],s,none)
  | f::rest,s =>
    match consume lib tools f s with
    | .error e => ([],s,some e)
    | .ok s =>
      let (consumed,s,raised) := consumeYielded rest s
      (f::consumed,s,raised)

def settle (f : Future) (s : Progress) : Except ValidationError Progress :=
  if timing.done f.2 then consume lib tools f s else .ok (timeOut f s)

/-- The `finally` part, for what was not consumed. -/
def sweep : List Future → Progress → Except ValidationError Progress
  | [],s => .ok s
  | f::rest,s => do
    let s ← settle lib tools timing f s
    sweep rest s

def start (ready : List Future) (s : Progress) : Progress :=
  { s with started := s.started ++ ready.map (fun f => ⟨f.1,s.bundles.map (·.unitId)⟩) }

/-- The order in which a round's futures are yielded. -/
def yieldedOf (ready : List Future) : List Future := timing.yielded.filterMap (fun place => ready.find? (fun f => f.2 = place))

def runRound (ready : List Future) (s : Progress) : Except ValidationError Progress := do
  let (consumed,s,raised) := consumeYielded lib tools (yieldedOf timing ready) (start ready s)
  let s ← sweep lib tools timing (ready.filter (· ∉ consumed)) s
  match raised with
  | none => pure s
  | some e => .error e

end Round

/-- The units no round can take. -/
def leaveUnresolved : List QueryUnit → Progress → Progress
  | [],s => s
  | unit::rest,s =>
    if unit.id ∈ s.completed then leaveUnresolved rest s
    else
      leaveUnresolved rest { s with
        bundles := s.bundles ++ [emptyBundle unit .partly .unresolvedDependency]
        completed := insert unit.id s.completed }

/-- The `while` loop. Every round completes a unit, so there are no more rounds than units. -/
def rounds (lib : Library) (plan : AskPlan) (tools : Nat → Outcome) (timing : Timing) : Nat → Progress → Except ValidationError Progress
  | 0,s => .ok s
  | n+1,s =>
    if s.completed.card < plan.units.length then
      if readyUnits plan s.completed = [] then .ok (leaveUnresolved plan.units s)
      else do
        let s ← runRound lib tools timing (readyUnits plan s.completed) s
        rounds lib plan tools timing n s
    else .ok s

/-- `order.get(unit_id, 999)`: of units with one id, the place of the last. -/
def placeOf (plan : AskPlan) (id : String) : Nat :=
  ((plan.units.zipIdx.reverse.find? (fun f => f.1.id = id)).map (·.2)).getD 999

def sortBundles (plan : AskPlan) (bundles : List UnitEvidenceBundle) : List UnitEvidenceBundle :=
  Ranking.sortBy (fun bundle => placeOf plan bundle.unitId) bundles

/-- `execute_ask_plan`. -/
def executeAskPlan (lib : Library) (plan : AskPlan) (tools : Nat → Outcome) (timing : Timing) : Except ValidationError Progress := do
  let s ← rounds lib plan tools timing plan.units.length {}
  pure { s with bundles := sortBundles plan s.bundles }

def ownBundle (lib : Library) (tools : Nat → Outcome) (timing : Timing) (f : Future) : Except ValidationError UnitEvidenceBundle :=
  if timing.done f.2 then lib.resolve f.1 (tools f.2).result.1 (tools f.2).result.2
  else .ok (emptyBundle f.1 .partly .executorTimeout)

/-- Plan execution as it should be: the bundles are the units' own, one for each and in
their order, and no tool was started before the units it waits for had theirs. -/
structure Complete (lib : Library) (plan : AskPlan) (tools : Nat → Outcome) (timing : Timing) (result : Progress) : Prop where
  bundles : plan.units.zipIdx.map (ownBundle lib tools timing) = result.bundles.map .ok
  started : ∀ s ∈ result.started, ∀ parent ∈ s.unit.dependsOn, parent ∈ s.answered

end Suixinji.Ask
