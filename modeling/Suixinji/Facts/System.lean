import Suixinji.Relational.Transition
import Suixinji.Facts.Plan
import Suixinji.Facts.Review

/-! Fact memory as a system: the transactions that commit, and the calls that
spread over several of them (`ingest_candidate`, `consolidate`). -/
namespace Suixinji.Facts
open Relational Checked Transition

inductive Command where
  | ingest (new : NewFact)
  | sync (noteId text : String)
  | review (ident : CardId) (decision : Option Decision) (content : Option String) (expectedVersion : Nat)
  | answer (ident : QuestionId) (answer : String)
  | attach (ident : QuestionId) (sources : List FactId) (stored : FactId)
  | request (id query : String) (candidates : List Preview)
  | approve (requestId : String) (selected : List EntityId)
  deriving DecidableEq

def execute (lib : Library) (s : Store) : Command → Except String Store
  | .ingest new => do return (← ingestFact lib new s).1
  | .sync noteId text => .ok (syncSource s noteId text).1
  | .review ident decision content expected => reviewMemory lib ident decision content expected s
  | .answer ident text => do return (← answerQuestion lib ident text s).1
  | .attach ident sources stored => attachAnswer ident sources stored s
  | .request id query candidates => requestForget lib id query candidates s
  | .approve requestId selected => approveForget requestId selected s

/-- A transaction of any writer: a command, a plan on any snapshot, or the lease. -/
inductive Transaction where
  | command (c : Command)
  | apply (call : PlanCall) (actions : List Action)
  | lease (row : Option Lease)

def commit (lib : Library) (s : Store) : Transaction → Except String Store
  | .command c => execute lib s c
  | .apply call actions => applyPlan lib call actions s
  | .lease row => .ok { s with lease := row }

/-- The transactions that commit; one that fails is rolled back. -/
def Commits (lib : Library) (s : Store) (t : Transaction) (s' : Store) : Prop := commit lib s t = .ok s'

def takeSnapshot (s : Store) : Snapshot where
  facts := s.facts.filter Fact.active
  memories := s.cards.filter Card.active

/-- The first transaction of `consolidate`, when no other run holds the lease. -/
def claimLease (runId : String) (now untilTime : Time) (s : Store) : Except String Store := do
  require (∀ l ∈ s.lease, l.until ≤ now) "busy"
  return { s with lease := some ⟨runId,untilTime⟩ }

/-- The last transaction of `consolidate`. -/
def releaseLease (runId : String) (now : Time) (s : Store) : Store :=
  if s.lease.any (·.runId = runId) then { s with lease := some ⟨runId,now⟩ } else s

/-- `consolidate` between its transactions: its snapshot once taken, its plan once applied. -/
structure Consolidation where
  runId : String
  snapshot : Option Snapshot := none
  applied : Bool := false

structure World where
  store : Store
  runs : Table Consolidation.runId
  /-- The rows that calls of `ingest_candidate` are about to write back. -/
  copies : List Fact

inductive Event where
  | command (c : Command)
  | begin (runId : String) (now untilTime : Time)
  | snapshot (runId : String)
  | apply (runId : String) (batchIds : List FactId) (actions : List Action) (now : Time)
  | finish (runId : String) (now : Time)
  | candidate (new : NewFact) (reference : Reference)
  | writeBack (copy : Fact)

/-- A run id is new (`uuid4`), and a run applies one plan. -/
def next (lib : Library) (w : World) : Event → Except String World
  | .command c => do return { w with store := ← execute lib w.store c }
  | .begin runId now untilTime => do
    let runs ← demand (w.runs.insert { runId }) "run id already drawn"
    return { w with store := ← claimLease runId now untilTime w.store, runs }
  | .snapshot runId => do
    let run ← demand (w.runs.find? runId) "no such run"
    require run.snapshot.isNone "snapshot already taken"
    return { w with runs := w.runs.put { run with snapshot := some (takeSnapshot w.store) } }
  | .apply runId batchIds actions now => do
    let run ← demand (w.runs.find? runId) "no such run"
    require (run.applied = false) "plan already applied"
    let snapshot ← demand run.snapshot "no snapshot"
    let store ← applyPlan lib ⟨snapshot,runId,batchIds,now⟩ actions w.store
    return { w with store, runs := w.runs.put { run with applied := true } }
  | .finish runId now => .ok { w with store := releaseLease runId now w.store }
  | .candidate new reference => do
    let (store,fact) ← ingestFact lib new w.store
    return { w with store, copies := (withReference fact reference).toList ++ w.copies }
  | .writeBack copy => do
    require (copy ∈ w.copies) "no such copy"
    return { w with store := w.store.putFact copy, copies := w.copies.erase copy }

def Step (lib : Library) (w : World) (e : Event) (w' : World) : Prop := next lib w e = .ok w'

def start : World := ⟨.empty,.empty,[]⟩

/-- The world after events that all go through; unchanged if one does not. -/
def World.after (lib : Library) (w : World) (es : List Event) : World := (es.foldlM (next lib) w).toOption.getD w

theorem run_after (lib : Library) (w : World) (es : List Event) (passes : (es.foldlM (next lib) w).toOption.isSome) :
    Run (Step lib) w es (w.after lib es) := by
  unfold World.after
  cases computed : es.foldlM (next lib) w with
  | error e =>
    rw [computed] at passes
    cases passes
  | ok w' =>
    clear passes
    induction es generalizing w with
    | nil =>
      cases computed
      exact .nil _
    | cons e es ih =>
      rw [List.foldlM_cons] at computed
      obtain ⟨u,head,tail⟩ := bind_ok.mp computed
      exact .cons head (ih u tail)

theorem step_after (lib : Library) (w : World) (e : Event) (passes : (next lib w e).toOption.isSome) :
    Step lib w e (w.after lib [e]) := by
  cases computed : next lib w e with
  | error e => simp [computed,Except.toOption] at passes
  | ok w' =>
    have after : w.after lib [e] = w' := by
      simp [World.after,computed,bind,Except.bind,pure,Except.pure,Except.toOption]
    rw [after]
    exact computed

/-- Every event goes through, and meets a condition before it does. -/
def guardedBy (lib : Library) (ok : World → Event → Prop) [∀ w e, Decidable (ok w e)] (w : World) : List Event → Bool
  | [] => true
  | e::es => ok w e && (next lib w e).toOption.any (fun w' => guardedBy lib ok w' es)

theorem guarded_after {lib : Library} {ok : World → Event → Prop} [∀ w e, Decidable (ok w e)] {w : World}
    (es : List Event) (passes : guardedBy lib ok w es) : Run (Guarded ok (Step lib)) w es (w.after lib es) := by
  suffices whole : ∃ w', es.foldlM (next lib) w = .ok w' ∧ Run (Guarded ok (Step lib)) w es w' by
    obtain ⟨w',computed,run⟩ := whole
    have after : w.after lib es = w' := by simp [World.after,computed,Except.toOption]
    exact after ▸ run
  induction es generalizing w with
  | nil => exact ⟨w,rfl,.nil w⟩
  | cons e es ih =>
    simp only [guardedBy,Bool.and_eq_true,decide_eq_true_eq] at passes
    cases head : next lib w e with
    | error e =>
      rw [head] at passes
      cases passes.2
    | ok u =>
      rw [head] at passes
      obtain ⟨w',computed,run⟩ := ih passes.2
      refine ⟨w',?_,.cons ⟨passes.1,head⟩ run⟩
      rw [List.foldlM_cons,head]
      exact computed

end Suixinji.Facts
