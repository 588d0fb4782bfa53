import Mathlib.Data.List.Sort
import Suixinji.Local.Files
import Suixinji.Relational.Table
import Suixinji.Relational.Window

/-! The drainer of the pending records (runtime/pending_drainer.py), by the executor's answers to it (runtime/executor.py). -/
namespace Suixinji.Local

/-- What the executor looks at when an ingest is submitted. -/
structure Executor where
  freeSlots : Nat
  inflightIngestKeys : List (String × String)
  isShutdown : Bool := false
  deriving DecidableEq

/-- Why a task is rejected. -/
inductive Refusal where
  | alreadyInFlight
  | shuttingDown
  | queueFull
  deriving DecidableEq

namespace Executor

def hasInflightIngest (x : Executor) (spaceId messageId : String) : Bool := x.inflightIngestKeys.contains (spaceId,messageId)

def InFlight (x : Executor) (r : WalRecord) : Prop := r.messageId ≠ "" ∧ x.hasInflightIngest r.spaceId r.messageId

instance (x : Executor) (r : WalRecord) : Decidable (x.InFlight r) := inferInstanceAs (Decidable (_ ∧ _))

/-- `submit_ingest`; a key that is reserved for a task that is rejected is released. -/
def submitIngest (x : Executor) (r : WalRecord) : Except Refusal Executor :=
  if x.InFlight r then .error .alreadyInFlight
  else if x.isShutdown then .error .shuttingDown
  else if x.freeSlots = 0 then .error .queueFull
  else .ok { x with
    freeSlots := x.freeSlots - 1
    inflightIngestKeys := if r.messageId = "" then x.inflightIngestKeys else (r.spaceId,r.messageId)::x.inflightIngestKeys }

end Executor

/-- `path.stem`; the name of a log without a stem is all suffix. -/
def stem (base : String) : String := if base = "" then ".jsonl" else base

/-- The logs by their file names, without the suffix. -/
abbrev Logs := List (String × List WalRecord)

def listWalSpaceIds (logs : Logs) : List String := (logs.map (fun log => stem log.1)).insertionSort (· ≤ ·)

def loadPendingRecords (logs : Logs) (spaceId : String) : List WalRecord :=
  ((logs.find? (fun log => log.1 = safeSpaceId spaceId)).elim [] Prod.snd).filter (fun r => r.status = .pending)

structure Drained where
  executor : Executor
  submitted : List WalRecord := []
  /-- Why the call returned before its end. -/
  refusal : Option Refusal := none
  deriving DecidableEq

/-- A record of a space in the two loops. -/
def Drained.step (d : Drained) (p : String × WalRecord) : Drained :=
  if d.refusal.isSome then d
  else if p.2.messageId ≠ "" ∧ d.executor.hasInflightIngest p.1 p.2.messageId then d
  else match d.executor.submitIngest p.2 with
  | .error refusal => { d with refusal := some refusal }
  | .ok executor => { d with executor,submitted := d.submitted ++ [p.2] }

def pass (logs : Logs) (batchSize : Nat) : List (String × WalRecord) :=
  (listWalSpaceIds logs).flatMap (fun spaceId => ((loadPendingRecords logs spaceId).take batchSize).map (fun r => (spaceId,r)))

def drainOnce (logs : Logs) (batchSize : Nat) (x : Executor) : Drained := (pass logs batchSize).foldl Drained.step {executor := x}

/-- When the turn of a record comes it is in flight, or it is submitted, or the executor refused one for want of room. -/
def Drained.Served (d : Drained) (p : String × WalRecord) : Prop :=
  d.executor.InFlight p.2 ∨ (d.step p).submitted = d.submitted ++ [p.2] ∨
    (d.step p).refusal = some .queueFull ∨ (d.step p).refusal = some .shuttingDown

def Drains (start : Drained) (records : List (String × WalRecord)) : Prop :=
  ∀ before p after, records = before ++ p::after → (before.foldl Drained.step start).Served p ∧
    ((before.foldl Drained.step start).executor.InFlight p.2 →
      ((before.foldl Drained.step start).step p).submitted = (before.foldl Drained.step start).submitted)

def Executor.taking (x : Executor) : List (String × WalRecord) → Option Executor
  | [] => some x
  | p::rest =>
    if x.InFlight p.2 then x.taking rest
    else match x.submitIngest p.2 with
    | .error _ => none
    | .ok x' => x'.taking rest

/-- A record that is in flight is so under the name of its log too, or nothing but records in flight follows; and one that is not in
flight is not in flight under the name of its log. -/
def Executor.Named (x : Executor) (p : String × WalRecord) (after : List (String × WalRecord)) : Prop :=
  (x.InFlight p.2 → x.hasInflightIngest p.1 p.2.messageId ∨ ∀ q ∈ after, x.InFlight q.2) ∧
    (¬x.InFlight p.2 → ¬(p.2.messageId ≠ "" ∧ x.hasInflightIngest p.1 p.2.messageId))

/-- The records are named so as far as the room reaches. -/
def Named (x : Executor) (records : List (String × WalRecord)) : Prop :=
  ∀ before p after, records = before ++ p::after → ∀ x', x.taking before = some x' → x'.Named p after

/-- The first records of the logs whose name is not the one the name of their space gives them. -/
def unread (logs : Logs) (batchSize : Nat) : List WalRecord :=
  (logs.filter (fun log => safeSpaceId (stem log.1) ≠ log.1)).flatMap (fun log => (log.2.filter (fun r => r.status = .pending)).take batchSize)

def Drained.Reaches (d : Drained) (r : WalRecord) : Prop :=
  d.executor.InFlight r ∨ d.refusal = some .queueFull ∨ d.refusal = some .shuttingDown

section Turns

variable {x x' : Executor} {d : Drained} {p : String × WalRecord} {rest records : List (String × WalRecord)}

theorem drains_cons : Drains d (p::rest) ↔
    (d.Served p ∧ (d.executor.InFlight p.2 → (d.step p).submitted = d.submitted)) ∧ Drains (d.step p) rest := Window.splits_cons

theorem step_refused (refused : d.refusal.isSome) : d.step p = d := if_pos refused

theorem submitIngest_inFlight {r : WalRecord} (there : x.InFlight r) : x.submitIngest r = .error .alreadyInFlight := if_pos there

theorem drains_refused (refused : d.refusal.isSome) :
    Drains d records ↔ d.refusal ≠ some .alreadyInFlight ∨ ∀ q ∈ records, d.executor.InFlight q.2 := by
  induction records with
  | nil => exact ⟨fun _ => .inr (fun _ member => absurd member List.not_mem_nil),fun _ before p after split => absurd split (by simp)⟩
  | cons p rest ih =>
    have served : d.Served p ↔ d.executor.InFlight p.2 ∨ d.refusal ≠ some .alreadyInFlight := by
      unfold Drained.Served
      rw [step_refused refused]
      obtain ⟨reason,same⟩ := Option.isSome_iff_exists.mp refused
      rw [same]
      cases reason <;> simp
    rw [drains_cons,step_refused refused,ih,served]
    constructor
    · rintro ⟨⟨here,_⟩,later⟩
      by_cases other : d.refusal = some .alreadyInFlight
      · have inside := here.resolve_right (not_not.mpr other)
        have others := later.resolve_left (not_not.mpr other)
        refine .inr (fun q member => ?_)
        rcases List.mem_cons.mp member with rfl | tail
        · exact inside
        · exact others q tail
      · exact .inl other
    · rintro (other | all)
      · exact ⟨⟨.inr other,fun _ => rfl⟩,.inl other⟩
      · exact ⟨⟨.inl (all p List.mem_cons_self),fun _ => rfl⟩,.inr (fun q member => all q (List.mem_cons_of_mem _ member))⟩

theorem taking_cons : x.taking (p::rest) = (x.taking [p]).bind (fun y => y.taking rest) := by
  simp only [Executor.taking]
  split
  · rfl
  · cases x.submitIngest p.2 <;> rfl

theorem named_cons : Named x (p::rest) ↔ x.Named p rest ∧ ∀ y, x.taking [p] = some y → Named y rest := by
  have turns : Named x (p::rest) ↔ (∀ x', x.taking [] = some x' → x'.Named p rest) ∧
      ∀ before q after, rest = before ++ q::after → ∀ x', x.taking (p::before) = some x' → x'.Named q after := Window.splits_cons
  rw [turns]
  refine and_congr ⟨fun first => first x rfl,fun first x' same => Option.some.inj same ▸ first⟩ ⟨fun later y taken => ?_,fun later => ?_⟩
  · intro before q after split x' reached
    refine later before q after split x' ?_
    rw [taking_cons,taken]
    exact reached
  · intro before q after split x' reached
    rw [taking_cons] at reached
    obtain ⟨y,taken,onward⟩ := Option.bind_eq_some_iff.mp reached
    exact later y taken before q after split x' onward

theorem taking_inFlight (all : ∀ q ∈ records, x.InFlight q.2) : x.taking records = some x := by
  induction records with
  | nil => rfl
  | cons q rest ih =>
    rw [Executor.taking,if_pos (all q List.mem_cons_self)]
    exact ih (fun q' member => all q' (List.mem_cons_of_mem _ member))

theorem named_inFlight (all : ∀ q ∈ records, x.InFlight q.2) : Named x records := by
  rintro before p after rfl x' taken
  rw [taking_inFlight (fun q member => all q (List.mem_append_left _ member))] at taken
  obtain rfl := Option.some.inj taken
  have inside (q : String × WalRecord) (member : q ∈ p::after) : x.InFlight q.2 := all q (List.mem_append_right _ member)
  exact ⟨fun _ => .inr (fun q member => inside q (List.mem_cons_of_mem _ member)),fun absent => absurd (inside p List.mem_cons_self) absent⟩

/-- What the loop does with a record: it goes past it, or it returns, or it has submitted it. -/
theorem step_cases (idle : d.refusal = none) :
    ((p.2.messageId ≠ "" ∧ d.executor.hasInflightIngest p.1 p.2.messageId) ∧ d.step p = d) ∨
    (¬(p.2.messageId ≠ "" ∧ d.executor.hasInflightIngest p.1 p.2.messageId) ∧
      ((d.executor.InFlight p.2 ∧ d.step p = { d with refusal := some .alreadyInFlight }) ∨
      (¬d.executor.InFlight p.2 ∧ d.executor.taking [p] = none ∧
        ∃ refusal, refusal ≠ .alreadyInFlight ∧ d.step p = { d with refusal := some refusal }) ∨
      (¬d.executor.InFlight p.2 ∧ ∃ executor, d.executor.taking [p] = some executor ∧
        d.step p = { d with executor,submitted := d.submitted ++ [p.2] }))) := by
  have going : d.refusal.isSome = false := by rw [idle]; rfl
  by_cases past : p.2.messageId ≠ "" ∧ d.executor.hasInflightIngest p.1 p.2.messageId
  · exact .inl ⟨past,by rw [Drained.step,if_neg (by simp [going]),if_pos past]⟩
  · refine .inr ⟨past,?_⟩
    simp only [Drained.step,going,Bool.false_eq_true,if_false,if_neg past,Executor.taking]
    by_cases there : d.executor.InFlight p.2
    · exact .inl ⟨there,by rw [submitIngest_inFlight there]⟩
    · refine .inr ?_
      simp only [if_neg there,Executor.submitIngest]
      by_cases down : d.executor.isShutdown
      · exact .inl ⟨there,by rw [if_pos down],.shuttingDown,by decide,by rw [if_pos down]⟩
      · by_cases full : d.executor.freeSlots = 0
        · exact .inl ⟨there,by rw [if_neg down,if_pos full],.queueFull,by decide,by rw [if_neg down,if_pos full]⟩
        · exact .inr ⟨there,_,by rw [if_neg down,if_neg full],by rw [if_neg down,if_neg full]⟩

theorem drains_iff_named (idle : d.refusal = none) : Drains d records ↔ Named d.executor records := by
  induction records generalizing d with
  | nil => exact ⟨fun _ before p after split => absurd split (by simp),fun _ before p after split => absurd split (by simp)⟩
  | cons p rest ih =>
    rw [drains_cons,named_cons]
    obtain ⟨past,same⟩ | ⟨ahead,⟨there,same⟩ | ⟨absent,full,reason,other,same⟩ | ⟨absent,y,taken,same⟩⟩ := step_cases (p := p) idle
    · rw [same]
      by_cases there : d.executor.InFlight p.2
      · have taken : d.executor.taking [p] = some d.executor := taking_inFlight (by simpa using there)
        simp only [Drained.Served,Executor.Named,taken,there,past,Option.some.injEq,ih idle,forall_eq']
        simp
      · have unserved : ¬d.Served p := by
          rintro (there' | grown | full | down)
          · exact there there'
          · rw [same] at grown
            simp at grown
          · simp [same,idle] at full
          · simp [same,idle] at down
        exact ⟨fun both => absurd both.1.1 unserved,fun both => absurd past (both.1.2 there)⟩
    · have taken : d.executor.taking [p] = some d.executor := taking_inFlight (by simpa using there)
      rw [same,drains_refused rfl,taken]
      constructor
      · rintro ⟨_,later⟩
        have all : ∀ q ∈ rest, d.executor.InFlight q.2 := later.resolve_left (by simp)
        exact ⟨⟨fun _ => .inr all,fun absent => absurd there absent⟩,fun y same' => Option.some.inj same' ▸ named_inFlight all⟩
      · rintro ⟨⟨named,_⟩,_⟩
        have all := (named there).resolve_left (fun found => ahead ⟨there.1,found⟩)
        exact ⟨⟨.inl there,fun _ => rfl⟩,.inr all⟩
    · rw [same,drains_refused rfl,full]
      have served : d.Served p := by
        unfold Drained.Served
        rw [same]
        cases reason <;> simp_all
      exact ⟨fun _ => ⟨⟨fun there => absurd there absent,fun _ => ahead⟩,fun y none => nomatch none⟩,
        fun _ => ⟨⟨served,fun there => absurd there absent⟩,.inl (by simpa using other)⟩⟩
    · have served : d.Served p := .inr (.inl (by rw [same]))
      have later : Drains (d.step p) rest ↔ Named y rest := by
        rw [same]
        exact ih idle
      rw [later,taken]
      exact ⟨fun both => ⟨⟨fun there => absurd there absent,fun _ => ahead⟩,fun y' same' => Option.some.inj same' ▸ both.2⟩,
        fun both => ⟨⟨served,fun there => absurd there absent⟩,both.2 y rfl⟩⟩

theorem foldl_refused (refused : d.refusal.isSome) : records.foldl Drained.step d = d := by
  induction records with
  | nil => rfl
  | cons p rest ih => rw [List.foldl_cons,step_refused refused,ih]

theorem reaches_iff {r : WalRecord} (idle : d.refusal = none) (named : Named d.executor records) :
    (records.foldl Drained.step d).Reaches r ↔ ∀ y, d.executor.taking records = some y → y.InFlight r := by
  induction records generalizing d with
  | nil => simp [Drained.Reaches,Executor.taking,idle]
  | cons p rest ih =>
    obtain ⟨⟨seen,unseen⟩,later⟩ := named_cons.mp named
    rw [List.foldl_cons,taking_cons]
    obtain ⟨past,same⟩ | ⟨ahead,⟨there,same⟩ | ⟨absent,full,reason,other,same⟩ | ⟨absent,y,taken,same⟩⟩ := step_cases (p := p) idle
    · have there : d.executor.InFlight p.2 := by
        by_contra absent
        exact unseen absent past
      have taken : d.executor.taking [p] = some d.executor := taking_inFlight (by simpa using there)
      rw [same,taken]
      exact ih idle (later _ taken)
    · have taken : d.executor.taking [p] = some d.executor := taking_inFlight (by simpa using there)
      have all := (seen there).resolve_left (fun found => ahead ⟨there.1,found⟩)
      rw [same,taken,foldl_refused rfl,Option.bind_some,taking_inFlight all]
      simp [Drained.Reaches]
    · rw [same,full,foldl_refused rfl]
      cases reason <;> simp_all [Drained.Reaches]
    · rw [same,taken]
      exact ih idle (later y taken)

end Turns

theorem mem_pass_or_unread {logs : Logs} {batchSize : Nat} {log : String × List WalRecord} {r : WalRecord}
    (names : (logs.map Prod.fst).Nodup) (there : log ∈ logs)
    (first : r ∈ (log.2.filter (fun r => r.status = .pending)).take batchSize) :
    (stem log.1,r) ∈ pass logs batchSize ∨ r ∈ unread logs batchSize := by
  by_cases same : safeSpaceId (stem log.1) = log.1
  · refine .inl (List.mem_flatMap.mpr ⟨stem log.1,?_,List.mem_map.mpr ⟨r,?_,rfl⟩⟩)
    · exact (List.mem_insertionSort _).mpr (List.mem_map.mpr ⟨log,there,rfl⟩)
    · have found : logs.find? (fun other => other.1 = safeSpaceId (stem log.1)) = some log := by
        rw [same]
        exact Relational.Table.find?_of_distinct names there
      rw [loadPendingRecords,found]
      exact first
  · exact .inr (List.mem_flatMap.mpr ⟨log,List.mem_filter.mpr ⟨there,by simpa using same⟩,first⟩)

/-- A call serves the first pending records of every space, and submits none in flight, exactly where the records are named as their
logs are and, as far as the room reaches, no record of a log that is not read is left. -/
theorem drains_iff (logs : Logs) (batchSize : Nat) (x : Executor) :
    (Drains {executor := x} (pass logs batchSize) ∧ ∀ r ∈ unread logs batchSize, (drainOnce logs batchSize x).Reaches r) ↔
      Named x (pass logs batchSize) ∧
        ∀ r ∈ unread logs batchSize, ∀ y, x.taking (pass logs batchSize) = some y → y.InFlight r := by
  rw [drains_iff_named (d := {executor := x}) rfl]
  exact and_congr_right (fun named => forall₂_congr (fun r _ => reaches_iff (d := {executor := x}) rfl named))

/-- The first message of a space is in flight, under the id of the space and not the name of its log; the second is not submitted. -/
theorem second_blocked :
    let message (id : String) : WalRecord :=
      { id,source := "feishu",eventId := none,messageId := id,spaceId := "p_ou:1",chatId := none,chatType := "p2p",sender := [],
        ts := "2025-01-01T00:00:00",text := "" }
    let logs : Logs := [("p_ou_1",[message "m1",message "m2"])]
    let x : Executor := {freeSlots := 8,inflightIngestKeys := [("p_ou:1","m1")]}
    drainOnce logs 20 x = {executor := x,refusal := some .alreadyInFlight} ∧ ¬x.InFlight (message "m2") ∧
      ¬Drains {executor := x} (pass logs 20) := by
  intro message logs x
  refine ⟨by decide +kernel,by decide +kernel,fun drained => ?_⟩
  have split : pass logs 20 = [("p_ou_1",message "m1")] ++ ("p_ou_1",message "m2")::[] := by decide +kernel
  have unserved : ¬(([("p_ou_1",message "m1")].foldl Drained.step {executor := x}).Served ("p_ou_1",message "m2")) := by
    unfold Drained.Served
    decide +kernel
  exact unserved (drained _ _ _ split).1

end Suixinji.Local
