import Suixinji.Summaries.Subscription
import Suixinji.Deliveries.Local
import Mathlib.Data.List.Infix

/-! The automatic summary: ticks of the scheduler, the reconciliation of what was
delivered before, and the executor's tasks. A tick and a task are state machines
whose steps interleave; each access to one of the two files is a step of its own. -/
namespace Suixinji.Summaries.Scheduler
open Suixinji.Relational Suixinji.Transition Suixinji.Summaries Suixinji.Deliveries.Local
open Suixinji.Deliveries (Settings)
open Suixinji.Dispatch (Time)

/-- `now.date().isoformat()` -/
structure Date where
  text : String
  plain : ':' ∉ text.toList
  deriving DecidableEq

/-- `build_time_range` knows no others. -/
def summaryRanges : List String := ["today","yesterday","week","month","half_year","year"]

/-- `int(text)` and `str.casefold`. -/
structure Python where
  int : List Char → Option Int
  casefold : String → String

/-- None when the parts are not numbers. -/
def minutes (py : Python) (value : String) : Option Int :=
  match value.toList.span (· ≠ ':') with
  | (hour,_::minute) => do some ((← py.int hour) * 60 + (← py.int minute))
  | _ => none

def isDue (py : Python) (sub : SummarySubscription) (today : Date) (nowMinutes : Int) : Option Bool :=
  if sub.lastSentDate = some today.text then some false
  else (minutes py sub.time).map (fun due => due ≤ nowMinutes)

def looksUncertainSendError (py : Python) (text : String) : Bool :=
  ["timeout","timed out","connection"].any (fun word => decide (word.toList <:+: (py.casefold text).toList))

/-- Where a tick stands with the subscription at the head of its list. -/
inductive TickPhase where
  | look
  | expire
  | review
  | load
  | save (copy : Subscriptions)
  | due

/-- One call of `run_summary_scheduler_once`, with what it listed at its start. -/
structure Tick where
  today : Date
  nowMinutes : Int
  rest : List SummarySubscription
  phase : TickPhase := .look

def Tick.skip (t : Tick) : Tick := {t with rest := t.rest.tail,phase := .look}

/-- The first read of `reconcile_auto_summary_delivery`. -/
def Tick.look (settings : Settings) (t : Tick) (delivery : Option DeliveryRecord) (now : Time) : Tick :=
  match delivery with
  | none => {t with phase := .due}
  | some d =>
    match d.status with
    | .sent => {t with phase := .review}
    | .unknown => t.skip
    | .reserved => if isReservationExpired d now then {t with phase := .expire} else t.skip
    | .failed => if settings.deliveryMaxAttempts ≤ d.attemptCount then t.skip else {t with phase := .due}

/-- What `send_text` does; an exception comes with `type: text`. -/
inductive Answer where
  | accepted
  | refused
  | raised (error : String)
  deriving DecidableEq

/-- Where a task stands in `_run_summary`. -/
inductive TaskPhase where
  | queued
  | generating
  | delivering
  | reserved
  | sending
  | answered (answer : Answer)
  | marked
  | saving (copy : Subscriptions)
  | finished

/-- The summary lock of the space is held. -/
def TaskPhase.locks : TaskPhase → Bool
  | .queued | .finished => false
  | _ => true

/-- From the reservation to the mark of its outcome. -/
def TaskPhase.holds : TaskPhase → Bool
  | .reserved | .sending | .answered _ => true
  | _ => false

structure SummaryTask where
  spaceId : String
  rangeKey : String
  sentDate : Date
  phase : TaskPhase := .queued

def SummaryTask.key (t : SummaryTask) : String := autoSummaryKey t.spaceId t.rangeKey t.sentDate.text

def Tick.key (t : Tick) (sub : SummarySubscription) : String := autoSummaryKey sub.spaceId sub.rangeKey t.today.text

def Tick.task (t : Tick) (sub : SummarySubscription) : SummaryTask := ⟨sub.spaceId,sub.rangeKey,t.today,.queued⟩

/-- The two files, the ticks and tasks so far, the keys `mark_sent` was called with
and those `send_text` was started for. -/
structure World where
  subs : Subscriptions := .empty
  deliveries : Records := .empty
  ticks : List Tick := []
  tasks : List SummaryTask := []
  marked : List String := []
  sends : List String := []

def World.tick (w : World) (i : Nat) (t : Tick) : World := {w with ticks := w.ticks.set i t}

def World.task (w : World) (j : Nat) (t : SummaryTask) (phase : TaskPhase) : World :=
  {w with tasks := w.tasks.set j {t with phase}}

inductive Event where
  | tick (today : Date) (nowMinutes : Int)
  | look (i : Nat) (now : Time)
  | expire (i : Nat) (now : Time)
  | review (i : Nat)
  | load (i : Nat)
  | save (i : Nat)
  | submit (i : Nat) (accepted : Bool)
  | acquire (j : Nat)
  | generate (j : Nat) (written : Bool)
  | reserve (j : Nat) (now : Time)
  | send (j : Nat)
  | answer (j : Nat) (answer : Answer)
  | mark (j : Nat) (now : Time)
  | onSent (j : Nat)
  | store (j : Nat)
  | recover (now : Time)

def World.at (w : World) (i : Nat) : Option (Tick × SummarySubscription) := do
  let t ← w.ticks[i]?
  let sub ← t.rest.head?
  some (t,sub)

/-- `_deliver` after `send_text`: the outcome is written down, and the lock goes with
the exception unless the text was accepted. -/
def World.answered (py : Python) (w : World) (j : Nat) (t : SummaryTask) (now : Time) : Answer → World
  | .accepted => {w.task j t .marked with deliveries := markSent w.deliveries t.key now,marked := w.marked ++ [t.key]}
  | .refused => {w.task j t .finished with
      deliveries := markFailed w.deliveries t.key "send_text returned False" now}
  | .raised error => {w.task j t .finished with
      deliveries :=
        if looksUncertainSendError py error then markUnknown w.deliveries t.key error now
        else markFailed w.deliveries t.key error now}

def next (py : Python) (settings : Settings) (w : World) : Event → Option World
  | .tick today nowMinutes =>
    some {w with ticks := w.ticks ++ [{today,nowMinutes,rest := w.subs.rows.filter SummarySubscription.enabled}]}
  | .look i now => do
    let (t,sub) ← w.at i
    match t.phase with
    | .look => some (w.tick i (t.look settings (w.deliveries.find? (t.key sub)) now))
    | _ => none
  | .expire i now => do
    let (t,sub) ← w.at i
    match t.phase with
    | .expire => some {w.tick i {t with phase := .due} with
        deliveries := markFailed w.deliveries (t.key sub) "reservation lease expired" now}
    | _ => none
  | .review i => do
    let (t,sub) ← w.at i
    match t.phase with
    | .review =>
      if ((w.subs.find? sub.spaceId).bind SummarySubscription.lastSentDate) = some t.today.text then some (w.tick i t.skip)
      else some (w.tick i {t with phase := .load})
    | _ => none
  | .load i => do
    let (t,sub) ← w.at i
    match t.phase with
    | .load =>
      if (markSummarySent sub.spaceId t.today.text w.subs).isSome then some (w.tick i {t with phase := .save w.subs})
      else some (w.tick i t.skip)
    | _ => none
  | .save i => do
    let (t,sub) ← w.at i
    match t.phase with
    | .save copy => do
      let subs ← markSummarySent sub.spaceId t.today.text copy
      some {w.tick i t.skip with subs}
    | _ => none
  | .submit i accepted => do
    let (t,sub) ← w.at i
    match t.phase with
    | .due =>
      if isDue py sub t.today t.nowMinutes = some true ∧ accepted then
        some {w.tick i t.skip with tasks := w.tasks ++ [t.task sub]}
      else some (w.tick i t.skip)
    | _ => none
  | .acquire j => do
    let t ← w.tasks[j]?
    match t.phase with
    | .queued =>
      if w.tasks.any (fun other => other.spaceId = t.spaceId && other.phase.locks) then none
      else some (w.task j t .generating)
    | _ => none
  | .generate j written => do
    let t ← w.tasks[j]?
    match t.phase with
    | .generating => some (w.task j t (if written ∧ t.rangeKey ∈ summaryRanges then .delivering else .finished))
    | _ => none
  | .reserve j now => do
    let t ← w.tasks[j]?
    match t.phase with
    | .delivering =>
      match reserveDelivery settings w.deliveries t.key "auto_summary" t.spaceId none now with
      | none => some (w.task j t .finished)
      | some deliveries => some {w.task j t .reserved with deliveries}
    | _ => none
  | .send j => do
    let t ← w.tasks[j]?
    match t.phase with
    | .reserved => some {w.task j t .sending with sends := w.sends ++ [t.key]}
    | _ => none
  | .answer j answer => do
    let t ← w.tasks[j]?
    match t.phase with
    | .sending => some (w.task j t (.answered answer))
    | _ => none
  | .mark j now => do
    let t ← w.tasks[j]?
    match t.phase with
    | .answered answer => some (w.answered py j t now answer)
    | _ => none
  | .onSent j => do
    let t ← w.tasks[j]?
    match t.phase with
    | .marked =>
      some (w.task j t (if (markSummarySent t.spaceId t.sentDate.text w.subs).isSome then .saving w.subs else .finished))
    | _ => none
  | .store j => do
    let t ← w.tasks[j]?
    match t.phase with
    | .saving copy => do
      let subs ← markSummarySent t.spaceId t.sentDate.text copy
      some {w.task j t .finished with subs}
    | _ => none
  | .recover now => some {w with deliveries := recoverStaleReservedDeliveries w.deliveries now}

def Step (py : Python) (settings : Settings) (w : World) (e : Event) (w' : World) : Prop := next py settings w e = some w'

end Suixinji.Summaries.Scheduler
