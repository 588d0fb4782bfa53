import Suixinji.Local.Wal
import Suixinji.Relational.Transition

/-! The threads that work on the log of a space (core/worker.py), and its file, of
which a write is a series of partial writes. Whoever reads or writes the file holds
the lock of the space for the whole of the call. -/
namespace Suixinji.Local
open Suixinji.Transition

/-- What a handler appends. -/
inductive Incoming where
  | pending (a : Arrival) (text : String)
  | blocked (a : Arrival) (category : String)

def Incoming.record : Incoming → WalRecord
  | .pending a text => createPendingRecord a text
  | .blocked a category => createBlockedSensitiveRecord a category

/-- A call that has the file open for writing: what the file held before, what is
still to be written, the record that is being appended, the thread that waits. -/
structure Writer where
  before : List Char
  rest : List Char
  accepts : Option WalRecord := none
  thread : Option Nat := none

/-- Where `process_record` stands. -/
inductive Stage where
  | assess
  | look
  | save
  | mark
  | block (category : String)
  deriving DecidableEq

structure Job where
  record : WalRecord
  deferWalCompletion : Bool := false
  stage : Stage := .assess
  deriving DecidableEq

/-- `process_pending` with the records it has yet to come to, or one `process_record`. -/
structure Thread where
  batch : List WalRecord := []
  seen : List String := []
  job : Option Job := none
  deriving DecidableEq

/-- The file of a space, the message ids of its saved notes, and what has been done:
the records whose `append_message_once` returned True, the ids that were blocked. -/
structure World where
  file : List Char := []
  writer : Option Writer := none
  notes : List String := []
  threads : List Thread := []
  accepted : List WalRecord := []
  blocked : List String := []

inductive Event where
  | append (m : Incoming)
  | put (n : Nat)
  | close
  | pending
  | process (r : WalRecord) (deferWalCompletion : Bool)
  | take (i : Nat)
  | assess (i : Nat)
  | look (i : Nat)
  | save (i : Nat)
  | mark (i : Nat)
  | block (i : Nat)
  | fail (i : Nat)
  | crash

def World.setJob (w : World) (i : Nat) (t : Thread) (job : Option Job) : World := {w with threads := w.threads.set i {t with job}}

/-- The file as the holder of the lock reads it. -/
def World.load (w : World) : Option (List WalRecord) := if w.writer.isSome then none else loadRecords w.file

/-- `path.open("w")` on what was loaded. -/
def World.rewrite (w : World) (i : Nat) (records : List WalRecord) : World :=
  {w with file := [],writer := some {before := w.file,rest := render records,thread := some i}}

/-- A call has returned: the message is accepted, the record is dealt with. -/
def World.close (w : World) (q : Writer) : World :=
  {w with
    writer := none
    accepted := w.accepted ++ q.accepts.toList
    threads := w.threads.mapIdx (fun i t => if q.thread = some i then {t with job := none} else t)}

/-- `assess text` is the category when the text must not be stored. -/
def next (assess : String → Option String) (w : World) : Event → Option World
  | .append m => do
    let records ← w.load
    -- `uuid4` does not repeat
    if records.any (fun r => r.id = m.record.id) then none
    else if messageExists records m.record.messageId then some w
    else some {w with writer := some {before := w.file,rest := line m.record,accepts := some m.record}}
  | .put n => do
    let q ← w.writer
    some {w with file := w.file ++ q.rest.take n,writer := some {q with rest := q.rest.drop n}}
  | .close => do
    let q ← w.writer
    if q.rest = [] then some (w.close q) else none
  | .pending => do
    let records ← w.load
    some {w with threads := w.threads ++ [{batch := records.filter (fun r => r.status = .pending)}]}
  | .process r deferWalCompletion =>
    if r ∈ w.accepted then some {w with threads := w.threads ++ [{job := some {record := r,deferWalCompletion}}]} else none
  | .take i => do
    let t ← w.threads[i]?
    match t.job,t.batch with
    | none,r::batch =>
      if r.messageId ∈ t.seen then some {w with threads := w.threads.set i {t with batch,job := some {record := r,stage := .mark}}}
      else
        let seen := if r.messageId = "" then t.seen else t.seen ++ [r.messageId]
        some {w with threads := w.threads.set i {batch,seen,job := some {record := r}}}
    | _,_ => none
  | .assess i => do
    let t ← w.threads[i]?
    let job ← t.job
    if job.stage = .assess then
      some (w.setJob i t (some {job with stage := ((assess job.record.text).map Stage.block).getD .look}))
    else none
  | .look i => do
    let t ← w.threads[i]?
    let job ← t.job
    if job.stage = .look ∧ w.writer.isNone then
      if job.record.messageId ∈ w.notes then
        some (w.setJob i t (if job.deferWalCompletion then none else some {job with stage := .mark}))
      else some (w.setJob i t (some {job with stage := .save}))
    else none
  | .save i => do
    let t ← w.threads[i]?
    let job ← t.job
    if job.stage = .save ∧ w.writer.isNone then
      let notes := if job.record.messageId ∈ w.notes then w.notes else w.notes ++ [job.record.messageId]
      some {w.setJob i t (if job.deferWalCompletion then none else some {job with stage := .mark}) with notes}
    else none
  | .mark i => do
    let t ← w.threads[i]?
    let job ← t.job
    let records ← w.load
    if job.stage = .mark then some (w.rewrite i (processed job.record.id records)) else none
  | .block i => do
    let t ← w.threads[i]?
    let job ← t.job
    let records ← w.load
    match job.stage with
    | .block category =>
      some {w.rewrite i (sensitiveBlocked job.record.id category job.deferWalCompletion records) with
        blocked := w.blocked ++ [job.record.id]}
    | _ => none
  -- an exception that `process_pending` or the executor catches
  | .fail i => do
    let t ← w.threads[i]?
    if w.writer.any (fun q => q.thread = some i) then none else some (w.setJob i t none)
  | .crash => some {w with writer := none,threads := []}

def Step (assess : String → Option String) (w : World) (e : Event) (w' : World) : Prop := next assess w e = some w'

/-- Whoever gets the lock loads the log, finds each accepted message in it, with its
text unless that was blocked, and finds a note for each record that is processed. -/
def Durable (w : World) : Prop :=
  w.writer = none → ∃ records, loadRecords w.file = some records ∧
    (∀ r ∈ w.accepted, ∃ q ∈ records, q.messageId = r.messageId ∧ (q.text = r.text ∨ q.id ∈ w.blocked)) ∧
    ∀ q ∈ records, q.status = .processed → q.messageId ∈ w.notes

def Calm (w : World) : Event → Prop
  | .crash => ∀ q, w.writer = some q → q.rest = [] ∨ w.file = q.before
  | _ => True

end Suixinji.Local
