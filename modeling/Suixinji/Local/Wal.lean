import Suixinji.Relational.Json
import Suixinji.Relational.Text

/-! The write-ahead log of the local back end (core/wal.py): one file for each
space, a JSON record on each line. -/
namespace Suixinji.Local
open Suixinji.Json (Value)

inductive WalStatus where
  | pending
  | processed
  | blockedSensitive
  deriving DecidableEq

def WalStatus.text : WalStatus → String
  | .pending => "pending"
  | .processed => "processed"
  | .blockedSensitive => "blocked_sensitive"

def WalStatus.ofText : String → Option WalStatus
  | "pending" => some .pending
  | "processed" => some .processed
  | "blocked_sensitive" => some .blockedSensitive
  | _ => none

structure WalRecord where
  id : String
  source : String
  eventId : Option String
  messageId : String
  spaceId : String
  chatId : Option String
  chatType : String
  sender : List (String × Option String)
  ts : String
  text : String
  status : WalStatus := .pending
  sensitivity : String := "normal"
  deriving DecidableEq

def blockedText : String := "[敏感内容已拦截，原文未保存]"

/-- The arguments of the two `create_..._record`, with the new uuid and the clock. -/
structure Arrival where
  uuid : String
  messageId : String
  spaceId : String
  eventId : Option String := none
  chatId : Option String := none
  chatType : String := "p2p"
  sender : List (String × Option String) := []
  now : String

def createPendingRecord (a : Arrival) (text : String) : WalRecord :=
  {a with id := a.uuid,source := "feishu",ts := a.now,text,status := .pending}

def createBlockedSensitiveRecord (a : Arrival) (category : String) : WalRecord :=
  {a with
    id := a.uuid
    source := "feishu"
    ts := a.now
    text := blockedText
    status := .blockedSensitive
    sensitivity := if category = "" then "sensitive" else category}

def optional : Option String → Value
  | none => .null
  | some s => .text s

def asdict (r : WalRecord) : Value :=
  .object [("id",.text r.id),("source",.text r.source),("event_id",optional r.eventId),("message_id",.text r.messageId),
    ("space_id",.text r.spaceId),("chat_id",optional r.chatId),("chat_type",.text r.chatType),
    ("sender",.object (r.sender.map (fun p => (p.1,optional p.2)))),("ts",.text r.ts),("text",.text r.text),
    ("status",.text r.status.text),("sensitivity",.text r.sensitivity)]

def ofOptional : Value → Option (Option String)
  | .null => some none
  | .text s => some (some s)
  | .object _ => none

def ofField (p : String × Value) : Option (String × Option String) := (ofOptional p.2).map (fun s => (p.1,s))

/-- The record of a dictionary that `asdict` made. -/
def ofDict : Value → Option WalRecord
  | .object [("id",.text id),("source",.text source),("event_id",eventId),("message_id",.text messageId),
      ("space_id",.text spaceId),("chat_id",chatId),("chat_type",.text chatType),("sender",.object sender),("ts",.text ts),
      ("text",.text text),("status",.text status),("sensitivity",.text sensitivity)] => do
    some {
      id, source, messageId, spaceId, chatType, ts, text, sensitivity
      eventId := ← ofOptional eventId
      chatId := ← ofOptional chatId
      sender := ← sender.mapM ofField
      status := ← WalStatus.ofText status}
  | _ => none

/-- `json.dumps(asdict(record), ensure_ascii=False) + "\n"` -/
def line (r : WalRecord) : List Char := Json.print (asdict r) ++ ['\n']

def render (records : List WalRecord) : List Char := records.flatMap line

/-- None when a line is not the text of a record: `json.loads` raises. -/
def loadRecords (file : List Char) : Option (List WalRecord) :=
  (((Text.lines file).map (Text.strip Text.isSpace)).filter (fun line => line ≠ [])).mapM
    (fun line => (Json.loads line).bind ofDict)

def messageExists (records : List WalRecord) (messageId : String) : Bool := records.any (fun r => r.messageId = messageId)

def processed (recordId : String) (records : List WalRecord) : List WalRecord :=
  records.map (fun r => if r.id = recordId then {r with status := .processed} else r)

def sensitiveBlocked (recordId category : String) (preservePending : Bool) (records : List WalRecord) : List WalRecord :=
  records.map (fun r =>
    if r.id = recordId then {r with
      text := blockedText
      status := if preservePending then .pending else .blockedSensitive
      sensitivity := if category = "" then "sensitive" else category}
    else r)

theorem ofOptional_optional (s : Option String) : ofOptional (optional s) = some s := by
  cases s <;> rfl

theorem ofText_text (s : WalStatus) : WalStatus.ofText s.text = some s := by
  cases s <;> rfl

theorem ofDict_asdict (r : WalRecord) : ofDict (asdict r) = some r := by
  have fields : (r.sender.map (fun p => (p.1,optional p.2))).mapM ofField = some r.sender := by
    induction r.sender with
    | nil => rfl
    | cons p rest ih => simp [ofField,ofOptional_optional,ih]
  simp only [asdict,ofDict,ofOptional_optional,fields,ofText_text,Option.bind_eq_bind,Option.bind_some]

theorem loads_line (r : WalRecord) : (Json.loads (Json.print (asdict r))).bind ofDict = some r := by
  rw [Json.loads_print,Option.bind_some,ofDict_asdict]

theorem strip_line (r : WalRecord) : Text.strip Text.isSpace (Json.print (asdict r)) = Json.print (asdict r) :=
  Text.strip_closed (by decide) (by decide) _

theorem loadRecords_line (r : WalRecord) (rest : List Char) :
    loadRecords (line r ++ rest) = (loadRecords rest).map (fun records => r::records) := by
  unfold loadRecords line
  rw [List.append_assoc,List.singleton_append,Text.lines_append (Json.plain_print _),List.map_cons,strip_line]
  have there : Json.print (asdict r) ≠ [] := by simp [asdict,Json.print]
  rw [List.filter_cons_of_pos (by simpa using there),List.mapM_cons,loads_line]
  simp only [Option.bind_eq_bind,Option.bind_some]
  cases List.mapM (fun line => (Json.loads line).bind ofDict)
    (List.filter (fun line => decide (line ≠ [])) (List.map (Text.strip Text.isSpace) (Text.lines rest))) <;> rfl

theorem loadRecords_render (records : List WalRecord) : loadRecords (render records) = some records := by
  induction records with
  | nil => rfl
  | cons r rest ih =>
    rw [render,List.flatMap_cons,loadRecords_line]
    rw [render] at ih
    rw [ih]
    rfl

theorem render_append (before after : List WalRecord) : render (before ++ after) = render before ++ render after := by
  simp [render]

end Suixinji.Local
