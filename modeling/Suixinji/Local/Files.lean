import Suixinji.Local.Notes
import Suixinji.Local.Process
import Suixinji.Relational.Footprint

/-! The files of all spaces in one tree (core/wal.py, storage/note_storage.py,
storage/vector_store.py), under the names the space ids give them. -/
namespace Suixinji.Local
open Suixinji.Footprint (Call)

/-- `re.sub(r"[^a-zA-Z0-9_.-]", "_", space_id)` -/
def safeSpaceId (spaceId : String) : String :=
  String.ofList (spaceId.toList.map (fun c => if c.isAlphanum ∨ c = '_' ∨ c = '.' ∨ c = '-' then c else '_'))

structure VectorItem where
  noteId : String
  messageId : String
  text : String
  embedding : List Rat
  metadata : List (String × String)
  deriving DecidableEq

/-- A dictionary of an index: of a note, or of a vector with what has been written over
it. Two spaces can have the two kinds in one file. -/
inductive Item where
  | note (n : NoteMetadata)
  | vector (v : VectorItem) (updates : List NoteField)
  deriving DecidableEq

/-- `str(item.get("id") or "")` -/
def Item.id : Item → String
  | .note n => n.id
  | .vector _ updates => updates.foldl (fun id u => match u with | .id v => v | _ => id) ""

/-- `item.get("message_id")` -/
def Item.messageId : Item → String
  | .note n => n.messageId
  | .vector v updates => updates.foldl (fun id u => match u with | .messageId w => w | _ => id) v.messageId

def Item.update : Item → List NoteField → Item
  | .note n,updates => .note (n.update updates)
  | .vector v before,updates => .vector v (before ++ updates)

def VectorItem.set (v : VectorItem) : NoteField → Option VectorItem
  | .messageId messageId => some {v with messageId}
  | .text text => some {v with text}
  | _ => none

/-- `VectorItem(**item)`: none when a key is not a field. -/
def Item.asVector : Item → Option VectorItem
  | .note _ => none
  | .vector v updates => updates.foldlM VectorItem.set v

/-- What is at a path. -/
inductive Node where
  | directory
  | records (records : List WalRecord)
  | items (items : List Item)
  | markdown (blocks : List Block)
  deriving DecidableEq

/-- The names on the way down from data/. The directories data, data/cache and
data/notes are there. -/
abbrev Path := List String

abbrev Files := Footprint.Store Path Node

def walPath (spaceId : String) : Path := ["cache",safeSpaceId spaceId ++ ".jsonl"]

/-- `NOTES_DIR / safe_space_id(space_id)`, as the system resolves it. -/
def noteDir (spaceId : String) : Path :=
  if safeSpaceId spaceId = "" ∨ safeSpaceId spaceId = "." then ["notes"]
  else if safeSpaceId spaceId = ".." then []
  else ["notes",safeSpaceId spaceId]

def indexPath (spaceId : String) : Path := noteDir spaceId ++ ["index.json"]

def vectorDir (spaceId : String) : Path := noteDir spaceId ++ ["vectors"]

def vectorIndexPath (spaceId : String) : Path := vectorDir spaceId ++ ["index.json"]

def leap (year : Nat) : Bool := year % 4 = 0 ∧ (year % 100 ≠ 0 ∨ year % 400 = 0)

def daysIn (year month : Nat) : Nat :=
  if month = 2 then (if leap year then 29 else 28)
  else if month = 4 ∨ month = 6 ∨ month = 9 ∨ month = 11 then 30
  else 31

def digits (cs : List Char) : Nat := cs.foldl (fun n c => 10 * n + (c.toNat - 48)) 0

/-- The text of a date, as `date.isoformat` has it. -/
def isDate (cs : List Char) : Bool :=
  match cs with
  | [y₁,y₂,y₃,y₄,h₁,m₁,m₂,h₂,d₁,d₂] =>
    let year := digits [y₁,y₂,y₃,y₄]
    let month := digits [m₁,m₂]
    let day := digits [d₁,d₂]
    [y₁,y₂,y₃,y₄,m₁,m₂,d₁,d₂].all Char.isDigit ∧ h₁ = '-' ∧ h₂ = '-' ∧ 1 ≤ year ∧ 1 ≤ month ∧ month ≤ 12 ∧ 1 ≤ day ∧
      day ≤ daysIn year month
  | _ => false

/-- `datetime.fromisoformat` knows the text, which begins with a date. -/
def isoformatted (ts : String) : Bool := isDate (ts.toList.take 10)

def noteFile (spaceId ts : String) : Path := noteDir spaceId ++ [noteDate ts ++ ".md"]

/-- `path.mkdir(parents=True, exist_ok=True)` -/
def mkdir (path : Path) : Call Path Node Unit :=
  if path = [] ∨ path = ["notes"] then pure ()
  else do
    match ← Footprint.get path with
    | none => Footprint.put path .directory
    | some .directory => pure ()
    | some _ => Footprint.fail

/-- Opening a directory for writing raises. -/
def write (path : Path) (node : Node) : Call Path Node Unit := do
  match ← Footprint.get path with
  | some .directory => Footprint.fail
  | _ => Footprint.put path node

def loadRecordsOf (spaceId : String) : Call Path Node (List WalRecord) := do
  match ← Footprint.get (walPath spaceId) with
  | none => pure []
  | some (.records records) => pure records
  | some _ => Footprint.fail

def appendMessageOnce (r : WalRecord) : Call Path Node Bool := do
  let records ← loadRecordsOf r.spaceId
  if messageExists records r.messageId then pure false
  else do
    write (walPath r.spaceId) (.records (records ++ [r]))
    pure true

def markProcessed (spaceId recordId : String) : Call Path Node Unit := do
  let records ← loadRecordsOf spaceId
  write (walPath spaceId) (.records (processed recordId records))

def markSensitiveBlocked (spaceId recordId category : String) (preservePending : Bool) : Call Path Node Unit := do
  let records ← loadRecordsOf spaceId
  write (walPath spaceId) (.records (sensitiveBlocked recordId category preservePending records))

def itemsAt (path : Path) : Call Path Node (List Item) := do
  match ← Footprint.get path with
  | none => pure []
  | some (.items items) => pure items
  | some _ => Footprint.fail

def loadIndex (spaceId : String) : Call Path Node (List Item) := do
  mkdir (noteDir spaceId)
  itemsAt (indexPath spaceId)

def saveIndex (spaceId : String) (items : List Item) : Call Path Node Unit := do
  mkdir (noteDir spaceId)
  write (indexPath spaceId) (.items items)

/-- The first dictionary of the id is updated; none when there is no such. -/
def updateItem : List Item → String → List NoteField → Option (List Item)
  | [],_,_ => none
  | item::items,noteId,updates =>
    if item.id = noteId then some (item.update updates::items) else (updateItem items noteId updates).map (fun items => item::items)

def updateNote (spaceId noteId : String) (updates : List NoteField) : Call Path Node Unit := do
  let items ← loadIndex spaceId
  match updateItem items noteId updates with
  | some items => saveIndex spaceId items
  | none => pure ()

def appendMarkdownNote (n : NoteMetadata) : Call Path Node Unit := do
  mkdir (noteDir n.spaceId)
  if isoformatted n.ts then
    match ← Footprint.get (noteFile n.spaceId n.ts) with
    | none => Footprint.put (noteFile n.spaceId n.ts) (.markdown [block n])
    | some (.markdown blocks) => Footprint.put (noteFile n.spaceId n.ts) (.markdown (blocks ++ [block n]))
    | some _ => Footprint.fail
  else Footprint.fail

def appendIndex (n : NoteMetadata) : Call Path Node Unit := do
  let items ← loadIndex n.spaceId
  saveIndex n.spaceId (items ++ [.note n])

def noteThere (spaceId messageId : String) : Call Path Node Bool := do
  let items ← loadIndex spaceId
  pure (items.any (fun item => item.messageId = messageId))

def saveNote (n : NoteMetadata) : Call Path Node Unit := do
  if ← noteThere n.spaceId n.messageId then pure ()
  else do
    appendMarkdownNote n
    appendIndex n

def vectorDirOf (spaceId : String) : Call Path Node Unit := do
  mkdir (noteDir spaceId)
  mkdir (vectorDir spaceId)

def loadVectorItems (spaceId : String) : Call Path Node (List VectorItem) := do
  vectorDirOf spaceId
  let items ← itemsAt (vectorIndexPath spaceId)
  Footprint.ofOption (items.mapM Item.asVector)

def saveVectorItems (spaceId : String) (items : List VectorItem) : Call Path Node Unit := do
  vectorDirOf spaceId
  write (vectorIndexPath spaceId) (.items (items.map (fun v => .vector v [])))

def addVectorItem (spaceId : String) (item : VectorItem) : Call Path Node Bool := do
  let items ← loadVectorItems spaceId
  if items.any (fun v => v.noteId = item.noteId ∨ v.messageId = item.messageId) then pure false
  else do
    saveVectorItems spaceId (items ++ [item])
    pure true

def removeVectorItem (spaceId noteId : String) : Call Path Node Bool := do
  let items ← loadVectorItems spaceId
  let kept := items.filter (fun v => v.noteId ≠ noteId)
  if kept.length = items.length then pure false
  else do
    saveVectorItems spaceId kept
    pure true

/-- What the worker makes of a text: the category when it must not be stored, else what
`classify_text_local` says. -/
structure Reading where
  assess : String → Option String
  classify : String → Classification

/-- `process_record`, of a record that knows its space. -/
def processRecord (reading : Reading) (r : WalRecord) : Call Path Node Unit := do
  match reading.assess r.text with
  | some category => markSensitiveBlocked r.spaceId r.id category false
  | none =>
    if ← noteThere r.spaceId r.messageId then markProcessed r.spaceId r.id
    else do
      saveNote (noteOf (reading.classify r.text) r)
      markProcessed r.spaceId r.id

/-- A record whose message came before it in the batch. -/
def markDuplicate (spaceId recordId : String) : Call Path Node Unit := if recordId = "" then pure () else markProcessed spaceId recordId

/-- The batch, with the message ids seen so far. -/
def processAll (reading : Reading) (spaceId : String) : List WalRecord → List String → Call Path Node Unit
  | [],_ => pure ()
  | r::records,seen =>
    if r.messageId ∈ seen then do
      markDuplicate spaceId r.id
      processAll reading spaceId records seen
    else do
      let _ ← Footprint.attempt (processRecord reading r)
      processAll reading spaceId records (if r.messageId = "" then seen else seen ++ [r.messageId])

def processPending (reading : Reading) (spaceId : String) : Call Path Node Unit := do
  let records ← loadRecordsOf spaceId
  processAll reading spaceId (records.filter (fun r => r.status = .pending)) []

inductive Op where
  | append (r : WalRecord)
  | markProcessed (spaceId recordId : String)
  | processPending (spaceId : String)
  | saveNote (n : NoteMetadata)
  | updateNoteMetadata (spaceId noteId : String) (updates : List NoteField)
  | addVectorItem (spaceId : String) (item : VectorItem)
  | removeVectorItem (spaceId noteId : String)

/-- The space a call is made for. -/
def Op.space : Op → String
  | .append r => r.spaceId
  | .markProcessed spaceId _ => spaceId
  | .processPending spaceId => spaceId
  | .saveNote n => n.spaceId
  | .updateNoteMetadata spaceId _ _ => spaceId
  | .addVectorItem spaceId _ => spaceId
  | .removeVectorItem spaceId _ => spaceId

def Op.call (reading : Reading) : Op → Call Path Node Unit
  | .append r => do
    let _ ← appendMessageOnce r
  | .markProcessed spaceId recordId => Local.markProcessed spaceId recordId
  | .processPending spaceId => Local.processPending reading spaceId
  | .saveNote n => Local.saveNote n
  | .updateNoteMetadata spaceId noteId updates => updateNote spaceId noteId updates
  | .addVectorItem spaceId item => do
    let _ ← Local.addVectorItem spaceId item
  | .removeVectorItem spaceId noteId => do
    let _ ← Local.removeVectorItem spaceId noteId

def after (reading : Reading) (files : Files) (ops : List Op) : Files := ops.foldl (fun files op => (op.call reading files).2) files

def noFiles : Files := fun _ => none

/-- What `load_records`, `load_index` and `load_vector_items` return; none is raised. -/
structure Loads where
  records : Option (List WalRecord)
  index : Option (List Item)
  vectors : Option (List VectorItem)
  deriving DecidableEq

def loads (files : Files) (spaceId : String) : Loads where
  records := (loadRecordsOf spaceId files).1
  index := (loadIndex spaceId files).1
  vectors := (loadVectorItems spaceId files).1

end Suixinji.Local
