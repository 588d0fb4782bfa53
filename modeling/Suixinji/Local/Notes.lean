import Suixinji.Local.Wal

/-! Notes of the local back end (storage/note_storage.py): an index, which is one
JSON file, and Markdown files, one for each day, to which a block is appended. -/
namespace Suixinji.Local

structure NoteMetadata where
  id : String
  messageId : String
  spaceId : String
  ts : String
  title : String
  tags : List String
  type : String
  summary : String
  text : String
  related : List String
  enrichmentStatus : String := "ready"
  enrichmentAttempts : Nat := 0
  enrichmentError : Option String := none
  enrichmentStartedAt : Option String := none
  enrichmentUpdatedAt : Option String := none
  sensitivity : String := "normal"
  tenantId : String := "default"
  deriving DecidableEq

/-- What `classify_text_local` says of a text. -/
structure Classification where
  title : String
  tags : List String
  type : String
  summary : String
  deriving DecidableEq

/-- The note `process_record` makes of a record. -/
def noteOf (c : Classification) (r : WalRecord) : NoteMetadata where
  id := r.id
  messageId := r.messageId
  spaceId := r.spaceId
  ts := r.ts
  title := c.title
  tags := c.tags
  type := c.type
  summary := c.summary
  text := r.text
  related := []
  enrichmentStatus := "provisional"

/-- One keyword argument of `update_note_metadata`. -/
inductive NoteField where
  | id (v : String)
  | messageId (v : String)
  | spaceId (v : String)
  | ts (v : String)
  | title (v : String)
  | tags (v : List String)
  | type (v : String)
  | summary (v : String)
  | text (v : String)
  | related (v : List String)
  | enrichmentStatus (v : String)
  | enrichmentAttempts (v : Nat)
  | enrichmentError (v : Option String)
  | enrichmentStartedAt (v : Option String)
  | enrichmentUpdatedAt (v : Option String)
  | sensitivity (v : String)
  | tenantId (v : String)
  deriving DecidableEq

def NoteMetadata.set (n : NoteMetadata) : NoteField → NoteMetadata
  | .id v => {n with id := v}
  | .messageId v => {n with messageId := v}
  | .spaceId v => {n with spaceId := v}
  | .ts v => {n with ts := v}
  | .title v => {n with title := v}
  | .tags v => {n with tags := v}
  | .type v => {n with type := v}
  | .summary v => {n with summary := v}
  | .text v => {n with text := v}
  | .related v => {n with related := v}
  | .enrichmentStatus v => {n with enrichmentStatus := v}
  | .enrichmentAttempts v => {n with enrichmentAttempts := v}
  | .enrichmentError v => {n with enrichmentError := v}
  | .enrichmentStartedAt v => {n with enrichmentStartedAt := v}
  | .enrichmentUpdatedAt v => {n with enrichmentUpdatedAt := v}
  | .sensitivity v => {n with sensitivity := v}
  | .tenantId v => {n with tenantId := v}

/-- `item.update(updates)` -/
def NoteMetadata.update (n : NoteMetadata) (updates : List NoteField) : NoteMetadata := updates.foldl NoteMetadata.set n

abbrev Index := List NoteMetadata

def noteExists (index : Index) (messageId : String) : Bool := index.any (fun n => n.messageId = messageId)

/-- The first entry of the id is updated; none when there is no entry. -/
def updateNoteMetadata : Index → String → List NoteField → Option Index
  | [],_,_ => none
  | n::index,noteId,updates =>
    if n.id = noteId then some (n.update updates::index) else (updateNoteMetadata index noteId updates).map (fun index => n::index)

/-- A block of `append_markdown_note`, with the file it is in. -/
structure Block where
  file : String
  title : String
  id : String
  messageId : String
  time : String
  type : String
  tags : String
  related : String
  summary : String
  text : String
  deriving DecidableEq

/-- `datetime.fromisoformat(ts).date().isoformat()`, of a text `isoformat` made. -/
def noteDate (ts : String) : String := String.ofList (ts.toList.take 10)

def block (n : NoteMetadata) : Block where
  file := noteDate n.ts ++ ".md"
  title := n.title
  id := n.id
  messageId := n.messageId
  time := n.ts
  type := n.type
  tags := " ".intercalate (n.tags.map (fun tag => "#" ++ tag))
  related :=
    let related := " ".intercalate (n.related.map (fun noteId => "`" ++ noteId ++ "`"))
    if related = "" then "无" else related
  summary := n.summary
  text := n.text

/-- The updates leave alone what tells notes apart. -/
def Keeps (updates : List NoteField) : Prop := ∀ u ∈ updates, (∀ v, u ≠ .id v) ∧ ∀ v, u ≠ .messageId v

theorem update_keeps {updates : List NoteField} (keeps : Keeps updates) (n : NoteMetadata) :
    (n.update updates).id = n.id ∧ (n.update updates).messageId = n.messageId := by
  induction updates generalizing n with
  | nil => exact ⟨rfl,rfl⟩
  | cons u updates ih =>
    obtain ⟨id,message⟩ := ih (fun v inside => keeps v (List.mem_cons_of_mem _ inside)) (n.set u)
    obtain ⟨notId,notMessage⟩ := keeps u List.mem_cons_self
    have set : (n.set u).id = n.id ∧ (n.set u).messageId = n.messageId := by
      cases u <;> first | exact ⟨rfl,rfl⟩ | exact absurd rfl (notId _) | exact absurd rfl (notMessage _)
    exact ⟨id.trans set.1,message.trans set.2⟩

theorem updateNoteMetadata_keys {index index' : Index} {noteId : String} {updates : List NoteField} (keeps : Keeps updates)
    (ok : updateNoteMetadata index noteId updates = some index') :
    index'.map (fun n => (n.id,n.messageId)) = index.map (fun n => (n.id,n.messageId)) := by
  induction index generalizing index' with
  | nil => cases ok
  | cons n index ih =>
    unfold updateNoteMetadata at ok
    split at ok
    · cases ok
      obtain ⟨id,message⟩ := update_keeps keeps n
      simp only [List.map_cons,id,message]
    · obtain ⟨rest,later,rfl⟩ := Option.map_eq_some_iff.mp ok
      simp only [List.map_cons,ih later]

end Suixinji.Local
