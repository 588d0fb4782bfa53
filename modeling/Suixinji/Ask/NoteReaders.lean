import Suixinji.Ask.Tools
import Suixinji.Local.Notes
import Suixinji.Relational.Redact

/-! What the ask flows read of notes (agent/query_agent.py, `hydrate_selected_evidence`
of agent/ask_executor.py), with what was forgotten masked (`mask_note` of
memory/preference_cards.py and of memory/fact_memory.py). Both kinds of card are enabled. -/
namespace Suixinji.Ask
open Local (NoteMetadata)
open Facts (Tombstone)

/-- `forgotten_source`, as far as the mask reads it. -/
structure ForgottenSource where
  id : String
  noteId : String
  originalText : String
  deriving DecidableEq

/-- What the masks read and write of a note. -/
structure NoteText where
  id : String
  title : String
  summary : String
  tags : List String
  text : String
  deriving DecidableEq

def words (n : NoteMetadata) : NoteText := ⟨n.id,n.title,n.summary,n.tags,n.text⟩

def withWords (n : NoteMetadata) (t : NoteText) : NoteMetadata :=
  { n with title := t.title, summary := t.summary, tags := t.tags, text := t.text }

/-- `text.replace(span, mark)`: an empty span is before each character and at the end. -/
def replaceSpan (mark text span : String) : String :=
  if span = "" then mark ++ String.ofList (text.toList.flatMap (fun c => c::mark.toList))
  else String.ofList (Redact.replaceAll span.toList mark.toList text.toList)

def afterPlease : List Char → List Char
  | '请'::rest => rest
  | text => text

/-- `^(?:请)?(?:忘记|删除).*偏好|^(?:请)?忘记`. -/
def isCommand (text : String) : Bool :=
  let rest := afterPlease text.toList
  ['忘','记'] <+: rest || (['删','除'] <+: rest && ['偏','好'] <:+: (rest.drop 2).takeWhile (· ≠ '\n'))

/-- What a span is replaced by where a preference was forgotten. -/
def preferenceMark : String := "[已忘记的偏好]"

/-- What a span is replaced by where a fact was forgotten. -/
def factMark : String := "[已按用户要求遗忘]"

/-- The title of a note of which preferences were forgotten. -/
def maskedTitle : String := "笔记（部分偏好已忘记）"

def preferenceSpans (forgotten : List ForgottenSource) (id : String) : List String :=
  (forgotten.filter (fun s => s.noteId = (if id = "" then "None" else id))).map (·.originalText)

def factSpans (tombstones : List Tombstone) (id : String) : List String :=
  ((tombstones.filter (·.noteId = id)).map (·.evidenceSpan)).insertionSort (fun a b => b.length ≤ a.length)

/-- `preference_cards.mask_note`. -/
def preferenceMask (forgotten : List ForgottenSource) (n : NoteText) : NoteText :=
  if isCommand n.text then { n with text := "[记忆管理指令]", summary := "", title := "记忆管理指令", tags := [] }
  else match preferenceSpans forgotten n.id with
    | [] => n
    | spans => { n with text := spans.foldl (replaceSpan preferenceMark) n.text, summary := "", title := maskedTitle, tags := [] }

/-- `fact_memory.mask_note`. -/
def factMask (tombstones : List Tombstone) (n : NoteText) : NoteText :=
  match factSpans tombstones n.id with
  | [] => n
  | spans => { n with text := spans.foldl (replaceSpan factMark) n.text, title := "", summary := "", tags := [] }

/-- `_clip`. -/
def clip (limit : Nat) (text : String) : String :=
  if text.length ≤ limit then text else String.ofList (text.toList.take limit) ++ "..."

/-- `_note_brief`. -/
structure Brief extends NoteText where
  time : String
  type : String
  related : List String
  enrichmentStatus : String
  deriving DecidableEq

structure VectorEntry extends NoteText where
  messageId : String
  type : String
  time : String
  deriving DecidableEq

/-- What `get_note_for_evidence` gives of a note. -/
structure EvidenceNote where
  id : String
  ts : String
  title : String
  summary : String
  text : String
  deriving DecidableEq

/-- The source, the notes it names and those that name it. -/
structure Links where
  source : Brief
  outbound : List Brief
  inbound : List Brief
  deriving DecidableEq

/-- The searches of notes, whose order and choice is that of the back end and of scores. -/
inductive NoteQuery where
  | filtered (noteType : Option String) (tags : List String) (matchAll : Bool) (limit : Int)
  | recent (days limit : Int)
  | provisional (query : String) (limit : Int)
  | hybrid (query : String) (topK : Nat)
  | memoryFallback (query : String) (limit : Int)
  deriving DecidableEq

/-- The notes as they are read for a space. A query chooses among notes, in some order. -/
structure NoteShelf where
  spaceId : String
  postgres : Bool
  hybrid : Bool
  notes : List NoteMetadata
  /-- The rows of `note_relations`, the source of each first. -/
  relations : List (String × String)
  vectors : List VectorEntry
  forgotten : List ForgottenSource
  tombstones : List Tombstone
  casefold : String → String
  containsSensitiveData : String → Bool
  choose : NoteQuery → List NoteMetadata → List NoteMetadata
  choose_subset : ∀ q notes, choose q notes ⊆ notes
  nearest : String → Nat → List VectorEntry → List VectorEntry
  nearest_subset : ∀ q k entries, nearest q k entries ⊆ entries

namespace NoteShelf

variable (s : NoteShelf)

def noteBrief (limit : Nat) (n : NoteMetadata) : Brief :=
  let t := if n.spaceId = "" then words n else factMask s.tombstones (preferenceMask s.forgotten (words n))
  { t with text := clip limit t.text, time := n.ts, type := n.type, related := n.related, enrichmentStatus := n.enrichmentStatus }

/-- `is_note_queryable`. -/
def queryable (n : NoteMetadata) : Bool :=
  s.casefold (orText n.sensitivity "normal") ∈ ["","normal","none"] && !s.containsSensitiveData n.text

/-- `_safe_notes`, of the local back end. -/
def safeNotes : List NoteMetadata :=
  (s.notes.filter s.queryable).map (fun n => withWords n (preferenceMask s.forgotten (words n)))

def rows : List NoteMetadata := s.notes.filter (·.spaceId = s.spaceId)

/-- Those that the searches of the database may give. -/
def shownRows : List NoteMetadata := s.rows.filter (fun n => n.sensitivity = "normal" && !s.containsSensitiveData n.text)

/-- What a query chooses from: rows of the space, or notes that are masked once. -/
def candidates : List NoteMetadata := if s.postgres then s.shownRows else s.safeNotes

def briefs (q : NoteQuery) : List Brief := (s.choose q s.candidates).map (s.noteBrief 500)

def filterNotes (noteType : Option String) (tags : List String) (matchAll : Bool) (limit : Int) : List Brief :=
  s.briefs (.filtered noteType tags matchAll limit)

def listRecent (days limit : Int) : List Brief := s.briefs (.recent days limit)

def provisionalSearch (query : String) (limit : Int) : List Brief := s.briefs (.provisional query limit)

/-- `_postgres_find_note` or `_find_note`, and `is_note_queryable`. -/
def findNote (noteId : String) : Option NoteMetadata :=
  ((if s.postgres then s.rows else s.safeNotes).find? (·.id = noteId)).filter s.queryable

def getNote (noteId : String) : Option Brief := (s.findNote noteId).map (s.noteBrief 1200)

def getNoteForEvidence (noteId : String) : Option EvidenceNote :=
  (s.findNote noteId).map (fun n =>
    let t := preferenceMask s.forgotten (words n)
    ⟨t.id,n.ts,t.title,t.summary,t.text⟩)

/-- The preview of a note that `hydrate_selected_evidence` gives to callers. -/
def hydrated (noteId : String) : Option EvidenceNote :=
  (s.getNoteForEvidence noteId).map (fun n => { n with text := String.ofList (n.text.toList.take 1200) })

/-- `follow_links` of the database, where a note that is linked shows no links of its own. -/
def rowLinks (noteId : String) (limit : Nat) : Option Links :=
  let outboundIds := ((s.relations.filter (·.1 = noteId)).map Prod.snd).take limit
  let inboundIds := ((s.relations.filter (·.2 = noteId)).map Prod.fst).take limit
  let brief (n : NoteMetadata) := s.noteBrief 500 { n with related := if n.id = noteId then outboundIds else [] }
  let noted (ids : List String) := (ids.filterMap (fun id => s.shownRows.find? (·.id = id))).map brief
  (s.shownRows.find? (·.id = noteId)).map (fun n => ⟨brief n,noted outboundIds,noted inboundIds⟩)

/-- `follow_links` of the index, where of two notes with one id the later is linked to. -/
def indexLinks (noteId : String) (limit : Nat) : Option Links :=
  (s.safeNotes.find? (·.id = noteId)).map (fun n =>
    { source := s.noteBrief 500 n
      outbound := ((n.related.take limit).filterMap (fun id =>
        (s.safeNotes.filter (fun m => m.id ≠ "" && m.id = id)).getLast?)).map (s.noteBrief 500)
      inbound := ((s.safeNotes.filter (fun m => m.id ≠ noteId && noteId ∈ m.related)).take limit).map (s.noteBrief 500) })

def followLinks (noteId : String) (limit : Int) : Option Links :=
  if s.postgres then s.rowLinks noteId (clamp limit 20) else s.indexLinks noteId (clamp limit 20)

/-- `semantic_search` where it reads the vector index. -/
def vectorSearch (query : String) (topK : Nat) : List VectorEntry :=
  (s.nearest query topK s.vectors).map (fun e =>
    let t := preferenceMask s.forgotten e.toNoteText
    { e with toNoteText := { t with text := clip 500 t.text } })

/-- `semantic_search`: of the hybrid search briefs, else entries of the vector index. -/
def semanticSearch (query : String) (topK : Int) : List Brief ⊕ List VectorEntry :=
  let query := Text.stripped query
  if query = "" then .inl []
  else if s.postgres && s.hybrid then .inl (s.briefs (.hybrid query (clamp topK 10)))
  else .inr (s.vectorSearch query (clamp topK 10))

def memoryNoteFallback (query : String) (limit : Int) : List Brief ⊕ List VectorEntry :=
  if s.postgres && !s.hybrid then .inl (s.briefs (.memoryFallback query limit))
  else s.semanticSearch query limit

end NoteShelf
end Suixinji.Ask
