import Suixinji.Relational.Redact
import Suixinji.TaskCards.Card

/-! Preference cards: what is extracted from a message about a preference
(memory/preference_schema.py), the card of a subject and an object with its details, and
what a message, a request to forget and the rules do to a card (memory/preference_cards.py). -/
namespace Suixinji.Preferences
open Relational Memories
open TaskCards (orElse Stamp)
open Text (isSpace stripChars)
open Redact (replaceAll)

/-- `ATTITUDES`. -/
inductive Attitude where
  | positive
  | negative
  | neutral
  | unknown
  deriving DecidableEq

def Attitude.text : Attitude → String
  | .positive => "喜欢"
  | .negative => "不喜欢"
  | .neutral => "无所谓"
  | .unknown => "不确定"

/-- The attitude of a card: what its general details agree on, 待确认 or 未说明. -/
inductive CardAttitude where
  | stated (attitude : Attitude)
  | unclear
  | unsaid
  deriving DecidableEq

/-- `DetailInput`. -/
structure DetailInput where
  subject : String := "用户"
  preferenceObject : String
  attitude : Attitude
  condition : String := ""
  description : String
  evidenceSpan : String
  antecedentNoteId : Option String := none
  localAntecedent : Option String := none
  unresolvedReason : Option String := none
  isGeneral : Option Bool := none
  deriving DecidableEq

structure Note where
  id : NoteId
  spaceId : SpaceId
  text : String
  ts : Option String := none
  messageTime : Option String := none
  userId : Option String := none
  deriving DecidableEq

/-- `str(note.get('user_id') or 'owner')`. -/
def Note.owner (note : Note) : String := orElse note.userId "owner"

/-- The id of a source: a digest is read as what it is a digest of. -/
inductive SourceId where
  | message (noteId : NoteId) (text span : String)
  | context (memoryId : MemoryId) (noteId : NoteId) (text : String)
  deriving DecidableEq

/-- The evidence of a detail. The revision is a digest of the note's text. -/
structure Source where
  id : SourceId
  noteId : NoteId
  originalText : String
  messageTime : Option String := none
  noteRevision : Option String := none
  antecedentNoteId : Option String := none
  localAntecedent : Option String := none
  deriving DecidableEq

/-- `_source`. -/
def source (note : Note) (detail : DetailInput) : Source where
  id := .message note.id note.text detail.evidenceSpan
  noteId := note.id
  originalText := detail.evidenceSpan
  messageTime := note.ts.filter (· ≠ "") <|> note.messageTime
  noteRevision := some note.text
  antecedentNoteId := detail.antecedentNoteId
  localAntecedent := detail.localAntecedent

/-- The id of a detail: that of a message and what it says, or of a review and what it replaces. -/
inductive DetailId where
  | entry (source : SourceId) (detail : DetailInput)
  | review (old : DetailId) (action : String)
  deriving DecidableEq

inductive DetailStatus where
  | active
  | history
  | forgotten
  | merged
  | retracted
  | pendingReview
  deriving DecidableEq

inductive MergedInto where
  | detail (id : DetailId)
  | card (id : MemoryId)
  deriving DecidableEq

/-- A detail of a card. No detail is without evidence. -/
structure Detail where
  id : DetailId
  attitude : Attitude
  condition : String
  description : String
  sources : List Source
  status : DetailStatus
  isGeneral : Option Bool := none
  mergedInto : Option MergedInto := none
  reviewReason : Option String := none
  evidenceUnavailable : Bool := false
  cited : sources ≠ []
  deriving DecidableEq

/-- The relations of cards that a review tells apart. -/
inductive Relatedness where
  | equivalent
  | related
  | unrelated
  | uncertain
  deriving DecidableEq

structure CardRelation where
  cardId : MemoryId
  relation : Relatedness
  reason : String
  deriving DecidableEq

structure Card where
  subject : String
  preferenceObject : String
  ownerId : String
  attitude : CardAttitude := .unsaid
  details : List Detail := []
  changes : Nat := 0
  lastConsolidatedChanges : Nat := 0
  lastConsolidatedAt : Option Time := none
  relatedIds : List MemoryId := []
  relations : List CardRelation := []
  aliases : List String := []
  mergedInto : Option MemoryId := none
  deriving DecidableEq

structure Scope where
  card : Card
  canonicalTopic : String
  ownerId : String
  accessScope : String := "owner"
  subjectId : Option String := none
  deriving DecidableEq

abbrev Row := Memory Scope

/-- `stable_id` of some texts, `str.casefold`, the letters that `re` takes for one when it
ignores case, the letters of a word, the text of an action, `datetime.fromisoformat` and the
seconds of a time. -/
structure Texts where
  stableId : List String → String
  casefold : String → String
  lower : Char → Char
  isWord : Char → Bool
  fromisoformat : String → Option Stamp
  timestamp : String → Option Time

variable (t : Texts)

/-- `normalize_name`. -/
def Texts.normalizeName (value : String) : String :=
  let value := stripChars "，。！？!? ".toList (String.ofList (value.toList.filter (fun c => !isSpace c)))
  let known := [("coffee","咖啡"),("latte","拿铁"),("tea","茶"),("milk","牛奶")].find? (fun word => word.1 = t.casefold value)
  known.elim value Prod.snd

/-- From left to right, a word by another, where no letter of a word stands before or behind
it. The number is of the letters left out as part of the word before. -/
def Texts.subWord (word by' : List Char) : Nat → Bool → List Char → List Char
  | _,_,[] => []
  | k + 1,_,c::rest => subWord word by' k (t.isWord c) rest
  | 0,before,c::rest =>
    let text := c::rest
    if !before && (text.take word.length).map t.lower = word && !(text.drop word.length).head?.any t.isWord then
      by' ++ subWord word by' (word.length - 1) (t.isWord c) rest
    else c::subWord word by' 0 (t.isWord c) rest

/-- `translate_terms`. -/
def Texts.translateTerms (value : List Char) : List Char :=
  [("coffee","咖啡"),("latte","拿铁"),("tea","茶"),("milk","牛奶")].foldl
    (fun value term => t.subWord term.1.toList term.2.toList 0 false value) value

/-- From left to right, the first of the words that stands at a place is left out. -/
def removeAny (words : List (List Char)) : Nat → List Char → List Char
  | _,[] => []
  | k + 1,_::rest => removeAny words k rest
  | 0,c::rest =>
    match words.find? (·.isPrefixOf (c::rest)) with
    | some word => removeAny words (word.length - 1) rest
    | none => if c = '，' || c = '。' || isSpace c then removeAny words 0 rest else c::removeAny words 0 rest

def dropFirst (words : List String) (text : List Char) : List Char :=
  ((words.map String.toList).find? (·.isPrefixOf text)).elim text (fun word => text.drop word.length)

/-- `same_detail_text`. -/
def Texts.sameDetailText (value : String) : List Char :=
  let value := replaceAll "工作的时候".toList "工作时".toList (t.translateTerms value.toList)
  let value := replaceAll "工作期间".toList "工作时".toList value
  let said := ["现在","最近","目前","不再喜欢","不喜欢","讨厌","厌恶","不爱","喜欢","偏好","爱喝","喝","了","无所谓"]
  dropFirst ["对"] (removeAny (said.map String.toList) 0 (dropFirst ["我","用户"] value))

/-- `card_key`. -/
def Texts.cardKey (subject target owner : String) : String :=
  "preference-card:" ++ t.stableId [owner,t.normalizeName subject,t.normalizeName target]

/-- `active_details`. -/
def Card.activeDetails (card : Card) : List Detail := card.details.filter (·.status = .active)

/-- `is_general`, of what a detail or an input says. -/
def Texts.isGeneral (stated : Option Bool) (condition description target subject : String) : Bool :=
  match stated with
  | some stated => stated && condition = ""
  | none =>
    let description := if subject = "用户" then description.toList
      else dropFirst ["我的" ++ subject,"我" ++ subject,subject] description.toList
    condition = "" && t.sameDetailText (String.ofList description) = (t.normalizeName target).toList

/-- `project_card`. -/
def Card.projected (card : Card) : Card :=
  let general := card.activeDetails.filter (fun d =>
    t.isGeneral d.isGeneral d.condition d.description card.preferenceObject card.subject)
  { card with attitude :=
      match (general.map Detail.attitude).dedup with
      | [] => .unsaid
      | [attitude] => .stated attitude
      | _ => .unclear }

def Card.content (card : Card) : String :=
  card.subject ++ "关于" ++ card.preferenceObject ++ "的偏好：" ++
    "；".intercalate (card.activeDetails.map Detail.description)

def Card.polarity (card : Card) : String :=
  match card.attitude with
  | .stated .positive => "positive"
  | .stated .negative => "negative"
  | .stated .neutral => "neutral"
  | _ => "unknown"

def gathered (sources : List Source) : List Source := (sources.foldl Table.upsert (.empty : Table Source.id)).rows

theorem gathered_cited {sources : List Source} (cited : sources ≠ []) : gathered sources ≠ [] := by
  obtain ⟨s,rest,rfl⟩ := List.exists_cons_of_ne_nil cited
  obtain ⟨r,member,_⟩ := Table.upserts_known (t := (.empty : Table Source.id)) (k := s.id) (.inr ⟨s,List.mem_cons_self,rfl⟩)
  exact List.ne_nil_of_mem member

/-- The first detail that meets the condition is rewritten. -/
def amendFirst (p : Detail → Bool) (f : Detail → Detail) : List Detail → List Detail
  | [] => []
  | d::ds => if p d then f d::ds else d::amendFirst p f ds

def amendLast (p : Detail → Bool) (f : Detail → Detail) (ds : List Detail) : List Detail :=
  (amendFirst p f ds.reverse).reverse

def Card.amend (p : Detail → Bool) (f : Detail → Detail) (ids : List DetailId) (card : Card) : Card :=
  { card with details := ids.foldl (fun ds id => amendLast (fun d => p d && d.id = id) f ds) card.details }

def Card.lookup (p : Detail → Bool) (card : Card) (id : DetailId) : Option Detail :=
  card.details.reverse.find? (fun d => p d && d.id = id)

section
variable {p : Detail → Bool} {f : Detail → Detail} {ds : List Detail} {card : Card} {d : Detail} {id : DetailId} {ids : List DetailId}

def Card.Distinct (card : Card) : Prop := (card.details.map Detail.id).Nodup

theorem amendFirst_eq_map (single : ds.Pairwise (fun d e => ¬(p d ∧ p e))) :
    amendFirst p f ds = ds.map (fun d => if p d then f d else d) := by
  induction ds with
  | nil => rfl
  | cons d ds ih =>
    obtain ⟨alone,single⟩ := List.pairwise_cons.mp single
    rw [amendFirst,List.map_cons]
    split
    · rename_i here
      have others : ds.map (fun d => if p d then f d else d) = ds := by
        conv_rhs => rw [← List.map_id ds]
        apply List.map_congr_left
        intro e member
        exact if_neg (fun there => alone e member ⟨here,there⟩)
      rw [others]
    · rw [ih single]

theorem amendLast_eq_map (single : ds.Pairwise (fun d e => ¬(p d ∧ p e))) :
    amendLast p f ds = ds.map (fun d => if p d then f d else d) := by
  have mirrored : ds.reverse.Pairwise (fun d e => ¬(p d ∧ p e)) := by
    rw [List.pairwise_reverse]
    exact single.imp (fun apart both => apart both.symm)
  rw [amendLast,amendFirst_eq_map mirrored,List.map_reverse,List.reverse_reverse]

theorem single_of_distinct (distinct : (ds.map Detail.id).Nodup) {q : Detail → Bool} (named : ∀ d, q d → d.id = id) :
    ds.Pairwise (fun d e => ¬(q d ∧ q e)) := by
  rw [List.Nodup,List.pairwise_map] at distinct
  exact distinct.imp (fun apart both => apart ((named _ both.1).trans (named _ both.2).symm))

theorem amend_eq_map (distinct : card.Distinct) (once : ids.Nodup) (kept : ∀ d, (f d).id = d.id) :
    (card.amend p f ids).details = card.details.map (fun d => if p d && d.id ∈ ids then f d else d) := by
  unfold Card.amend
  obtain ⟨subject,object,owner,attitude,ds,_⟩ := card
  change (ds.map Detail.id).Nodup at distinct
  change ids.foldl _ ds = ds.map _
  induction ids generalizing ds with
  | nil => simp
  | cons id ids ih =>
    obtain ⟨absent,once⟩ := List.nodup_cons.mp once
    have named : ∀ d, (p d && decide (d.id = id)) = true → d.id = id := fun d both => by simpa using (Bool.and_eq_true_iff.mp both).2
    have same : ((ds.map (fun d => if p d && d.id = id then f d else d)).map Detail.id) = ds.map Detail.id := by
      rw [List.map_map]
      apply List.map_congr_left
      intro d _
      simp only [Function.comp_apply]
      split
      · exact kept d
      · rfl
    rw [List.foldl_cons,amendLast_eq_map (single_of_distinct distinct named),ih once _ (by rw [same]; exact distinct),List.map_map]
    apply List.map_congr_left
    intro d _
    by_cases here : d.id = id
    · by_cases chosen : p d
      · simp [here,chosen,kept,absent]
      · simp [chosen]
    · simp [here]

theorem lookup_some (found : card.lookup p id = some d) : d ∈ card.details ∧ p d ∧ d.id = id := by
  have meets := List.find?_some found
  simp only [Bool.and_eq_true,decide_eq_true_eq] at meets
  exact ⟨List.mem_reverse.mp (List.mem_of_find?_eq_some found),meets⟩

theorem lookup_isSome : (card.lookup p id).isSome ↔ ∃ d ∈ card.details, p d ∧ d.id = id := by
  simp [Card.lookup,List.find?_isSome]

theorem Card.Distinct.unique (distinct : card.Distinct) {e : Detail} (member : d ∈ card.details) (member' : e ∈ card.details)
    (same : d.id = e.id) : d = e := List.inj_on_of_nodup_map distinct member member' same

end

end Suixinji.Preferences
