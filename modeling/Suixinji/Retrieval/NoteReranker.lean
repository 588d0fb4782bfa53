import Mathlib.Data.List.Infix
import Mathlib.Algebra.Order.Ring.Rat
import Mathlib.Data.List.Dedup
import Mathlib.Data.Prod.Lex
import Mathlib.Data.Rat.Floor
import Mathlib.Data.String.Basic
import Suixinji.Ask.Plan
import Suixinji.Relational.Greedy

/-! Reranking of notes and choice of answer evidence (agent/note_reranker.py), in exact arithmetic. A text
that is missing or null is empty. The regexes are parameters. -/
namespace Suixinji.Retrieval.NoteReranker
open Greedy Ranking
open Text (stripped)

/-- The dict of a note: what is read of it by name, and the rest. -/
structure Record (σ : Type) where
  id : String := ""
  noteId : String := ""
  title : String := ""
  summary : String := ""
  text : String := ""
  fullText : String := ""
  snippet : String := ""
  ts : String := ""
  updatedAt : String := ""
  createdAt : String := ""
  sourceCreatedAt : String := ""
  observedAt : String := ""
  speakerRoles : List String := []
  sourceRoles : List String := []
  roles : List String := []
  sourceRole : List String := []
  role : List String := []
  rest : σ
  deriving DecidableEq

structure Language where
  casefold : String → String
  /-- `re.findall` of the pattern of a term. -/
  words : String → List String
  /-- `re.findall` of a quoted phrase. -/
  quoted : String → List String
  assistantCues : String → Bool
  userCues : String → Bool
  multiCues : String → Bool
  currentCues : String → Bool

variable {σ : Type} (lang : Language)

def stopwords : List String := ["a","an","the","is","are","was","were","do","did","does","i","me","my","you","your","we","our","to","of","in","on",
  "at","for","with","and","or","what","which","who","when","where","how","can","could","would","please","about","that","this","it","all","last",
  "time","previously","before","after","again"]

def isHan (c : Char) : Bool := 0x3400 ≤ c.toNat && c.toNat ≤ 0x9fff

def addNew (values : List String) (value : String) : List String := if value ∈ values then values else values ++ [value]

def bigrams (token : String) : List String :=
  (List.range (token.length - 1)).map (fun index => String.ofList ((token.toList.drop index).take 2))

/-- `_tokens`. -/
def tokens (text : String) : List String :=
  ((lang.words (lang.casefold text)).foldl (fun values token =>
    if token ∈ stopwords ∨ token.length < 2 ∨ token ∈ values then values
    else if 4 ≤ token.length ∧ token.toList.all isHan then (bigrams token).foldl addNew (values ++ [token])
    else values ++ [token]) []).take 24

def stemmable (token : String) : Bool :=
  match token.toList with
  | [] => false
  | first::rest => ('a' ≤ first && first ≤ 'z') && rest.all (fun c => 'a' ≤ c && c ≤ 'z' || c = '\'' || c = '_' || c = '-')

/-- `_stem`. -/
def stem (token : String) : String :=
  if stemmable token then
    match ["ing","ed","es","s"].find? (fun suffix => suffix.length + 2 < token.length && suffix.toList.isSuffixOf token.toList) with
    | some suffix => String.ofList (token.toList.take (token.length - suffix.length))
    | none => token
  else token

structure QueryConstraints where
  terms : List String
  quotedPhrases : List String
  roleMode : Option String
  needsMultiEvidence : Bool
  prefersRecentEvidence : Bool

def parseQueryConstraints (query : String) : QueryConstraints :=
  let value := Ask.clean query
  { terms := ((tokens lang value).map stem).foldl addNew []
    quotedPhrases := (((lang.quoted value).filter (fun phrase => stripped phrase ≠ "")).map (fun phrase => stripped (lang.casefold phrase))).take 3
    roleMode := if lang.assistantCues value then some "assistant" else if lang.userCues value then some "user" else none
    needsMultiEvidence := lang.multiCues value
    prefersRecentEvidence := lang.currentCues value }

namespace Record

/-- `_record_id`. -/
def recordId (r : Record σ) : String := if r.id ≠ "" then r.id else r.noteId

def recordText (r : Record σ) : String := lang.casefold (" ".intercalate [r.title,r.summary,r.text,r.fullText,r.snippet])

def recordTerms (r : Record σ) : List String := ((tokens lang (r.recordText lang)).map stem).dedup

def recordRoles (rolesById : String → List String) (r : Record σ) : List String :=
  (((if r.recordId ≠ "" then rolesById r.recordId else []) ++ r.speakerRoles ++ r.sourceRoles ++ r.roles ++ r.sourceRole ++ r.role).filter
    (fun value => stripped value ≠ "")).map lang.casefold

def recordTimestamp (r : Record σ) : String := max r.ts (max r.updatedAt (max r.createdAt (max r.sourceCreatedAt r.observedAt)))

end Record

/-- `table[key] = value`. -/
def put {β : Type} (key : String) (value : β) : List (String × β) → List (String × β)
  | [] => [(key,value)]
  | entry::table => if entry.1 = key then (key,value)::table else entry::put key value table

def tableOf {β : Type} (entries : List (String × β)) : List (String × β) := entries.foldl (fun table entry => put entry.1 entry.2 table) []

def get {β : Type} (table : List (String × β)) (key : String) : Option β := (table.find? (fun entry => entry.1 = key)).map Prod.snd

def docTerms (records : List (Record σ)) : List (String × List String) := tableOf (records.map (fun r => (r.recordId,r.recordTerms lang)))

def frequency (records : List (Record σ)) (term : String) : Nat := (docTerms lang records).countP (fun entry => term ∈ entry.2)

/-- The places of the records, by the ids that are not empty; of a repeated id the last. -/
def base (records : List (Record σ)) : List (String × ℚ) :=
  tableOf ((records.zipIdx.filter (fun p => p.1.recordId ≠ "")).map (fun p => (p.1.recordId,1 / (1 + 22 / 100 * (p.2 : ℚ)))))

def totalIdf (records : List (Record σ)) (terms : List String) : ℚ :=
  let total := (terms.map (fun term => 1 / (max 1 (frequency lang records term) : ℚ))).sum
  if total = 0 then 1 else total

/-- `doc_terms.get(record_id, set())`. -/
def termsOf (records : List (Record σ)) (r : Record σ) : List String := (get (docTerms lang records) r.recordId).getD []

def overlap (constraints : QueryConstraints) (records : List (Record σ)) (r : Record σ) : List String :=
  constraints.terms.filter (fun term => term ∈ termsOf lang records r)

def coverage (constraints : QueryConstraints) (records : List (Record σ)) (r : Record σ) : ℚ :=
  ((overlap lang constraints records r).length : ℚ) / (max 1 constraints.terms.length : ℚ)

def rareCoverage (constraints : QueryConstraints) (records : List (Record σ)) (r : Record σ) : ℚ :=
  ((overlap lang constraints records r).map (fun term => 1 / (max 1 (frequency lang records term) : ℚ))).sum /
    totalIdf lang records constraints.terms

/-- `_max_jaccard`. -/
def maxJaccard (terms : List String) (selected : List (List String)) : ℚ :=
  if terms = [] then 0
  else (selected.map (fun other => ((terms.filter (· ∈ other)).length : ℚ) /
    (max 1 (terms.length + (other.filter (· ∉ terms)).length) : ℚ))).foldl max 0

structure Reranked (σ : Type) where
  record : Record σ
  v2ConstraintCoverage : ℚ
  v2RareEntityCoverage : ℚ
  v2RoleBonus : ℚ
  v2ConstraintScore : ℚ

structure Row (ι : Type) where
  score : ℚ
  item : ι
  terms : List String

def roleBonus (constraints : QueryConstraints) (rolesById : String → List String) (r : Record σ) : ℚ :=
  if constraints.roleMode.any (· ∈ r.recordRoles lang rolesById) then 10 / 100 else 0

def constraintScore (query : String) (rolesById : String → List String) (records : List (Record σ)) (r : Record σ) : ℚ :=
  let constraints := parseQueryConstraints lang query
  let phraseBonus : ℚ := if constraints.quotedPhrases.any (fun phrase => phrase.toList <:+: (r.recordText lang).toList) then 4 / 100 else 0
  48 / 100 * (get (base records) r.recordId).getD 0 + 32 / 100 * coverage lang constraints records r +
    13 / 100 * rareCoverage lang constraints records r + phraseBonus + roleBonus lang constraints rolesById r

def rerankRow (query : String) (rolesById : String → List String) (records : List (Record σ)) (r : Record σ) : Row (Reranked σ) :=
  let constraints := parseQueryConstraints lang query
  let score := constraintScore lang query rolesById records r
  { score := score
    item :=
      { record := r
        v2ConstraintCoverage := roundTo 6 (coverage lang constraints records r)
        v2RareEntityCoverage := roundTo 6 (rareCoverage lang constraints records r)
        v2RoleBonus := roleBonus lang constraints rolesById r
        v2ConstraintScore := roundTo 6 score }
    terms := termsOf lang records r }

def sorted {ι : Type} (ts id : ι → String) (rows : List (Row ι)) : List (Row ι) :=
  rows.insertionSort (fun a b => (toLex (b.score,toLex (ts b.item,id b.item)) : ℚ ×ₗ String ×ₗ String) ≤ toLex (a.score,toLex (ts a.item,id a.item)))

def worth {ι : Type} (penalty : ℚ) (ts : ι → String) (selected : List (Row ι)) (row : Row ι) : ℚ ×ₗ String :=
  toLex (row.score - penalty * maxJaccard row.terms (selected.map Row.terms),ts row.item)

/-- The first row, and then so many more as they are worth most. -/
def diversified {ι : Type} (penalty : ℚ) (ts : ι → String) (more : Nat) : List (Row ι) → List (Row ι)
  | [] => []
  | first::remaining => first::greedy (worth penalty ts) more [first] remaining

def orderRows (needsMultiEvidence : Bool) (rows : List (Row (Reranked σ))) : List (Row (Reranked σ)) :=
  let ranked := sorted (fun item => item.record.ts) (fun item => item.record.recordId) rows
  if !needsMultiEvidence || ranked.length < 3 then ranked
  else diversified (12 / 100) (fun item => item.record.ts) (ranked.length - 1) ranked

def rerankNoteRecords (query : String) (records : List (Record σ)) (rolesById : String → List String) : List (Reranked σ) :=
  if records.isEmpty then []
  else (orderRows (parseQueryConstraints lang query).needsMultiEvidence (records.map (rerankRow lang query rolesById records))).map Row.item

structure AnswerEvidence (σ : Type) where
  record : Record σ
  answerEvidenceScore : ℚ
  answerEvidenceCoverage : ℚ
  answerEvidenceRareCoverage : ℚ
  answerEvidenceRank : Nat := 0
  answerEvidenceSelected : Bool := false

def timestamps (records : List (Record σ)) : List (String × String) := tableOf (records.map (fun r => (r.recordId,r.recordTimestamp)))

def distinctTimes (records : List (Record σ)) : List String :=
  ((((timestamps records).map Prod.snd).filter (· ≠ "")).dedup).insertionSort (· ≤ ·)

/-- `time_rank.get(timestamps.get(record_id, ""), 0.0)`. -/
def timeRank (records : List (Record σ)) (r : Record σ) : ℚ :=
  let time := (get (timestamps records) r.recordId).getD ""
  if time ∈ distinctTimes records then ((distinctTimes records).idxOf time : ℚ) / (max 1 ((distinctTimes records).length - 1 : ℕ) : ℚ) else 0

def evidenceRow (query : String) (records : List (Record σ)) (index : Nat) (r : Record σ) : Row (AnswerEvidence σ) :=
  let constraints := parseQueryConstraints lang query
  let phraseCoverage : ℚ := (constraints.quotedPhrases.countP (fun phrase => phrase.toList <:+: (r.recordText lang).toList) : ℚ) /
    (max 1 constraints.quotedPhrases.length : ℚ)
  let freshness := if constraints.prefersRecentEvidence then timeRank records r else 0
  let score := 48 / 100 * (1 / (1 + 20 / 100 * (index : ℚ))) + 28 / 100 * coverage lang constraints records r +
    17 / 100 * rareCoverage lang constraints records r + 5 / 100 * phraseCoverage + 10 / 100 * freshness
  { score := score
    item :=
      { record := r
        answerEvidenceScore := roundTo 6 score
        answerEvidenceCoverage := roundTo 6 (coverage lang constraints records r)
        answerEvidenceRareCoverage := roundTo 6 (rareCoverage lang constraints records r) }
    terms := termsOf lang records r }

/-- `max(1, min(int(limit), 5 if constraints.needs_multi_evidence else 3))`. -/
def target (needsMultiEvidence : Bool) (limit : Int) : Nat := (max 1 (min limit (if needsMultiEvidence then 5 else 3))).toNat

def selectAnswerEvidence (query : String) (records : List (Record σ)) (limit : Int) : List (AnswerEvidence σ) :=
  if records.isEmpty then []
  else
    let constraints := parseQueryConstraints lang query
    let scored := sorted (fun item => item.record.recordTimestamp) (fun item => item.record.recordId)
      (records.zipIdx.map (fun p => evidenceRow lang query records p.2 p.1))
    let selected := diversified (if constraints.needsMultiEvidence then 10 / 100 else 18 / 100) (fun item => item.record.recordTimestamp)
      (target constraints.needsMultiEvidence limit - 1) scored
    selected.zipIdx.map (fun p => {p.1.item with answerEvidenceRank := p.2 + 1,answerEvidenceSelected := true})

end Suixinji.Retrieval.NoteReranker
