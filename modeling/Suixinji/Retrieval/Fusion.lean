import Mathlib.Algebra.Order.Floor.Ring
import Mathlib.Data.Rat.Floor
import Mathlib.Data.List.Nodup
import Suixinji.Relational.Ranking
import Suixinji.Relational.Table
import Suixinji.Relational.Text

/-! Weighted reciprocal rank fusion: `_rrf_hits` (repositories/postgres/memory.py), in exact
arithmetic. The dicts keyed by memory and by channel are tables. -/
namespace Suixinji.Retrieval
open Suixinji.Relational Suixinji.Ranking
open Text (present)

/-- The columns of a `memories` row that fusion reads. -/
structure Row where
  id : String
  memoryKey : Option String := none
  subject : Option String := none
  predicate : Option String := none
  updatedAt : String
  deriving DecidableEq

/-- `MEMORY_HYBRID_RRF_K`, `RETRIEVAL_WEIGHTED_RRF_ENABLED` and `normalize_content`. -/
structure Settings where
  rrfK : ℤ
  weighted : Bool
  normalizeContent : String → String

/-- The keyword arguments of `_rrf_hits`. -/
structure Query where
  exactKey : Option String := none
  subject : Option String := none
  predicate : Option String := none
  limit : ℤ := 20

abbrev Channels := List (String × List Row)

/-- `_RRF_CHANNEL_WEIGHTS`. -/
def rrfChannelWeights : List (String × ℚ) :=
  [("exact",8/5),("structured",27/20),("structured_slot",27/20),("family",6/5),("fts",1),("lexical",19/20),
    ("vector",19/20),("trigram",3/5),("legacy_recent",1/10)]

def structuredTraceChannels : List String := ["structured","structured_slot","lexical"]

def referenceChannels : List String := ["structured","structured_slot","lexical","fts"]

/-- A row with its best rank in a channel. -/
structure Ranked where
  rank : Nat
  row : Row
  deriving DecidableEq

def Ranked.id (r : Ranked) : String := r.row.id

/-- One label with the rows that any of its lists holds. -/
structure Channel where
  name : String
  rows : Table Ranked.id

/-- `enumerate(ranked, start=1)`. -/
def enumerate (rows : List Row) : List Ranked := (rows.zipIdx 1).map (fun entry => ⟨entry.2,entry.1⟩)

def mergeRow (rows : Table Ranked.id) (r : Ranked) : Table Ranked.id :=
  match rows.find? r.id with
  | none => rows.upsert r
  | some previous => if r.rank < previous.rank then rows.upsert r else rows

def mergeChannel (merged : Table Channel.name) (c : String × List Row) : Table Channel.name :=
  let rows := ((merged.find? c.1).map Channel.rows).getD .empty
  merged.upsert ⟨c.1,(enumerate c.2).foldl mergeRow rows⟩

def mergedChannels (channels : Channels) : Table Channel.name := channels.foldl mergeChannel .empty

/-- The dict `rows`. -/
def allRows (channels : Channels) : Table Row.id := channels.foldl (fun rows c => c.2.foldl Table.upsert rows) .empty

/-- The greatest of some sizes, 0 where there are none. -/
def referenceSize (merged : Table Channel.name) : Nat :=
  ((merged.rows.filter (·.name ∈ referenceChannels)).map (·.rows.rows.length)).foldr max 0

def vectorSize (merged : Table Channel.name) : Nat := (((merged.find? "vector").map (·.rows.rows.length))).getD 0

def vectorScale (merged : Table Channel.name) : ℚ :=
  if 5 ≤ referenceSize merged ∧ vectorSize merged < referenceSize merged then
    max (1/4) (vectorSize merged / referenceSize merged)
  else 1

def baseWeight (channel : String) : ℚ := (rrfChannelWeights.lookup channel).getD 1

def weight (cfg : Settings) (scale : ℚ) (channel : String) : ℚ :=
  if !cfg.weighted then 1 else if channel = "vector" then baseWeight channel * scale else baseWeight channel

def rrfK (cfg : Settings) : ℤ := max 1 cfg.rrfK

def contribution (cfg : Settings) (scale : ℚ) (channel : String) (rank : Nat) : ℚ :=
  weight cfg scale channel / (rrfK cfg + rank)

/-- The ranks of a memory by channel: the dict `ranks[memory_id]`, in the order of its keys. -/
def channelRanks (merged : Table Channel.name) (id : String) : List (String × Nat) :=
  (merged.rows.filterMap (fun c => (c.rows.find? id).map (fun r => (c.name,r.rank)))).mergeSort (fun a b => a.1 ≤ b.1)

/-- Two texts that are there and normalize to the same. -/
def agree (cfg : Settings) (given held : Option String) : Bool :=
  present given && present held && (given.map cfg.normalizeContent = held.map cfg.normalizeContent)

def boosts (cfg : Settings) (q : Query) (row : Row) : List (ℚ × String) :=
  (if present q.exactKey && row.memoryKey = q.exactKey then [(2/25,"exact_key_boost")] else []) ++
  (if agree cfg q.subject row.subject then [(3/100,"subject_match")] else []) ++
  (if agree cfg q.predicate row.predicate then [(3/100,"predicate_match")] else [])

def policyScore (cfg : Settings) (q : Query) (row : Row) : ℚ := ((boosts cfg q row).map Prod.fst).sum

/-- `MemoryRetrievalHit`. -/
structure Hit where
  memory : Row
  exactRank : Option Nat
  structuredRank : Option Nat
  familyRank : Option Nat
  ftsRank : Option Nat
  trigramRank : Option Nat
  vectorRank : Option Nat
  exactScore : ℚ
  structuredScore : ℚ
  familyScore : ℚ
  ftsScore : ℚ
  trigramScore : ℚ
  vectorScore : ℚ
  rrfScore : ℚ
  policyScore : ℚ
  finalScore : ℚ
  reasons : List String
  channelRanks : List (String × Nat)
  channelScores : List (String × ℚ)
  deriving DecidableEq

/-- `_best_rank`. -/
def bestRank (ranks : List (String × Nat)) (channels : List String) : Option Nat :=
  ((ranks.filter (·.1 ∈ channels)).map Prod.snd).min?

def hitOf (cfg : Settings) (q : Query) (scale : ℚ) (ranks : List (String × Nat)) (row : Row) : Hit :=
  let contributions := ranks.map (fun entry => (entry.1,contribution cfg scale entry.1 entry.2))
  let scoreIn channel := (contributions.lookup channel).getD 0
  let rrfScore := (contributions.map Prod.snd).sum
  { memory := row
    exactRank := ranks.lookup "exact"
    structuredRank := bestRank ranks structuredTraceChannels
    familyRank := ranks.lookup "family"
    ftsRank := ranks.lookup "fts"
    trigramRank := ranks.lookup "trigram"
    vectorRank := ranks.lookup "vector"
    exactScore := scoreIn "exact"
    structuredScore := (structuredTraceChannels.map scoreIn).sum
    familyScore := scoreIn "family"
    ftsScore := scoreIn "fts"
    trigramScore := scoreIn "trigram"
    vectorScore := scoreIn "vector"
    rrfScore
    policyScore := policyScore cfg q row
    finalScore := rrfScore + policyScore cfg q row
    reasons := (boosts cfg q row).map Prod.snd ++
      (if (ranks.lookup "vector").isSome ∧ scale < 1 then ["vector_coverage_scaled"] else []) ++ ranks.map Prod.fst
    channelRanks := ranks
    channelScores := contributions.map (fun entry => (entry.1,roundTo 8 entry.2)) }

/-- The hits of all rows, before they are sorted and cut. -/
def allHits (cfg : Settings) (q : Query) (channels : Channels) : List Hit :=
  let merged := mergedChannels channels
  (allRows channels).rows.map (fun row => hitOf cfg q (vectorScale merged) (channelRanks merged row.id) row)

/-- `reverse=True` on `(final_score, updated_at, id)`: `a` may stand before `b`. -/
def Hit.before (a b : Hit) : Bool :=
  !byThen Hit.finalScore (byThen (·.memory.updatedAt) (less (·.memory.id))) a b

/-- `_rrf_hits`. -/
def rrfHits (cfg : Settings) (q : Query) (channels : Channels) : List Hit :=
  ((allHits cfg q channels).mergeSort Hit.before).take (max 1 (min q.limit 50)).toNat

end Suixinji.Retrieval
