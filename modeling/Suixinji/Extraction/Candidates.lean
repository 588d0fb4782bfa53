import Mathlib.Algebra.Order.Ring.Rat
import Mathlib.Data.List.Infix
import Suixinji.Ask.Plan
import Suixinji.Relational.Redact
import Suixinji.Relational.Text

/-! Memory candidates (memory/models.py), as extraction and validation read them. The regexes of the
secrets and the texts that identify a memory are parameters. -/
namespace Suixinji.Extraction
open Text (present)

/-- `MEMORY_TYPES`. -/
inductive MemoryType where
  | episodic
  | semantic
  | preference
  | task
  deriving DecidableEq

/-- `TASK_STATUSES`. -/
inductive TaskStatus where
  | todo
  | done
  deriving DecidableEq

/-- A float. -/
inductive Number where
  | finite (q : ℚ)
  | infinite
  | negInfinite
  | nan
  deriving DecidableEq

/-- `n < q`. -/
def Number.below : Number → ℚ → Bool
  | .finite a,q => a < q
  | .negInfinite,_ => true
  | .infinite,_ | .nan,_ => false

/-- The dict `scope`: the keys that are read or written by name, and the rest of it. -/
structure Scope (σ : Type) where
  taskInput : Bool := false
  /-- `preference_detail`, by its `unresolved_reason`. -/
  preferenceDetail : Option (Option String) := none
  preferenceError : Option String := none
  operation : Option String := none
  atomId : Option String := none
  polarity : Option String := none
  rest : σ
  deriving DecidableEq

/-- The fields of a `MemoryCandidate` that both the validation and the merge read. -/
structure Statement where
  noteId : Option String := none
  memoryType : MemoryType
  content : String
  taskStatus : Option TaskStatus := none
  reason : Option String := none
  extractionReason : Option String := none
  subject : Option String := none
  predicate : Option String := none
  objectValue : Option String := none
  evidenceSpan : Option String := none
  memoryKey : Option String := none
  polarity : Option String := none
  deriving DecidableEq

structure MemoryCandidate (σ : Type) extends Statement where
  candidateId : String
  importance : Number
  confidence : Number
  entities : List String := []
  shouldStore : Bool := true
  scope : Scope σ
  extractorType : String := "rules"
  deriving DecidableEq

/-- What `canonicalize_candidate` computes of a candidate; a field that it leaves is the candidate's. -/
structure Identity (σ : Type) where
  subject : Option String
  predicate : Option String
  objectValue : Option String
  taskStatus : Option TaskStatus
  polarity : Option String
  memoryKey : Option String
  operation : Option String
  scopePolarity : Option String
  rest : σ

structure Library (σ : Type) where
  /-- `casefold`, without what `[\s\W_]+` matches. -/
  folded : String → String
  containsSensitiveData : String → Bool
  memoryKeyFor : MemoryType → Option String → Option String → Option String → String → String
  identity : MemoryCandidate σ → Identity σ

structure Settings where
  minConfidence : ℚ := 9/20
  extractorSchemaV3 : Bool := true
  canonicalKeyV3 : Bool := true
  factMemory : Bool := false

variable {σ : Type}

def droppedTokens : List String := ["用户","我现在","我最近","我","本人","目前","现在","最近"]

def normalizeContent (lib : Library σ) (text : String) : String :=
  String.ofList (droppedTokens.foldl (fun value token => Redact.replaceAll token.toList [] value) (lib.folded text).toList)

namespace Statement

def normalizedContent (lib : Library σ) (c : Statement) : String := normalizeContent lib c.content

def effectiveReason (c : Statement) : Option String := if present c.extractionReason then c.extractionReason else c.reason

def effectiveMemoryKey (lib : Library σ) (c : Statement) : String :=
  if present c.memoryKey then c.memoryKey.getD "" else lib.memoryKeyFor c.memoryType c.subject c.predicate c.objectValue c.content

end Statement

def canonicalizeCandidate (lib : Library σ) (c : MemoryCandidate σ) : MemoryCandidate σ :=
  let i := lib.identity c
  { c with
    subject := i.subject, predicate := i.predicate, objectValue := i.objectValue, taskStatus := i.taskStatus,
    polarity := i.polarity, memoryKey := i.memoryKey,
    scope := {c.scope with operation := i.operation,polarity := i.scopePolarity,rest := i.rest} }

end Suixinji.Extraction
