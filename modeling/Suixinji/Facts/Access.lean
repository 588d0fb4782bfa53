import Suixinji.Relational.Checked
import Suixinji.Facts.Schema

/-! Who may read a row (memory/access.py), and the scope a card gets from the
facts it rests on (`evidence_scope`). -/
namespace Suixinji.Facts
open Checked

structure AccessContext where
  requester : Option String := none
  ownerId : Option String := none
  allowSensitive : Bool := false
  allowRestricted : Bool := false
  deriving DecidableEq

/-- What a caller passes as the context: a context, a JSON object or nothing. -/
inductive Supplied where
  | context (ctx : AccessContext)
  | data (requester ownerId owner : Option String) (allowSensitive allowRestricted : Bool)
  | absent
  deriving DecidableEq

/-- `a or b` on texts. -/
def orText (a : Option String) (b : String) : String := (a.filter (· ≠ "")).getD b

/-- `AccessContext.from_value`. -/
def AccessContext.fromValue : Supplied → AccessContext
  | .context ctx => ctx
  | .data requester ownerId owner allowSensitive allowRestricted =>
    { requester := requester.filter (· ≠ "")
      ownerId := some (orText ownerId (orText owner "owner"))
      allowSensitive
      allowRestricted }
  | .absent => { ownerId := some "owner" }

def guardedSensitivities : List String := ["sensitive","secret","restricted","high"]

def accessDecision (lib : Library) (scope : Scope) (context : Supplied) : Bool × String :=
  if scope = [] then (true,"legacy_unscoped_allowed")
  else
    let ctx := AccessContext.fromValue context
    let sensitivity := lib.casefold (orText (scope.get "sensitivity") "normal")
    let accessScope := lib.casefold (orText (scope.get "access_scope") (orText (scope.get "scope") "owner"))
    let owner := orText (scope.get "owner_id") (orText ctx.ownerId "owner")
    let requester := orText ctx.requester "owner"
    if sensitivity ∈ guardedSensitivities ∧ ¬ctx.allowSensitive then (false,"sensitive_denied")
    else if accessScope ∈ ["restricted","private"] ∧ ¬ctx.allowRestricted then (false,"restricted_denied")
    else if accessScope ∈ ["owner","owner_only"] ∧ requester ≠ owner ∧ ¬ctx.allowRestricted then
      (false,"owner_only_denied")
    else (true,"allowed")

def memoryAccessAllowed (lib : Library) (scope : Scope) (context : Supplied) : Bool :=
  (accessDecision lib scope context).1

def accessOrder : List String := ["public","shared","owner","owner_only","private","restricted"]

def sensitivityOrder : List String := ["normal","sensitive","high","secret","restricted"]

/-- `ordered.index(x) if x in ordered else 0`. -/
def rank (ordered : List String) (x : String) : Nat := if x ∈ ordered then ordered.idxOf x else 0

/-- `max(values, key=rank)`: the first value of the highest rank. -/
def maxRanked (ordered : List String) : List String → Option String
  | [] => none
  | v :: vs => some (vs.foldl (fun best x => if rank ordered best < rank ordered x then x else best) v)

/-- `{s[name] for s in scopes if s.get(name)}`, in the order of the scopes. -/
def namedValues (name : String) (scopes : List Scope) : List String := scopes.filterMap (·.truthy name)

def scopeField (name : String) (value : Option String) : Scope :=
  match value with
  | none => []
  | some v => [(name,some v)]

def mergeScopes (scopes : List Scope) : Except String Scope := do
  let owners := (namedValues "owner_id" scopes).eraseDups
  require (owners.length ≤ 1) "cannot merge different owners"
  return scopeField "owner_id" owners.head? ++
    (scopeField "access_scope" (maxRanked accessOrder (namedValues "access_scope" scopes)) ++
      scopeField "sensitivity" (maxRanked sensitivityOrder (namedValues "sensitivity" scopes)))

def evidenceScope (facts : List Fact) : Except String Scope := mergeScopes (facts.map Fact.scope)

end Suixinji.Facts
