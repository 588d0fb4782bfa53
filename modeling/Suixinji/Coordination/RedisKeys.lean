import Mathlib.Data.Bool.AllAny
import Mathlib.Data.List.Basic
import Mathlib.Data.Set.Function
import Suixinji.Relational.Quote

/-! The names of all Redis keys (infrastructure/redis_keys.py). The f-strings join quoted parts at
colons; `hash` is the start of the SHA-256 hex digest. -/
namespace Suixinji.Coordination.RedisKeys
open Suixinji.Quote

/-- `_part`. -/
def part (value : String) : String := quote (if value = "" then "unknown" else value)

def join (segments : List String) : String := String.ofList ([':'].intercalate (segments.map String.toList))

section Builders

variable (hash : String → String) (env : String)

/-- `self.prefix`. -/
def head : List String := ["sxj",part env]

def tenant (tenantId : String) : List String := head env ++ ["tenant",part tenantId]

def rateUser (tenantId userId action : String) : List String :=
  tenant env tenantId ++ ["rate","user",part userId,part action]

def rateTenantTokens (tenantId : String) : List String := tenant env tenantId ++ ["rate","llm-tokens"]

def concurrencyLlm (tenantId : String) : List String := tenant env tenantId ++ ["concurrency","llm"]

def idempotency (tenantId source messageId : String) : List String :=
  tenant env tenantId ++ ["idem","message",part source,part messageId]

def lockSpace (tenantId spaceId : String) : List String := tenant env tenantId ++ ["lock","space",part spaceId]

def lockMemory (tenantId memoryId : String) : List String := tenant env tenantId ++ ["lock","memory",part memoryId]

def lockMemoryKey (tenantId spaceId memoryKey : String) : List String :=
  tenant env tenantId ++ ["lock","memory-key",part spaceId,hash memoryKey]

def lockScheduler (jobName : String) : List String := head env ++ ["lock","scheduler",part jobName]

def cacheVersion (tenantId spaceId : String) : List String := tenant env tenantId ++ ["cachever","space",part spaceId]

def cacheSearch (tenantId kind spaceId : String) (version : Int) (queryPayload : String) : List String :=
  tenant env tenantId ++ ["cache",part kind,part spaceId,version.repr,hash queryPayload]

def cacheEmbedding (model text : String) : List String := head env ++ ["cache","embedding",part model,hash text]

def memoryAccessCounts (tenantId : String) : List String := tenant env tenantId ++ ["memory","access","counts"]

def memoryAccessLastSeen (tenantId : String) : List String := tenant env tenantId ++ ["memory","access","last-seen"]

def session (tenantId userId : String) : List String := head env ++ ["session",part tenantId,part userId]

def stream (taskType : String) : List String := head env ++ ["stream",part taskType]

def deadLetterStream : List String := stream env "deadletter"

end Builders

/-- A call of one of the builders, with its names, hashed texts and numbers. -/
inductive Call (α η ν : Type) where
  | tenant (tenantId : α)
  | rateUser (tenantId userId action : α)
  | rateTenantTokens (tenantId : α)
  | concurrencyLlm (tenantId : α)
  | idempotency (tenantId source messageId : α)
  | lockSpace (tenantId spaceId : α)
  | lockMemory (tenantId memoryId : α)
  | lockMemoryKey (tenantId spaceId : α) (memoryKey : η)
  | lockScheduler (jobName : α)
  | cacheVersion (tenantId spaceId : α)
  | cacheSearch (tenantId kind spaceId : α) (version : ν) (queryPayload : η)
  | cacheEmbedding (model : α) (text : η)
  | memoryAccessCounts (tenantId : α)
  | memoryAccessLastSeen (tenantId : α)
  | session (tenantId userId : α)
  | stream (taskType : α)
  | deadLetterStream
  deriving DecidableEq

abbrev Request := Call String String Int

def segments (hash : String → String) (env : String) : Request → List String
  | .tenant t => tenant env t
  | .rateUser t u a => rateUser env t u a
  | .rateTenantTokens t => rateTenantTokens env t
  | .concurrencyLlm t => concurrencyLlm env t
  | .idempotency t s m => idempotency env t s m
  | .lockSpace t s => lockSpace env t s
  | .lockMemory t m => lockMemory env t m
  | .lockMemoryKey t s k => lockMemoryKey hash env t s k
  | .lockScheduler j => lockScheduler env j
  | .cacheVersion t s => cacheVersion env t s
  | .cacheSearch t k s v q => cacheSearch hash env t k s v q
  | .cacheEmbedding m x => cacheEmbedding hash env m x
  | .memoryAccessCounts t => memoryAccessCounts env t
  | .memoryAccessLastSeen t => memoryAccessLastSeen env t
  | .session t u => session env t u
  | .stream x => stream env x
  | .deadLetterStream => deadLetterStream env

def key (hash : String → String) (env : String) (c : Request) : String := join (segments hash env c)

/-- The texts that a call quotes. -/
def Call.named {α η ν : Type} : Call α η ν → List α
  | .tenant t | .rateTenantTokens t | .concurrencyLlm t | .memoryAccessCounts t | .memoryAccessLastSeen t => [t]
  | .rateUser t u a => [t,u,a]
  | .idempotency t s m => [t,s,m]
  | .lockSpace t s | .cacheVersion t s | .lockMemoryKey t s _ => [t,s]
  | .lockMemory t m => [t,m]
  | .lockScheduler j => [j]
  | .cacheSearch t k s _ _ => [t,k,s]
  | .cacheEmbedding m _ => [m]
  | .session t u => [t,u]
  | .stream x => [x]
  | .deadLetterStream => []

def Call.hashed {α η ν : Type} : Call α η ν → List η
  | .lockMemoryKey _ _ k => [k]
  | .cacheSearch _ _ _ _ q => [q]
  | .cacheEmbedding _ x => [x]
  | _ => []

def plain : Request → Request
  | .deadLetterStream => .stream "deadletter"
  | c => c

def Call.map {α η ν α' η' ν' : Type} (f : α → α') (g : η → η') (h : ν → ν') : Call α η ν → Call α' η' ν'
  | .tenant t => .tenant (f t)
  | .rateUser t u a => .rateUser (f t) (f u) (f a)
  | .rateTenantTokens t => .rateTenantTokens (f t)
  | .concurrencyLlm t => .concurrencyLlm (f t)
  | .idempotency t s m => .idempotency (f t) (f s) (f m)
  | .lockSpace t s => .lockSpace (f t) (f s)
  | .lockMemory t m => .lockMemory (f t) (f m)
  | .lockMemoryKey t s k => .lockMemoryKey (f t) (f s) (g k)
  | .lockScheduler j => .lockScheduler (f j)
  | .cacheVersion t s => .cacheVersion (f t) (f s)
  | .cacheSearch t k s v q => .cacheSearch (f t) (f k) (f s) (h v) (g q)
  | .cacheEmbedding m x => .cacheEmbedding (f m) (g x)
  | .memoryAccessCounts t => .memoryAccessCounts (f t)
  | .memoryAccessLastSeen t => .memoryAccessLastSeen (f t)
  | .session t u => .session (f t) (f u)
  | .stream x => .stream (f x)
  | .deadLetterStream => .deadLetterStream

/-- A call with its texts as they stand in the key. -/
def quoted (hash : String → String) (c : Request) : Call String String String := (plain c).map part hash Int.repr

/-- The builder that a key comes from. -/
def read : List String → Option (Call String String String)
  | [_,_,"tenant",t] => some (.tenant t)
  | [_,_,"tenant",t,"rate","user",u,a] => some (.rateUser t u a)
  | [_,_,"tenant",t,"rate","llm-tokens"] => some (.rateTenantTokens t)
  | [_,_,"tenant",t,"concurrency","llm"] => some (.concurrencyLlm t)
  | [_,_,"tenant",t,"idem","message",s,m] => some (.idempotency t s m)
  | [_,_,"tenant",t,"lock","space",s] => some (.lockSpace t s)
  | [_,_,"tenant",t,"lock","memory",m] => some (.lockMemory t m)
  | [_,_,"tenant",t,"lock","memory-key",s,k] => some (.lockMemoryKey t s k)
  | [_,_,"lock","scheduler",j] => some (.lockScheduler j)
  | [_,_,"tenant",t,"cachever","space",s] => some (.cacheVersion t s)
  | [_,_,"tenant",t,"cache",k,s,v,q] => some (.cacheSearch t k s v q)
  | [_,_,"cache","embedding",m,x] => some (.cacheEmbedding m x)
  | [_,_,"tenant",t,"memory","access","counts"] => some (.memoryAccessCounts t)
  | [_,_,"tenant",t,"memory","access","last-seen"] => some (.memoryAccessLastSeen t)
  | [_,_,"session",t,u] => some (.session t u)
  | [_,_,"stream",x] => some (.stream x)
  | _ => none

theorem read_segments (hash : String → String) (env : String) (c : Request) : read (segments hash env c) = some (quoted hash c) := by
  cases c <;> rfl

/-- What the start of a hex digest consists of. -/
def Hex (text : String) : Prop := ∀ c ∈ text.toList, c.isDigit = true ∨ c ∈ ['a','b','c','d','e','f']

/-- All quoted texts of a call are there. -/
def Call.Filled {η ν : Type} (c : Call String η ν) : Prop := ∀ value ∈ c.named, value ≠ ""

theorem part_clean (value : String) : ':' ∉ (part value).toList := by
  intro inside
  rcases mem_quote inside with letter | mark
  · exact absurd letter (by decide)
  · exact absurd mark (by decide)

theorem part_injective {a b : String} (filledA : a ≠ "") (filledB : b ≠ "") (same : part a = part b) : a = b := by
  have quotes := quote_injective same
  rwa [if_neg filledA,if_neg filledB] at quotes

theorem hex_clean {text : String} (hex : Hex text) : ':' ∉ text.toList := by
  intro inside
  rcases hex _ inside with digit | letter
  · exact absurd digit (by decide)
  · exact absurd letter (by decide)

theorem repr_clean (version : Int) : ':' ∉ version.repr.toList := by
  have digits (n : Nat) : ':' ∉ n.repr.toList := by
    intro inside
    rw [Nat.repr,String.toList_ofList] at inside
    exact absurd (Nat.isDigit_of_mem_toDigits (by decide) (by decide) inside) (by decide)
  rw [Int.repr_eq_if]
  split
  · exact digits _
  · rw [String.toList_append,List.mem_append]
    exact fun inside => inside.elim (by decide) (digits _)

theorem segments_clean {hash : String → String} (hex : ∀ text, Hex (hash text)) (env : String) (c : Request) :
    ∀ segment ∈ segments hash env c, ':' ∉ segment.toList := by
  have parts := part_clean
  have hashes (text : String) := hex_clean (hex text)
  have versions := repr_clean
  cases c <;>
    simp [segments,tenant,rateUser,rateTenantTokens,concurrencyLlm,idempotency,lockSpace,lockMemory,lockMemoryKey,lockScheduler,
      cacheVersion,cacheSearch,cacheEmbedding,memoryAccessCounts,memoryAccessLastSeen,session,stream,deadLetterStream,head,
      parts,hashes,versions]

theorem segments_of_key {hash : String → String} (hex : ∀ text, Hex (hash text)) {env : String} {c c' : Request}
    (same : key hash env c = key hash env c') : segments hash env c = segments hash env c' := by
  have clean (c : Request) : ∀ segment ∈ (segments hash env c).map String.toList, ':' ∉ segment := by
    intro segment inside
    obtain ⟨text,member,rfl⟩ := List.mem_map.mp inside
    exact segments_clean hex env c text member
  have some_segment (c : Request) : (segments hash env c).map String.toList ≠ [] := by
    cases c <;> exact List.cons_ne_nil _ _
  have lists := join_injective (clean c) (clean c') (some_segment c) (some_segment c') (String.ofList_injective same)
  exact List.map_injective_iff.mpr (fun _ _ => String.toList_inj.mp) lists

theorem Call.map_map {α η ν α' η' ν' : Type} {f : α → α'} {g : η → η'} {h : ν → ν'} {f' : α' → α} {g' : η' → η} {h' : ν' → ν}
    {c : Call α η ν} (names : ∀ a ∈ c.named, f' (f a) = a) (hashes : ∀ a ∈ c.hashed, g' (g a) = a)
    (numbers : ∀ v, h' (h v) = v) : (c.map f g h).map f' g' h' = c := by
  cases c <;> simp_all [Call.map,Call.named,Call.hashed]

theorem hashed_plain (c : Request) : (plain c).hashed = c.hashed := by
  cases c <;> rfl

theorem segments_plain (hash : String → String) (env : String) (c : Request) : segments hash env (plain c) = segments hash env c := by
  cases c <;> rfl

theorem plain_of_ne {c : Request} (other : c ≠ .deadLetterStream) : plain c = c := by
  cases c with
  | deadLetterStream => exact absurd rfl other
  | _ => rfl

theorem filled_plain {c : Request} (filled : c.Filled) : (plain c).Filled := by
  cases c with
  | deadLetterStream =>
    intro value inside
    rw [List.mem_singleton.mp inside]
    decide
  | _ => exact filled

theorem plain_eq_iff {c c' : Request} : plain c = plain c' ↔
    c = c' ∨ c = .deadLetterStream ∧ c' = .stream "deadletter" ∨ c' = .deadLetterStream ∧ c = .stream "deadletter" := by
  by_cases first : c = .deadLetterStream <;> by_cases second : c' = .deadLetterStream
  · simp [first,second]
  · simp [first,plain,second,eq_comm]
  · simp [second,plain,first]
  · simp [plain_of_ne first,plain_of_ne second,first,second]

/-- For every environment, two calls name one key exactly if they are the same call, or the dead
letter stream and the stream of that name. -/
theorem key_eq_iff (hash : String → String) (hex : ∀ text, Hex (hash text)) (env : String) (c c' : Request)
    (filled : c.Filled) (filled' : c'.Filled)
    (apart : ∀ a ∈ c.hashed ++ c'.hashed, ∀ b ∈ c.hashed ++ c'.hashed, hash a = hash b → a = b) :
    key hash env c = key hash env c' ↔
      c = c' ∨ c = .deadLetterStream ∧ c' = .stream "deadletter" ∨ c' = .deadLetterStream ∧ c = .stream "deadletter" := by
  rw [← plain_eq_iff]
  constructor
  · intro same
    have read_same : quoted hash c = quoted hash c' := by
      have segments_same := segments_of_key hex same
      rw [← Option.some_inj,← read_segments hash env c,← read_segments hash env c',segments_same]
    have parts : Set.InjOn part {a | a ≠ ""} := fun a filledA b filledB same => part_injective filledA filledB same
    have hashes : Set.InjOn hash {a | a ∈ c.hashed ++ c'.hashed} := fun a insideA b insideB same => apart a insideA b insideB same
    have unpart := parts.leftInvOn_invFunOn
    have unhash := hashes.leftInvOn_invFunOn
    have back : plain c = (quoted hash c).map _ _ _ := (Call.map_map (fun a inside => unpart (filled_plain filled a inside))
      (fun a inside => unhash (List.mem_append_left _ (hashed_plain c ▸ inside))) intOf_repr).symm
    have back' : plain c' = (quoted hash c').map _ _ _ := (Call.map_map (fun a inside => unpart (filled_plain filled' a inside))
      (fun a inside => unhash (List.mem_append_right _ (hashed_plain c' ▸ inside))) intOf_repr).symm
    rw [back,back',read_same]
  · intro same
    rw [key,key,← segments_plain hash env c,← segments_plain hash env c',same]

/-- The SHA-256 digests of two texts. -/
theorem key_eq_iff_of_embeddings :
    let digest := fun text => if text = "a" then "ca978112ca1bbdcafac231b3" else "3e23e8160039594a33894f65"
    key digest "prod" (.cacheEmbedding "m" "a") = key digest "prod" (.cacheEmbedding "m" "b") ↔
      Call.cacheEmbedding "m" "a" = (.cacheEmbedding "m" "b" : Request) ∨
        Call.cacheEmbedding "m" "a" = (.deadLetterStream : Request) ∧ Call.cacheEmbedding "m" "b" = (.stream "deadletter" : Request) ∨
        Call.cacheEmbedding "m" "b" = (.deadLetterStream : Request) ∧ Call.cacheEmbedding "m" "a" = (.stream "deadletter" : Request) := by
  intro digest
  refine key_eq_iff digest ?_ "prod" _ _ ?_ ?_ ?_
  · intro text
    dsimp only [digest]
    split
    · exact List.all_iff_forall_prop.mp (by decide)
    · exact List.all_iff_forall_prop.mp (by decide)
  · exact List.all_iff_forall_prop.mp (by decide)
  · exact List.all_iff_forall_prop.mp (by decide)
  · simp [Call.hashed,digest]

theorem dead_letter_stream_collides : ¬∀ hash : String → String, Function.Injective hash → ∀ (env : String) (c c' : Request),
    c.Filled → c'.Filled → key hash env c = key hash env c' → c = c' := by
  intro distinct
  have same := distinct id Function.injective_id "prod" .deadLetterStream (.stream "deadletter")
    (fun _ inside => absurd inside List.not_mem_nil) (filled_plain (c := .deadLetterStream) (fun _ inside => absurd inside List.not_mem_nil)) rfl
  cases same

end Suixinji.Coordination.RedisKeys
