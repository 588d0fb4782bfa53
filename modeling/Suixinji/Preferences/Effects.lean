import Suixinji.Memories.Applied
import Suixinji.Memories.Writes
import Suixinji.Relational.Evolution
import Suixinji.Relational.Forest
import Suixinji.Relational.Optimistic
import Suixinji.Preferences.System

/-! What each transaction does to the rows of the cards, and the form they always have. -/
namespace Suixinji.Preferences
open Relational Checked Memories

variable {rt : Runtime} {t : Texts} {s s' : Store Scope} {w : Write} {m m' row : Row} {newId : MemoryId} {now : Time}

/-! ### The form of the rows -/

/-- The row of a card: its key is that of the card, and a card that is merged has no active detail left. -/
structure Carded (t : Texts) (m : Row) : Prop where
  memoryType : m.memoryType = .preference
  version : m.memoryKeyVersion = .preferenceCardV1
  key : m.memoryKey = some (t.cardKey m.scope.card.subject m.scope.card.preferenceObject m.scope.card.ownerId)
  subject : m.subject = some m.scope.card.subject
  ownerId : m.scope.ownerId = m.scope.card.ownerId
  quiet : m.scope.card.mergedInto.isSome → m.scope.card.activeDetails = []

/-- A later version of the row of a card. -/
structure Rewritten (t : Texts) (m m' : Row) : Prop where
  id : m'.id = m.id
  spaceId : m'.spaceId = m.spaceId
  later : m.currentVersion < m'.currentVersion
  subject : m'.scope.card.subject = m.scope.card.subject
  preferenceObject : m'.scope.card.preferenceObject = m.scope.card.preferenceObject
  ownerId : m'.scope.card.ownerId = m.scope.card.ownerId
  carded : Carded t m → Carded t m'

theorem Rewritten.trans {m'' : Row} (first : Rewritten t m m') (second : Rewritten t m' m'') : Rewritten t m m'' where
  id := second.id.trans first.id
  spaceId := second.spaceId.trans first.spaceId
  later := Nat.lt_trans first.later second.later
  subject := second.subject.trans first.subject
  preferenceObject := second.preferenceObject.trans first.preferenceObject
  ownerId := second.ownerId.trans first.ownerId
  carded carded := second.carded (first.carded carded)

/-- The row as it was, or a later version of it. -/
def Kept (t : Texts) (m m' : Row) : Prop := m' = m ∨ Rewritten t m m'

/-- Every row stays, in this version or a later one; a new row is that of a card. -/
abbrev Progresses (t : Texts) (s s' : Store Scope) : Prop := s.memories.Evolves (Kept t) (Carded t) s'.memories

theorem Progresses.refl (same : s'.memories = s.memories) : Progresses t s s' := by
  unfold Progresses
  rw [same]
  exact .refl (fun m _ => .inl rfl)

theorem Progresses.trans {s'' : Store Scope} (first : Progresses t s s') (second : Progresses t s' s'') : Progresses t s s'' := by
  refine Table.Evolves.trans first second (fun one other => ?_) (fun _ carded kept => ?_)
  · rcases one with rfl | one
    · exact other
    · rcases other with rfl | other
      · exact .inr one
      · exact .inr (one.trans other)
  · rcases kept with rfl | kept
    · exact carded
    · exact kept.carded carded

theorem Progresses.later (progresses : Progresses t s s') : Optimistic.Later Memory.currentVersion s.memories s'.memories := by
  intro m member
  obtain ⟨m',there,same,kept⟩ := progresses.kept m member
  exact ⟨m',there,same,kept.symm.imp_left Rewritten.later⟩

/-- The row was read: it is in the store as it is, or in a later version. -/
def Seen (t : Texts) (s : Store Scope) (row : Row) : Prop := ∃ m ∈ s.memories, m.id = row.id ∧ Kept t row m

theorem Seen.of_mem (member : m ∈ s.memories) : Seen t s m := ⟨m,member,rfl,.inl rfl⟩

theorem Seen.later (seen : Seen t s row) (progresses : Progresses t s s') : Seen t s' row := by
  obtain ⟨m,member,same,kept⟩ := seen
  obtain ⟨m',there,same',kept'⟩ := progresses.kept m member
  refine ⟨m',there,same'.trans same,?_⟩
  rcases kept with rfl | kept
  · exact kept'
  · rcases kept' with rfl | kept'
    · exact .inr kept
    · exact .inr (kept.trans kept')

theorem Seen.known (seen : Seen t s row) : Optimistic.Known Memory.currentVersion s.memories row := by
  obtain ⟨m,member,same,kept⟩ := seen
  exact ⟨m,member,same,kept.symm.imp_left Rewritten.later⟩

/-! ### Links of merged cards -/

def link (s : Store Scope) (id : MemoryId) : Option MemoryId := (s.memories.find? id).bind (fun m => m.scope.card.mergedInto)

theorem link_mem (member : m ∈ s.memories) : link s m.id = m.scope.card.mergedInto := by
  rw [link,Table.find?_mem member,Option.bind_some]

/-- Two cards of one space, about one subject and of one owner. -/
structure Akin (m n : Row) : Prop where
  spaceId : n.spaceId = m.spaceId
  subject : n.scope.card.subject = m.scope.card.subject
  ownerId : n.scope.card.ownerId = m.scope.card.ownerId

theorem Akin.kept {n n' : Row} (akin : Akin m n) (kept : Kept t m m') (kept' : Kept t n n') : Akin m' n' := by
  have same : ∀ {m m' : Row}, Kept t m m' → Akin m m' := by
    intro m m' kept
    rcases kept with rfl | kept
    · exact ⟨rfl,rfl,rfl⟩
    · exact ⟨kept.spaceId,kept.subject,kept.ownerId⟩
  obtain ⟨space,subject,owner⟩ := same kept
  obtain ⟨space',subject',owner'⟩ := same kept'
  exact ⟨by rw [space',akin.spaceId,space],by rw [subject',akin.subject,subject],by rw [owner',akin.ownerId,owner]⟩

/-- The cards of the store, each under a key of its own; a merged one leads, by one link or
several, to one of the same subject and owner that is not merged. -/
structure Wellformed (t : Texts) (s : Store Scope) : Prop where
  cards : ∀ m ∈ s.memories, Carded t m
  apart : s.cardsApart
  linked : ∀ m ∈ s.memories, ∀ id, link s m.id = some id → ∃ n ∈ s.memories, n.id = id ∧ Akin m n
  ended : ∀ id, ∃ r, Forest.Ends (link s) id r

/-- How the links change: not at all, or one card is merged into another of its kind. -/
inductive Relinks (s s' : Store Scope) : Prop
  | still (same : ∀ id, link s' id = link s id)
  | merged {root target : Row} (inside : root ∈ s.memories) (there : target ∈ s.memories) (apart : target.id ≠ root.id)
      (akin : Akin root target) (unmerged : link s target.id = none) (grafted : Forest.Grafted (link s) (link s') root.id target.id)

/-- What a transaction on the cards does. -/
structure Advances (t : Texts) (s s' : Store Scope) : Prop where
  progresses : Progresses t s s'
  apart : s.cardsApart → s'.cardsApart
  relinks : Relinks s s'

theorem Relinks.mono (relinks : Relinks s s') {a b : MemoryId} (step : link s a = some b) : link s' a = some b := by
  cases relinks with
  | still same => rw [same,step]
  | merged _ _ _ _ _ grafted => exact grafted.mono a b step

theorem Advances.of_memories (same : s'.memories = s.memories) : Advances t s s' := by
  refine ⟨.refl same,fun apart => ?_,.still (fun id => by rw [link,link,same])⟩
  unfold Store.cardsApart
  rwa [same]

theorem Wellformed.advances (wellformed : Wellformed t s) (advances : Advances t s s') : Wellformed t s' := by
  obtain ⟨cards,apart,linked,ended⟩ := wellformed
  obtain ⟨progresses,still_apart,relinks⟩ := advances
  have successor : ∀ m ∈ s.memories, ∀ n ∈ s.memories, Akin m n → ∀ m' ∈ s'.memories, m'.id = m.id →
      ∃ n' ∈ s'.memories, n'.id = n.id ∧ Akin m' n' := by
    intro m member n there akin m' member' same
    obtain ⟨n',there',same',kept⟩ := progresses.kept n there
    exact ⟨n',there',same',akin.kept (progresses.successor member member' same) kept⟩
  refine ⟨?_,still_apart apart,fun m' member' id linked' => ?_,fun id => ?_⟩
  · refine progresses.forall_mem cards (fun m _ m' carded kept => ?_) (fun _ carded => carded)
    rcases kept with rfl | kept
    · exact carded
    · exact kept.carded carded
  · have before : link s m'.id = some id → ∃ n' ∈ s'.memories, n'.id = id ∧ Akin m' n' := by
      intro step
      obtain ⟨m,found,_⟩ := Option.bind_eq_some_iff.mp step
      obtain ⟨member,same⟩ := Table.find?_eq_some.mp found
      obtain ⟨n,there,rfl,akin⟩ := linked m member id (by rw [same]; exact step)
      exact successor m member n there akin m' member' same.symm
    cases relinks with
    | still same => exact before (by rw [← same]; exact linked')
    | @merged root target inside there _ akin _ grafted =>
      by_cases here : m'.id = root.id
      · rw [here,grafted.linked] at linked'
        obtain rfl := Option.some.inj linked'
        exact successor root inside target there akin m' member' here
      · exact before (by rw [← grafted.others _ here]; exact linked')
  · obtain ⟨r,ends⟩ := ended id
    cases relinks with
    | still same => exact ⟨r,by rw [show link s' = link s from funext same]; exact ends⟩
    | merged _ _ apart _ unmerged grafted => exact ⟨_,ends.grafted grafted (.refl unmerged) apart⟩

/-! ### Single updates -/

section
variable {c : Changes Scope} {reason : Option String} {sourceNoteId : Option NoteId} {notes : List NoteId} {id : MemoryId}

theorem versionedUpdate_progresses (ok : versionedUpdate rt.lib id c reason sourceNoteId now s notes = .ok s')
    (rewritten : ∀ m, s.memories.find? id = some m → Rewritten t m (m.changed rt.lib c now)) :
    Progresses t s s' ∧ (s.cardsApart → s'.cardsApart) ∧
      ∀ k, s'.memories.find? k = (s.memories.find? k).map (fun m => if k = id then m.changed rt.lib c now else m) := by
  obtain ⟨m,found,alone,rfl⟩ := versionedUpdate_ok.mp ok
  obtain ⟨member,rfl⟩ := Table.find?_eq_some.mp found
  refine ⟨.put_of_mem member rfl (.inr (rewritten m found)) (fun _ _ _ => .inl rfl),fun apart => cardsApart_put apart alone rfl,
    fun k => ?_⟩
  refine (find?_changed found k).trans ?_
  split
  · rename_i same
    rw [same,found,Option.map_some]
  · simp

/-- A change of columns that leaves the card alone. -/
def Plain (c : Changes Scope) : Prop :=
  c.scope = none ∧ c.memoryKey = none ∧ c.memoryKeyVersion = none ∧ c.subject = none

theorem Plain.rewritten (plain : Plain c) (card : m.memoryKeyVersion = .preferenceCardV1) :
    Rewritten t m (m.changed rt.lib c now) ∧ (m.changed rt.lib c now).scope = m.scope := by
  obtain ⟨scope,key,version,subject⟩ := plain
  have same : (m.changed rt.lib c now).scope = m.scope := by simp [Memory.changed,scope]
  refine ⟨⟨rfl,rfl,Nat.lt_succ_self _,by rw [same],by rw [same],by rw [same],fun carded => ?_⟩,same⟩
  refine ⟨carded.memoryType,?_,?_,?_,?_,?_⟩
  · simpa [Memory.changed,version] using card
  · rw [same,← carded.key]
    cases content : c.content <;> simp [Memory.changed,key,content,Memory.rekeyed,card,KeyVersion.keyKept]
  · rw [same,← carded.subject]
    simp [Memory.changed,subject]
  · rw [same]
    exact carded.ownerId
  · rw [same]
    exact carded.quiet

theorem writes_progresses {ls : List (MemoryId × Changes Scope)} (writes : Writes rt.lib now s ls s')
    (plain : ∀ l ∈ ls, Plain l.2) (cards : ∀ m ∈ s.memories, Carded t m) :
    Progresses t s s' ∧ (s.cardsApart → s'.cardsApart) ∧
      ∀ k, (s'.memories.find? k).map Memory.scope = (s.memories.find? k).map Memory.scope := by
  induction writes with
  | nil => exact ⟨.refl rfl,id,fun _ => rfl⟩
  | @update s u v id c ls _ _ _ head tail ih =>
    have changes : ∀ m, s.memories.find? id = some m →
        Rewritten t m (m.changed rt.lib c now) ∧ (m.changed rt.lib c now).scope = m.scope :=
      fun m found => Plain.rewritten (plain _ List.mem_cons_self) (cards m (Table.find?_eq_some.mp found).1).version
    obtain ⟨first,apart,found⟩ := versionedUpdate_progresses head (fun m there => (changes m there).1)
    obtain ⟨rest,apart',found'⟩ := ih (fun l member => plain l (List.mem_cons_of_mem _ member))
      (first.forall_mem cards (fun m _ m' carded kept => by
        rcases kept with rfl | kept
        · exact carded
        · exact kept.carded carded) (fun _ carded => carded))
    refine ⟨first.trans rest,fun held => apart' (apart held),fun k => ?_⟩
    rw [found',found,Option.map_map]
    cases there : s.memories.find? k with
    | none => rfl
    | some m =>
      simp only [Option.map_some,Function.comp_apply,Option.some.injEq]
      split
      · rename_i same
        subst same
        exact (changes m there).2
      · rfl
  | @aside s u v ls memories _ _ ih =>
    obtain ⟨rest,apart,found⟩ := ih plain (by rw [memories]; exact cards)
    refine ⟨(Progresses.refl memories).trans rest,fun held => apart ?_,fun k => ?_⟩
    · unfold Store.cardsApart
      rwa [memories]
    · rw [found,memories]

end

/-! ### Commands -/

theorem expireDueMemories_plain {ids : List MemoryId} (ok : expireDueMemories rt.lib ids now s = .ok s') :
    ∃ ls, Writes rt.lib now s ls s' ∧ ∀ l ∈ ls, Plain l.2 := by
  obtain ⟨_,_,fold⟩ := bind_ok.mp ok
  clear * - fold
  induction ids generalizing s with
  | nil =>
    cases fold
    exact ⟨[],.nil,by simp⟩
  | cons id ids ih =>
    rw [List.foldlM_cons] at fold
    obtain ⟨u,head,tail⟩ := bind_ok.mp fold
    obtain ⟨m,_,update⟩ := bind_ok.mp head
    obtain ⟨ls,writes,plain⟩ := ih tail
    refine ⟨_,.update update writes,fun l member => ?_⟩
    rcases List.mem_cons.mp member with rfl | later
    · exact ⟨rfl,rfl,rfl,rfl⟩
    · exact plain l later

/-- A command that a card can meet changes columns beside its card, and the other tables. -/
theorem command_writes {c : Command Scope} (plain : plain c) (ok : execute rt.lib s c = .ok s') :
    ∃ ls now u, Writes rt.lib now s ls u ∧ (∀ l ∈ ls, Plain l.2) ∧ s'.memories = u.memories := by
  have single : ∀ {id : MemoryId} {c : Changes Scope}, Plain c → ∀ l ∈ [(id,c)], Plain l.2 := fun plain l member => by
    rw [List.mem_singleton.mp member]
    exact plain
  cases c with
  | addSource id noteId relation =>
    cases ok
    refine ⟨[],0,s,.nil,by simp,?_⟩
    unfold addSourceCommand
    split
    · rfl
    · simp only
      split <;> rfl
  | correct id content taskStatus now =>
    rcases correctMemory_writes ok with rfl | ⟨resolved,writes⟩
    · exact ⟨[],now,_,.nil,by simp,rfl⟩
    · exact ⟨_,now,_,writes,single ⟨rfl,rfl,rfl,rfl⟩,rfl⟩
  | softDelete id now =>
    simp only [execute,softDeleteMemory,updateMemory] at ok
    split at ok
    · cases ok
      exact ⟨[],now,_,.nil,by simp,rfl⟩
    · obtain ⟨u,update,last⟩ := bind_ok.mp ok
      cases last
      exact ⟨_,now,u,.single update,single ⟨rfl,rfl,rfl,rfl⟩,rfl⟩
  | expire ids now =>
    obtain ⟨ls,writes,plain⟩ := expireDueMemories_plain ok
    exact ⟨ls,now,_,writes,plain,rfl⟩
  | resolve id resolution now =>
    rcases resolveMemoryConflict_writes ok with rfl | writes
    · exact ⟨[],now,_,.nil,by simp,rfl⟩
    · refine ⟨_,now,_,writes,single ?_,rfl⟩
      cases resolution <;> exact ⟨rfl,rfl,rfl,rfl⟩
  | reject id now =>
    rcases rejectPendingMemory_writes ok with rfl | ⟨_,writes⟩
    · exact ⟨[],now,_,.nil,by simp,rfl⟩
    · exact ⟨_,now,_,writes,single ⟨rfl,rfl,rfl,rfl⟩,rfl⟩
  | edit id content now =>
    obtain ⟨⟨approves,u⟩,edited,last⟩ := bind_ok.mp ok
    cases last
    rcases editPendingMemory_writes edited with rfl | ⟨_,taskStatus,writes⟩
    · exact ⟨[],now,_,.nil,by simp,rfl⟩
    · exact ⟨_,now,_,writes,single ⟨rfl,rfl,rfl,rfl⟩,rfl⟩
  | _ => cases plain

theorem command_progresses {c : Command Scope} (plain : plain c) (ok : execute rt.lib s c = .ok s')
    (cards : ∀ m ∈ s.memories, Carded t m) : Progresses t s s' ∧ (s.cardsApart → s'.cardsApart) ∧
      ∀ k, (s'.memories.find? k).map Memory.scope = (s.memories.find? k).map Memory.scope := by
  obtain ⟨ls,now,u,writes,plain,same⟩ := command_writes plain ok
  obtain ⟨progresses,apart,found⟩ := writes_progresses writes plain cards
  refine ⟨progresses.trans (.refl same),fun held => ?_,by rw [same]; exact found⟩
  unfold Store.cardsApart
  rw [same]
  exact apart held

/-! ### Writing one card -/

section
variable (rt w newId now)

def Write.inserted : Row := (w.call rt newId now).candidate.row rt.lib newId w.spaceId .active now

def Write.updated (m : Row) : Row := m.changed rt.lib ((w.call rt newId now).mutation rt.lib (w.call rt newId now).decision m) now

def Write.key : String := rt.t.cardKey w.card.subject w.card.preferenceObject w.card.ownerId

end

@[simp] theorem projected_subject (c : Card) : (c.projected t).subject = c.subject := rfl
@[simp] theorem projected_preferenceObject (c : Card) : (c.projected t).preferenceObject = c.preferenceObject := rfl
@[simp] theorem projected_ownerId (c : Card) : (c.projected t).ownerId = c.ownerId := rfl
@[simp] theorem projected_details (c : Card) : (c.projected t).details = c.details := rfl
@[simp] theorem projected_mergedInto (c : Card) : (c.projected t).mergedInto = c.mergedInto := rfl
@[simp] theorem projected_changes (c : Card) : (c.projected t).changes = c.changes := rfl

theorem cardKey_given (subject target owner : String) : t.cardKey subject target owner ≠ "" := by
  intro empty
  have length := congrArg (fun text => text.toList.length) empty
  simp [Texts.cardKey] at length

theorem Write.effectiveKey : (w.call rt newId now).candidate.effectiveMemoryKey rt.lib = w.key rt := by
  have given : (rt.t.cardKey w.card.subject w.card.preferenceObject w.card.ownerId) ≠ "" := cardKey_given _ _ _
  simp [Candidate.effectiveMemoryKey,Write.call,Write.key,Option.filter,given]

theorem Write.inserted_carded (unmerged : w.card.mergedInto = none) : Carded rt.t (w.inserted rt newId now) where
  memoryType := rfl
  version := rfl
  key := congrArg some Write.effectiveKey
  subject := rfl
  ownerId := rfl
  quiet := fun merged => by
    change w.card.mergedInto.isSome at merged
    rw [unmerged] at merged
    cases merged

theorem Write.rewritten (subject : w.card.subject = m.scope.card.subject)
    (preferenceObject : w.card.preferenceObject = m.scope.card.preferenceObject) (ownerId : w.card.ownerId = m.scope.card.ownerId)
    (quiet : w.card.mergedInto.isSome → m.scope.card.activeDetails = [] → w.card.activeDetails = [])
    (merged : w.card.mergedInto = m.scope.card.mergedInto)
    (updates : w.current.isSome) : Rewritten rt.t m (w.updated rt newId now m) := by
  have action : (w.call rt newId now).decision.recommendedAction = .update := if_pos updates
  refine ⟨rfl,rfl,Nat.lt_succ_self _,subject,preferenceObject,ownerId,fun carded => ⟨carded.memoryType,rfl,?_,?_,rfl,fun held => ?_⟩⟩
  · exact congrArg some Write.effectiveKey
  · simp only [Write.updated,Memory.changed,ApplyCall.mutation,action]
    refine carded.subject.trans (congrArg some ?_)
    exact subject.symm
  · change w.card.mergedInto.isSome at held
    exact quiet held (carded.quiet (merged ▸ held))

/-- What the transaction of `_persist` leaves of the rows. -/
inductive Write.Applied (rt : Runtime) (w : Write) (newId : MemoryId) (now : Time) (s s' : Store Scope) : Prop
  | kept (same : s'.memories = s.memories)
  | inserted (new : w.current = none) (fresh : ∀ m ∈ s.memories, ¬(m.spaceId = w.spaceId ∧ m.memoryKey = some (w.key rt)))
      (rows : s.memories.insert (w.inserted rt newId now) = some s'.memories) (apart : s.cardsApart → s'.cardsApart)
  | updated {row m : Row} (current : w.current = some row) (there : s.memories.find? row.id = some m)
      (unmoved : m.currentVersion = row.currentVersion)
      (rows : s'.memories = s.memories.put (w.updated rt newId now m)) (apart : s.cardsApart → s'.cardsApart)

/-- What was read is not there any more as it was read: a card of another version, or a card where there was none. -/
def Write.Outdated (rt : Runtime) (w : Write) (s : Store Scope) : Prop :=
  match w.current with
  | some row => ∃ m, s.memories.find? row.id = some m ∧ m.currentVersion ≠ row.currentVersion
  | none => ∃ m ∈ s.memories, m.spaceId = w.spaceId ∧ m.memoryKey = some (w.key rt)

theorem call_target : (w.call rt newId now).target s = match w.current with
    | none => .ok none
    | some row => do return some (← demand (s.memories.find? row.id) (.valueError s!"decision target memory not found: {row.id}")) := by
  unfold ApplyCall.target Write.call
  cases w.current <;> rfl

theorem Write.outdated (outdated : w.Outdated rt s) :
    (applyMemoryDecision rt.lib (w.call rt newId now) s).2 = s ∧
      ∀ r, (applyMemoryDecision rt.lib (w.call rt newId now) s).1 = .ok r → r.idempotent := by
  unfold applyMemoryDecision
  cases prior : s.prior (w.call rt newId now).spaceId (w.call rt newId now).candidate.candidateId with
  | some row =>
    have replayed : applyInSession rt.lib (w.call rt newId now) s = .ok (row.replay,s) := by simp only [applyInSession,prior]
    rw [replayed]
    exact ⟨rfl,fun r same => by cases same; rfl⟩
  | none =>
    have refused : ∃ text, applyInSession rt.lib (w.call rt newId now) s = .error (.cardVersionConflict text) := by
      simp only [applyInSession,prior,call_target]
      unfold Outdated at outdated
      cases current : w.current with
      | none =>
        rw [current] at outdated
        obtain ⟨m,member,same,key⟩ := outdated
        have created : (w.call rt newId now).created s := ⟨by simp [Write.call,current],m,member,same,key⟩
        refine ⟨"card concurrently created",?_⟩
        have cards : (w.call rt newId now).candidate.memoryKeyVersion = .preferenceCardV1 := rfl
        simp [ApplyCall.checkCards,cards,KeyVersion.taskCard,created,require,bind,Except.bind]
      | some row =>
        rw [current] at outdated
        obtain ⟨m,there,moved⟩ := outdated
        refine ⟨"card version changed",?_⟩
        have cards : (w.call rt newId now).candidate.memoryKeyVersion = .preferenceCardV1 := rfl
        have created : ¬(w.call rt newId now).created s := fun created => by simp [ApplyCall.created,Write.call,current] at created
        have known : (w.call rt newId now).decision.targetSnapshotVersion = some row.currentVersion := by simp [Write.call,current]
        simp [ApplyCall.checkCards,cards,KeyVersion.taskCard,created,known,there,moved,require,demand,bind,Except.bind,pure,Except.pure]
    obtain ⟨text,refused⟩ := refused
    rw [refused]
    exact ⟨rfl,fun r same => by cases same⟩

theorem Write.applied {r : Except Error Result} (ok : applyMemoryDecision rt.lib (w.call rt newId now) s = (r,s')) :
    w.Applied rt newId now s s' := by
  by_cases outdated : w.Outdated rt s
  · have same : (applyMemoryDecision rt.lib (w.call rt newId now) s).2 = s := (Write.outdated outdated).1
    rw [ok] at same
    exact .kept (congrArg Store.memories same)
  · unfold applyMemoryDecision at ok
    split at ok
    · rename_i result u applied
      cases ok
      rcases applyInSession_ok.mp applied with ⟨prior,_,_,rfl⟩ | ⟨_,target,chosen,passed,ids,u,done,saved⟩
      · exact .kept rfl
      · obtain ⟨decisions,rfl⟩ := saveDecision_frame saved
        rw [call_target] at chosen
        unfold Outdated at outdated
        cases current : w.current with
        | none =>
          rw [current] at chosen outdated
          cases chosen
          have action : (w.call rt newId now).decision.recommendedAction = .insert := by simp [Write.call,current]
          have performed : insertDecided rt.lib (w.call rt newId now) (w.call rt newId now).decision .active s = .ok (result,ids,u) := by
            rw [← done]
            simp only [perform,ApplyCall.settled,Option.elim_none,action]
          have inserted := (insertDecided_ok performed).1
          refine .inserted current (fun m member same => outdated ⟨m,member,same⟩) ?_ (fun apart => ?_)
          · exact inserted.memories
          · exact inserted.cardsApart apart
        | some row =>
          rw [current] at chosen outdated
          obtain ⟨m,there,last⟩ := bind_ok.mp chosen
          cases last
          rw [demand_ok] at there
          have unmoved : m.currentVersion = row.currentVersion := by
            by_contra moved
            exact outdated ⟨m,there,moved⟩
          have known : (w.call rt newId now).decision.targetSnapshotVersion = some row.currentVersion := by simp [Write.call,current]
          have settled : (w.call rt newId now).settled rt.lib (some m) = (w.call rt newId now).decision := by
            refine if_neg ?_
            rintro ⟨v,same,other⟩
            rw [known] at same
            exact other (by rw [unmoved]; exact (Option.some.inj same).symm)
          rw [settled] at done
          have action : (w.call rt newId now).decision.recommendedAction = .update := by simp [Write.call,current]
          have performed : mutateTarget rt.lib (w.call rt newId now) (w.call rt newId now).decision m s = .ok (result,ids,u) := by
            rw [← done]
            simp only [perform,action]
          obtain ⟨v,update,rest⟩ := bind_ok.mp performed
          obtain ⟨m',there',alone,written⟩ := versionedUpdate_ok.mp update
          obtain ⟨member,same⟩ := Table.find?_eq_some.mp there
          obtain rfl : m = m' := by
            rw [same] at there'
            exact Option.some.inj (there.symm.trans there')
          rw [if_neg (by rw [action]; decide)] at rest
          cases rest
          subst written
          refine .updated current there unmoved rfl (fun apart => ?_)
          exact cardsApart_put apart alone rfl
    · cases ok
      refine .kept ?_
      split
      · rfl
      · rename_i e _ _
        unfold recordFailure
        cases saved : saveDecision (w.call rt newId now).spaceId (w.call rt newId now).noteId
            ((w.call rt newId now).attempted rt.lib s) .failed [] (some e.typeName) (w.call rt newId now).now s with
        | error _ => rfl
        | ok u =>
          obtain ⟨decisions,rfl⟩ := saveDecision_frame saved
          rfl

/-- What may be written: a new card that is not merged, or the card that was read, with its
identity and its link. -/
structure Write.Fits (w : Write) : Prop where
  new : w.current = none → w.card.mergedInto = none
  follows : ∀ row ∈ w.current, row.scope.card.Follows w.card
  quiet : ∀ row ∈ w.current, row.scope.card.mergedInto.isSome → row.scope.card.activeDetails = [] → w.card.activeDetails = []

theorem link_insert {id : MemoryId} (inserted : s.memories.insert row = some s'.memories) (unmerged : row.scope.card.mergedInto = none) :
    link s' id = link s id := by
  obtain ⟨fresh,rows⟩ := Table.insert_eq_some.mp inserted
  have found : s'.memories.find? id = (s.memories.find? id).or (if row.id = id then some row else none) := by
    rw [Table.find?,rows,List.find?_append,List.find?_singleton]
    simp only [decide_eq_true_eq]
    rfl
  rw [link,link,found]
  cases s.memories.find? id with
  | some m => rfl
  | none =>
    split
    · exact unmerged
    · rfl

theorem Write.Applied.advances (applied : w.Applied rt newId now s s') (fits : w.Fits)
    (seen : ∀ row ∈ w.current, Seen rt.t s row) : Advances rt.t s s' := by
  cases applied with
  | kept same => exact .of_memories same
  | inserted new fresh rows apart =>
    have unmerged : w.card.mergedInto = none := fits.new new
    exact ⟨.insert rows (fun m _ => .inl rfl) (Write.inserted_carded unmerged),apart,.still (fun id => link_insert rows unmerged)⟩
  | @updated row m current there unmoved rows apart =>
    obtain rfl := (seen row current).known.current there unmoved
    obtain ⟨member,_⟩ := Table.find?_eq_some.mp there
    have follows := fits.follows m current
    have rewritten : Rewritten rt.t m (w.updated rt newId now m) :=
      Write.rewritten follows.subject follows.preferenceObject follows.ownerId (fun merged => fits.quiet m current (follows.mergedInto ▸ merged))
        follows.mergedInto (by rw [current]; rfl)
    refine ⟨?_,apart,.still (fun id => ?_)⟩
    · rw [Progresses,rows]
      exact .put_of_mem member rfl (.inr rewritten) (fun _ _ _ => .inl rfl)
    · rw [link,rows,Table.find?_put_of (r := w.updated rt newId now m) _ there]
      split
      · rename_i same
        rw [same]
        exact follows.mergedInto.trans (link_mem member).symm
      · rfl

/-! ### What is written -/

theorem open?_unmerged (opened : open? row) : row.scope.card.mergedInto = none := by
  unfold open? at opened
  simpa using (Bool.and_eq_true_iff.mp opened).2

/-- What a review holds: a card that is not merged, the cards that `retrieval` selects for it,
and cards that were read once more. -/
structure Consolidation.Sound (c : Consolidation) : Prop where
  root : open? c.root
  records : ∀ row ∈ c.records, candidate c.root row ∧ row.scope.card.mergedInto = none
  rooted : ∀ row ∈ c.records, row.id = c.root.id → c.root.currentVersion ≤ row.currentVersion
  near : ∀ row ∈ c.reread, row.spaceId = c.root.spaceId
  agree : ∀ row ∈ c.reread, row.id ≠ c.root.id → ∀ other ∈ c.records, other.id = row.id → other = row

def Job.Unmerged : Job → Prop
  | .message _ _ current _ _ | .forget _ current => ∀ row ∈ current, row.scope.card.mergedInto = none
  | .tidy row _ => open? row
  | .spread .. => True
  | .consolidate c => c.Sound

def Job.current : Job → Option Row
  | .message _ _ current _ _ | .forget _ current => current
  | .tidy row _ | .spread _ row => some row
  | .consolidate c => some c.root

def Job.Reads (row : Row) : Job → Prop
  | .consolidate c => row = c.root ∨ row ∈ c.records ∨ row ∈ c.reread
  | job => row ∈ job.current

/-- A job on what was read of the store, at some time. -/
structure Job.Sound (t : Texts) (s : Store Scope) (job : Job) : Prop where
  unmerged : job.Unmerged
  seen : ∀ row, job.Reads row → Seen t s row

theorem Message.opening_follows (message : Message) : row.scope.card.Follows (message.opening (some row)) := by
  unfold Message.opening
  simp only
  split
  · exact .details _
  · exact .refl _

theorem spread_quiet {f : Spreading} {card card' : Card} (spreads : f.spread card = some card') (quiet : card.activeDetails = []) :
    card'.activeDetails = [] := by
  simp only [Spreading.spread] at spreads
  split at spreads
  · cases spreads
    simp only [Card.activeDetails,List.filter_eq_nil_iff,List.mem_map,decide_eq_true_eq] at quiet ⊢
    rintro d' ⟨d,member,rfl⟩ active
    split at active
    · unfold Detail.without at active
      split at active
      · exact quiet d member active
      · cases active
    · exact quiet d member active
  · cases spreads

theorem Write.Fits.of_new (new : w.current = none) (unmerged : w.card.mergedInto = none) : w.Fits := by
  refine ⟨fun _ => unmerged,fun row current => ?_,fun row current => ?_⟩
  · rw [new] at current
    cases current
  · rw [new] at current
    cases current

theorem Write.Fits.of_read (current : w.current = some row) (follows : row.scope.card.Follows w.card)
    (quiet : row.scope.card.mergedInto.isSome → row.scope.card.activeDetails = [] → w.card.activeDetails = []) : w.Fits := by
  refine ⟨fun none => ?_,fun other same => ?_,fun other same => ?_⟩
  · rw [current] at none
    cases none
  · obtain rfl := Option.some.inj (current.symm.trans same)
    exact follows
  · obtain rfl := Option.some.inj (current.symm.trans same)
    exact quiet

theorem Write.Fits.of_unmerged (current : w.current = some row) (follows : row.scope.card.Follows w.card)
    (unmerged : row.scope.card.mergedInto = none) : w.Fits := by
  refine .of_read current follows (fun merged => ?_)
  rw [unmerged] at merged
  cases merged

theorem Job.write_fits {job : Job} (writes : job.write rt now = .ok (some w)) (unmerged : job.Unmerged) :
    w.Fits ∧ w.current = job.current := by
  cases job with
  | message m tries current answer relations =>
    obtain ⟨round,integrated,last⟩ := bind_ok.mp writes
    cases round with
    | writes card action =>
      simp only [pure,Except.pure,Except.ok.injEq,Option.some.injEq] at last
      have follows := (integrate_writes integrated).1.follows
      subst last
      cases current with
      | none => exact ⟨.of_new rfl follows.mergedInto,rfl⟩
      | some row => exact ⟨.of_unmerged rfl (m.opening_follows.trans follows) (unmerged row rfl),rfl⟩
    | discarded => cases last
    | unclear _ => cases last
    | full => cases last
    | present => cases last
  | forget f current =>
    cases current with
    | none => cases writes
    | some row =>
      obtain ⟨chosen,_,last⟩ := bind_ok.mp writes
      simp only [pure,Except.pure,Except.ok.injEq] at last
      split at last
      · cases last
      · cases last
        exact ⟨.of_unmerged rfl (.forget chosen) (unmerged row rfl),rfl⟩
  | spread f row =>
    cases spreads : f.spread row.scope.card with
    | none => simp [Job.write,spreads,pure,Except.pure] at writes
    | some card =>
      simp only [Job.write,spreads,Option.map_some,pure,Except.pure,Except.ok.injEq,Option.some.injEq] at writes
      subst writes
      exact ⟨.of_read rfl (.spread spreads) (fun _ => spread_quiet spreads),rfl⟩
  | tidy row relations =>
    obtain ⟨card,ok,last⟩ := bind_ok.mp writes
    simp only [pure,Except.pure,Except.ok.injEq] at last
    obtain ⟨source,_,rfl⟩ := Option.map_eq_some_iff.mp last
    exact ⟨.of_unmerged rfl (.tidied ok) (open?_unmerged unmerged),rfl⟩
  | consolidate c => cases writes

/-! ### Writing the cards of a review -/

section
variable {root : MemoryId} {d : Draft} {c : Consolidation} {drafts : Drafts}

def Draft.untouched (d : Draft) (root : MemoryId) : Prop := d.row.id ≠ root ∧ d.card = d.row.scope.card

instance (d : Draft) (root : MemoryId) : Decidable (d.untouched root) := inferInstanceAs (Decidable (_ ∧ _))

def Draft.written (rt : Runtime) (d : Draft) (root : MemoryId) (now : Time) (m : Row) : Row :=
  if d.untouched root then m else m.changed rt.lib (d.changes rt.t) now

structure Draft.Fits (d : Draft) : Prop where
  subject : d.card.subject = d.row.scope.card.subject
  preferenceObject : d.card.preferenceObject = d.row.scope.card.preferenceObject
  ownerId : d.card.ownerId = d.row.scope.card.ownerId
  quiet : d.card.mergedInto.isSome → (d.row.scope.card.mergedInto.isSome → d.row.scope.card.activeDetails = []) →
    d.card.activeDetails = []

theorem Draft.Fits.rewritten (fits : d.Fits) (card : d.row.memoryKeyVersion = .preferenceCardV1) :
    Rewritten rt.t d.row (d.row.changed rt.lib (d.changes rt.t) now) := by
  refine ⟨rfl,rfl,Nat.lt_succ_self _,fits.subject,fits.preferenceObject,fits.ownerId,fun carded => ⟨carded.memoryType,?_,?_,?_,?_,?_⟩⟩
  · exact carded.version
  · have key : (d.row.changed rt.lib (d.changes rt.t) now).memoryKey = d.row.memoryKey := by
      simp [Memory.changed,Draft.changes,Memory.rekeyed,card,KeyVersion.keyKept]
    rw [key,carded.key]
    change some (rt.t.cardKey _ _ _) = some (rt.t.cardKey d.card.subject d.card.preferenceObject d.card.ownerId)
    rw [fits.subject,fits.preferenceObject,fits.ownerId]
  · have subject : (d.row.changed rt.lib (d.changes rt.t) now).subject = d.row.subject := by simp [Memory.changed,Draft.changes]
    rw [subject,carded.subject]
    exact congrArg some fits.subject.symm
  · change d.row.scope.ownerId = d.card.ownerId
    rw [carded.ownerId,fits.ownerId]
  · change d.card.mergedInto.isSome → d.card.activeDetails = []
    exact fun merged => fits.quiet merged carded.quiet

theorem addSources_memories {id : MemoryId} {notes : List NoteId} {relation : SourceRelation} :
    (addSources id notes relation s).memories = s.memories := addSources_aside.1

theorem drafts_progress {ds : List Draft} (once : (ds.map Draft.id).Nodup)
    (current : ∀ d ∈ ds, s.memories.find? d.id = some d.row) (fits : ∀ d ∈ ds, d.Fits)
    (cards : ∀ d ∈ ds, d.row.memoryKeyVersion = .preferenceCardV1) (ok : ds.foldlM (Draft.write rt root now) s = .ok s') :
    Progresses rt.t s s' ∧ (s.cardsApart → s'.cardsApart) ∧
      ∀ k, s'.memories.find? k = (s.memories.find? k).map (fun m =>
        (ds.find? (·.id = k)).elim m (fun d => d.written rt root now m)) := by
  induction ds generalizing s with
  | nil =>
    cases ok
    exact ⟨.refl rfl,id,fun k => by simp⟩
  | cons d ds ih =>
    obtain ⟨absent,once⟩ := List.nodup_cons.mp once
    rw [List.foldlM_cons] at ok
    obtain ⟨u,head,tail⟩ := bind_ok.mp ok
    have here := current d List.mem_cons_self
    have first : Progresses rt.t s u ∧ (s.cardsApart → u.cardsApart) ∧
        ∀ k, u.memories.find? k = (s.memories.find? k).map (fun m => if k = d.id then d.written rt root now m else m) := by
      unfold Draft.write at head
      split at head
      · rename_i idle
        cases head
        refine ⟨.refl rfl,id,fun k => ?_⟩
        have same (m : Row) : (if k = d.id then d.written rt root now m else m) = m := by
          rw [Draft.written,if_pos (show d.untouched root from idle),ite_self]
        simp [same]
      · rename_i busy
        have rewritten : ∀ m, (addSources d.row.id d.card.noteIds .supportedBy s).memories.find? d.row.id = some m →
            Rewritten rt.t m (m.changed rt.lib (d.changes rt.t) now) := by
          intro m found
          rw [addSources_memories,show d.row.id = d.id from rfl,here] at found
          obtain rfl := Option.some.inj found
          exact (fits d List.mem_cons_self).rewritten (cards d List.mem_cons_self)
        obtain ⟨progresses,apart,found⟩ := versionedUpdate_progresses head rewritten
        refine ⟨(Progresses.refl addSources_memories).trans progresses,fun held => apart ?_,fun k => ?_⟩
        · unfold Store.cardsApart
          rwa [addSources_memories]
        · rw [found,addSources_memories]
          have written (m : Row) : d.written rt root now m = m.changed rt.lib (d.changes rt.t) now := if_neg busy
          simp only [written,Draft.id]
    obtain ⟨progresses,apart,found⟩ := first
    have later : ∀ e ∈ ds, e.id ≠ d.id := fun e member same => absent (List.mem_map.mpr ⟨e,member,same⟩)
    obtain ⟨rest,apart',found'⟩ := ih once (fun e member => by
        rw [found,current e (List.mem_cons_of_mem _ member),Option.map_some,if_neg (later e member)])
      (fun e member => fits e (List.mem_cons_of_mem _ member)) (fun e member => cards e (List.mem_cons_of_mem _ member)) tail
    refine ⟨progresses.trans rest,fun held => apart' (apart held),fun k => ?_⟩
    rw [found',found,Option.map_map]
    congr 1
    funext m
    simp only [Function.comp_apply]
    by_cases same : k = d.id
    · have none_later : ds.find? (·.id = k) = none := List.find?_eq_none.mpr (fun e member => by
        rw [same]
        simpa using later e member)
      rw [if_pos same,none_later,List.find?_cons_of_pos (by simpa using same.symm)]
      rfl
    · rw [if_neg same,List.find?_cons_of_neg (by simpa using Ne.symm same)]

theorem commit_ok {s : State} {intact : Bool} (ok : commit rt c intact now s = .ok s') :
    ∃ drafts, c.drafts rt.t rt.dump rt.settings.limit now = .ok drafts ∧
      (∀ d ∈ drafts, ∃ m, s.store.memories.find? d.id = some m ∧ m.currentVersion = d.row.currentVersion) ∧
      (∀ e ∈ c.available, s.forgotten.find? (c.root.spaceId,e.source.id) = none) ∧
      drafts.rows.foldlM (Draft.write rt c.root.id now) s.store = .ok s' := by
  obtain ⟨drafts,drafted,ok⟩ := bind_ok.mp ok
  obtain ⟨_,current,ok⟩ := bind_ok.mp ok
  obtain ⟨_,_,ok⟩ := bind_ok.mp ok
  obtain ⟨_,kept,ok⟩ := bind_ok.mp ok
  obtain ⟨_,_,ok⟩ := bind_ok.mp ok
  rw [require_ok] at current kept
  refine ⟨drafts,drafted,fun d member => ?_,fun e member => by simpa using kept e member,ok⟩
  have read := current d member
  cases found : s.store.memories.find? d.row.id with
  | none =>
    rw [found] at read
    cases read
  | some m =>
    rw [found,Option.any_some,Bool.and_eq_true] at read
    exact ⟨m,found,by simpa using read.2⟩

/-- The card under review, here with the relations that the review gave it, is merged into
another of the cards that were read. -/
structure Consolidation.Merging (c : Consolidation) (p : Progress) (row : Row) (card : Card) : Prop where
  listed : row ∈ c.records
  apart : row.id ≠ c.root.id
  follows : c.root.scope.card.Follows card
  details : card.details = c.root.scope.card.details
  subject : row.scope.card.subject = card.subject
  ownerId : row.scope.card.ownerId = card.ownerId
  root : p.root = card.mergedWith row.id
  target : p.target = some ⟨row,row.scope.card.taking card⟩

/-- What comes of a review: the card has been worked on, or it is merged into one of the others. -/
inductive Consolidation.Outcome (c : Consolidation) (p : Progress) : Prop
  | kept (follows : c.root.scope.card.Follows p.root) (alone : p.target = none)
  | merged {row : Row} {card : Card} (merging : c.Merging p row card)

theorem mergedWith_quiet (card : Card) (target : MemoryId) : (card.mergedWith target).activeDetails = [] := by
  simp only [Card.mergedWith,Card.activeDetails,List.filter_eq_nil_iff,List.mem_map,decide_eq_true_eq]
  rintro d' ⟨d,_,rfl⟩ active
  split at active
  · cases active
  · rename_i idle
    exact idle active

theorem Carried.follows {available : Available} {dump : Action → String} {p p' : Progress} {a : Action}
    (carried : Carried dump available p a p') : p.root.Follows p'.root ∧ p'.target = p.target := by
  cases carried with
  | deduplicated _ _ _ _ => exact ⟨.deduplicated _ _,rfl⟩
  | corrected _ _ _ _ _ _ _ _ _ _ _ => exact ⟨⟨rfl,rfl,rfl,rfl,le_rfl⟩,rfl⟩
  | doubted _ => exact ⟨⟨rfl,rfl,rfl,rfl,le_rfl⟩,rfl⟩

theorem Consolidation.outcome_ok {p : Progress} {limit : Nat} {dump : Action → String} (ok : c.progress t dump limit = .ok p) :
    c.Outcome p := by
  simp only [Consolidation.progress] at ok
  split at ok
  · cases ok
    exact .kept (.details _) rfl
  · rcases applyPlan_ok ok with ⟨row,listed,apart,mergeable,_,_,root,target⟩ | ⟨plain,folded⟩
    · rcases Table.mem_upsert.mp listed with rfl | ⟨member,_⟩
      · exact absurd rfl apart
      · exact .merged ⟨member,apart,.related _,rfl,mergeable.subject,mergeable.ownerId,root,target⟩
    · have follows : c.root.scope.card.Follows p.root ∧ p.target = none := by
        refine foldlM_invariant (fun p => c.root.scope.card.Follows p.root ∧ p.target = none) (fun a member p p' before step => ?_) folded
          ⟨.related _,rfl⟩
        obtain ⟨follows,same⟩ := (carryOut_ok step (plain a member)).follows
        exact ⟨before.1.trans follows,same.trans before.2⟩
      exact .kept follows.1 follows.2

theorem Consolidation.Sound.drafted {limit : Nat} {dump : Action → String} (sound : c.Sound) (ok : c.drafts t dump limit now = .ok drafts) :
    ∃ p, c.progress t dump limit = .ok p ∧ Drafted c p now drafts := by
  obtain ⟨p,progress,read⟩ := drafts_ok ok
  refine ⟨p,progress,Preferences.drafted read sound.agree ?_ ?_⟩
  · cases Consolidation.outcome_ok progress with
    | merged merging => exact .inl (by rw [merging.root]; rfl)
    | kept follows alone =>
      refine .inr (List.filterMap_eq_nil_iff.mpr (fun d member => ?_))
      have unmerged : d.card.mergedInto = none := by
        have found := Table.find?_mem (show d ∈ c.outcome p now from member)
        rw [find?_outcome] at found
        split at found
        · obtain rfl := Option.some.inj found
          exact follows.mergedInto.trans (open?_unmerged sound.root)
        · rw [alone] at found
          obtain ⟨row,there,rfl⟩ := Option.map_eq_some_iff.mp found
          exact (sound.records row (Table.find?_eq_some.mp there).1).2
      rw [unmerged,Option.map_none]
  · cases Consolidation.outcome_ok progress with
    | kept _ alone =>
      intro d chosen
      rw [alone] at chosen
      cases chosen
    | merged merging =>
      intro d chosen
      obtain rfl := Option.some.inj (merging.target.symm.trans chosen)
      exact ⟨merging.listed,merging.apart⟩

theorem Consolidation.Outcome.read {p : Progress} (outcome : c.Outcome p) : ∀ d ∈ c.outcome p now, d.row = c.root ∨ d.row ∈ c.records := by
  intro d member
  have found := Table.find?_mem member
  rw [find?_outcome] at found
  split at found
  · obtain rfl := Option.some.inj found
    exact .inl rfl
  · split at found
    · cases outcome with
      | kept _ alone =>
        rw [alone] at found
        cases found
      | merged merging =>
        obtain rfl := Option.some.inj (merging.target.symm.trans found)
        exact .inr merging.listed
    · obtain ⟨row,there,rfl⟩ := Option.map_eq_some_iff.mp found
      exact .inr (Table.find?_eq_some.mp there).1

theorem drafts_read {limit : Nat} {dump : Action → String} (ok : c.drafts t dump limit now = .ok drafts) :
    ∀ d ∈ drafts, d.row = c.root ∨ d.row ∈ c.records ∨ d.row ∈ c.reread := by
  obtain ⟨p,progress,rfl⟩ := drafts_ok ok
  intro d member
  rcases mem_redirects c.reread.keyed member with before | ⟨read,_⟩
  · exact ((Consolidation.outcome_ok progress).read d before).imp_right .inl
  · exact .inr (.inr read)

structure Committed (rt : Runtime) (c : Consolidation) (now : Time) (s s' : Store Scope) (p : Progress) (drafts : Drafts) : Prop where
  progress : c.progress rt.t rt.dump rt.settings.limit = .ok p
  computed : c.drafts rt.t rt.dump rt.settings.limit now = .ok drafts
  drafted : Drafted c p now drafts
  current : ∀ d ∈ drafts, s.memories.find? d.id = some d.row
  fits : ∀ d ∈ drafts, d.Fits
  progresses : Progresses rt.t s s'
  apart : s.cardsApart → s'.cardsApart
  found : ∀ k, s'.memories.find? k = (s.memories.find? k).map (fun m => (drafts.find? k).elim m (fun d => d.written rt c.root.id now m))

theorem Draft.Fits.of_follows (follows : d.row.scope.card.Follows d.card) (details : d.card.details = d.row.scope.card.details) :
    d.Fits where
  subject := follows.subject
  preferenceObject := follows.preferenceObject
  ownerId := follows.ownerId
  quiet merged quiet := by
    rw [Card.activeDetails,details]
    exact quiet (follows.mergedInto ▸ merged)

theorem Draft.Fits.of_unmerged (follows : d.row.scope.card.Follows d.card) (unmerged : d.row.scope.card.mergedInto = none) : d.Fits where
  subject := follows.subject
  preferenceObject := follows.preferenceObject
  ownerId := follows.ownerId
  quiet merged := by
    rw [follows.mergedInto,unmerged] at merged
    cases merged

theorem Card.Follows.reviewed (card : Card) (now : Time) : card.Follows (card.reviewed now) := ⟨rfl,rfl,rfl,rfl,le_rfl⟩

theorem taking_follows (card root : Card) : card.Follows (card.taking root) := ⟨rfl,rfl,rfl,rfl,Nat.le_succ _⟩

theorem Drafted.fits {p : Progress} (drafted : Drafted c p now drafts) (sound : c.Sound) (outcome : c.Outcome p) :
    ∀ d ∈ drafts, d.Fits := by
  intro d member
  rcases drafted.others d member with root | ⟨e,chosen,same⟩ | relinked
  · have found := drafted.root
    rw [← root,Table.find?_mem member] at found
    obtain rfl := Option.some.inj found
    cases outcome with
    | kept follows _ => exact .of_unmerged (follows.trans (.reviewed _ now)) (open?_unmerged sound.root)
    | @merged row card merging =>
      have follows := merging.follows
      have card : p.root.subject = card.subject ∧ p.root.preferenceObject = card.preferenceObject ∧ p.root.ownerId = card.ownerId ∧
          p.root.activeDetails = [] := by
        rw [merging.root]
        exact ⟨rfl,rfl,rfl,mergedWith_quiet _ _⟩
      obtain ⟨subject,object,owner,quiet⟩ := card
      exact ⟨subject.trans follows.subject,object.trans follows.preferenceObject,owner.trans follows.ownerId,fun _ _ => quiet⟩
  · obtain ⟨card,found,relinked⟩ := drafted.target e chosen
    rw [same,Table.find?_mem member] at found
    obtain rfl := Option.some.inj found
    cases outcome with
    | kept _ alone =>
      rw [alone] at chosen
      cases chosen
    | merged merging =>
      obtain rfl := Option.some.inj (merging.target.symm.trans chosen)
      exact .of_unmerged ((taking_follows _ _).trans relinked.follows) (sound.records _ merging.listed).2
  · exact .of_follows relinked.follows relinked.details

theorem commit_committed {s : State} {s' : Store Scope} {intact : Bool} (sound : (Job.consolidate c).Sound rt.t s.store) (cards : ∀ m ∈ s.store.memories, Carded rt.t m) (ok : commit rt c intact now s = .ok s') :
    ∃ p drafts, Committed rt c now s.store s' p drafts := by
  obtain ⟨sound,seen⟩ := sound
  obtain ⟨drafts,written,unmoved,_,folded⟩ := commit_ok ok
  obtain ⟨p,progress,drafted⟩ := Consolidation.Sound.drafted sound written
  have outcome := Consolidation.outcome_ok progress
  have current : ∀ d ∈ drafts, s.store.memories.find? d.id = some d.row := by
    intro d member
    obtain ⟨m,found,same⟩ := unmoved d member
    obtain rfl := (seen d.row (drafts_read written d member)).known.current found same
    exact found
  have fits := Drafted.fits drafted sound outcome
  obtain ⟨progresses,apart,found⟩ := drafts_progress drafts.keyed current fits
    (fun d member => (cards d.row (Table.find?_eq_some.mp (current d member)).1).version) folded
  exact ⟨p,drafts,progress,written,drafted,current,fits,progresses,apart,found⟩

theorem Draft.written_card (d : Draft) (root : MemoryId) :
    (d.written rt root now d.row).scope.card = d.card ∨ (d.written rt root now d.row).scope.card = d.card.projected rt.t := by
  unfold Draft.written
  split
  · rename_i idle
    exact .inl idle.2.symm
  · exact .inr rfl

variable {p : Progress}

theorem Committed.written (committed : Committed rt c now s s' p drafts) (member : d ∈ drafts) :
    s'.memories.find? d.id = some (d.written rt c.root.id now d.row) := by
  rw [committed.found,committed.current d member,Option.map_some,Table.find?_mem member]
  rfl

theorem Committed.link (committed : Committed rt c now s s' p drafts) (member : d ∈ drafts) :
    link s' d.id = d.card.mergedInto ∧ link s d.id = d.row.scope.card.mergedInto := by
  rw [Preferences.link,Preferences.link,committed.written member,committed.current d member,Option.bind_some,Option.bind_some]
  have card : (d.written rt c.root.id now d.row).scope.card = d.card ∨
      (d.written rt c.root.id now d.row).scope.card = d.card.projected rt.t := d.written_card c.root.id
  rcases card with same | same
  · exact ⟨by rw [same],rfl⟩
  · exact ⟨by rw [same]; rfl,rfl⟩

theorem Committed.link_other (committed : Committed rt c now s s' p drafts) {id : MemoryId} (other : drafts.find? id = none) :
    Preferences.link s' id = Preferences.link s id := by
  rw [Preferences.link,Preferences.link,committed.found,other]
  simp

theorem Committed.link_same (committed : Committed rt c now s s' p drafts) {id : MemoryId}
    (same : ∀ d ∈ drafts, d.id = id → d.card.mergedInto = d.row.scope.card.mergedInto) :
    Preferences.link s' id = Preferences.link s id := by
  cases found : drafts.find? id with
  | none => exact committed.link_other found
  | some d =>
    obtain ⟨member,rfl⟩ := Table.find?_eq_some.mp found
    obtain ⟨after,before⟩ := committed.link member
    rw [after,before,same d member rfl]

theorem Committed.grafted (committed : Committed rt c now s s' p drafts) (sound : c.Sound) {row : Row} {card : Card}
    (merging : c.Merging p row card) : s.memories.find? row.id = some row ∧
      Forest.Grafted (Preferences.link s) (Preferences.link s') c.root.id row.id := by
  have root := (Table.find?_eq_some.mp committed.drafted.root).1
  obtain ⟨card',found,relinked⟩ := committed.drafted.target _ merging.target
  have there := (Table.find?_eq_some.mp found).1
  refine ⟨committed.current _ there,?_,?_,fun id other => committed.link_same (fun d member same => ?_)⟩
  · exact (committed.link root).2.trans (open?_unmerged sound.root)
  · refine (committed.link root).1.trans ?_
    change p.root.mergedInto = some row.id
    rw [merging.root]
    rfl
  · rcases committed.drafted.others d member with own | ⟨e,chosen,same'⟩ | relinked
    · exact absurd (same.symm.trans own) other
    · obtain rfl := Option.some.inj (merging.target.symm.trans chosen)
      obtain rfl := drafts.unique member there same'.symm
      exact ((taking_follows _ _).trans relinked.follows).mergedInto
    · exact relinked.follows.mergedInto

theorem Committed.links (committed : Committed rt c now s s' p drafts) :
    (∀ id, Preferences.link s' id = Preferences.link s id) ∨ ∃ row card, c.Merging p row card := by
  have root := (Table.find?_eq_some.mp committed.drafted.root).1
  cases Consolidation.outcome_ok committed.progress with
  | kept follows alone =>
    refine .inl (fun id => committed.link_same (fun d member _ => ?_))
    rcases committed.drafted.others d member with same | ⟨e,chosen,_⟩ | relinked
    · obtain rfl := drafts.unique member root same
      exact follows.mergedInto
    · rw [alone] at chosen
      cases chosen
    · exact relinked.follows.mergedInto
  | @merged row card merging => exact .inr ⟨row,card,merging⟩

theorem Committed.relinks (committed : Committed rt c now s s' p drafts) (sound : c.Sound) : Relinks s s' := by
  rcases committed.links with same | ⟨row,card,merging⟩
  · exact .still same
  · obtain ⟨found,grafted⟩ := committed.grafted sound merging
    have root := (Table.find?_eq_some.mp committed.drafted.root).1
    obtain ⟨inside,_⟩ := Table.find?_eq_some.mp (committed.current _ root)
    obtain ⟨member,_⟩ := Table.find?_eq_some.mp found
    obtain ⟨candidate,unmerged⟩ := sound.records row merging.listed
    have space : row.spaceId = c.root.spaceId := by
      unfold Preferences.candidate at candidate
      simp only [Bool.and_eq_true,decide_eq_true_eq] at candidate
      exact candidate.1.1.1.1
    have akin : Akin c.root row :=
      ⟨space,merging.subject.trans merging.follows.subject,merging.ownerId.trans merging.follows.ownerId⟩
    exact .merged inside member merging.apart akin ((link_mem member).trans unmerged) grafted

/-- What the transaction of a job comes to. -/
inductive Job.Committing (rt : Runtime) (draw : Draw) (s : State) (job : Job) : Except Error Bool × State → Prop
  | failed (e : Error) : Committing rt draw s job (.error e,s)
  | idle (nothing : job.write rt draw.now = .ok none) : Committing rt draw s job (.ok false,s)
  | written {w : Write} (writes : job.write rt draw.now = .ok (some w)) (plain : ∀ c, job ≠ .consolidate c) :
      Committing rt draw s job ((applyMemoryDecision rt.lib (w.call rt draw.newId draw.now) s.store).1.map (fun _ => true),
        { s with store := (applyMemoryDecision rt.lib (w.call rt draw.newId draw.now) s.store).2 })
  | reviewed {c : Consolidation} {store : Store Scope} (same : job = .consolidate c)
      (ok : Preferences.commit rt c draw.intact draw.now s = .ok store) : Committing rt draw s job (.ok true,{ s with store })

theorem Job.committing (job : Job) (draw : Draw) (s : State) : job.Committing rt draw s (job.commit rt draw s) := by
  cases job with
  | consolidate c =>
    simp only [Job.commit]
    cases ok : Preferences.commit rt c draw.intact draw.now s with
    | error e => exact .failed e
    | ok store => exact .reviewed rfl ok
  | message m tries current answer relations | forget f current | spread f row | tidy row relations =>
    simp only [Job.commit]
    split
    · exact .failed _
    · rename_i nothing
      exact .idle nothing
    · rename_i w writes
      exact .written writes (fun c same => by cases same)

theorem Job.advances {job : Job} {draw : Draw} {s : State} (sound : job.Sound rt.t s.store) (cards : ∀ m ∈ s.store.memories, Carded rt.t m) :
    Advances rt.t s.store (job.commit rt draw s).2.store := by
  have step : job.Committing rt draw s (job.commit rt draw s) := job.committing draw s
  generalize job.commit rt draw s = result at step ⊢
  cases step with
  | failed e => exact .of_memories rfl
  | idle nothing => exact .of_memories rfl
  | @written w writes plain =>
    obtain ⟨fits,current⟩ := Job.write_fits writes sound.unmerged
    refine (Write.applied rfl).advances fits (fun row read => sound.seen row ?_)
    rw [current] at read
    cases job with
    | consolidate c => exact absurd rfl (plain c)
    | message _ _ _ _ _ => exact read
    | forget _ _ => exact read
    | spread _ _ => exact read
    | tidy _ _ => exact read
  | @reviewed c store same ok =>
    subst same
    obtain ⟨p,drafts,committed⟩ := commit_committed sound cards ok
    exact ⟨committed.progresses,committed.apart,committed.relinks sound.unmerged⟩

end

end Suixinji.Preferences
