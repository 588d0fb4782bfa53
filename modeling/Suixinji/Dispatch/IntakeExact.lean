import Suixinji.Dispatch.IntakeRace
import Suixinji.Dispatch.Marks

/-! Messages enter exactly once, however their transactions interleave. -/
namespace Suixinji.Dispatch.IntakeRace
open Suixinji.Relational Suixinji.Numbering Suixinji.Transition

/-- Each space counts its messages from 1, each identity has one row, each row has
one task of its own. -/
structure IntakeExact (db : Db) : Prop where
  numbered : ∀ space, Numbered (db.messages space) InboxMessage.sequenceNo
  single : ∀ m ∈ db.inbox, ∀ n ∈ db.inbox, m.identity = n.identity → m = n
  root : ∀ m ∈ db.inbox, ∃! t, t ∈ db.tasks ∧ t.payload.inboxId = some m.id

/-- The key of the root task is new: no two messages have joined to one key. -/
def FreshKey (w : World) : Event → Prop
  | .commit i .. => ∀ r m, w.phase i = .inserted r m →
      ∀ t ∈ w.db.tasks, t.idempotencyKey ≠ r.command.idempotencyKey
  | _ => True

/-! ### One transaction -/

/-- What a transaction does to the tables it writes. -/
structure Finished (db : Db) (r : Receiving) (m : InboxMessage) (db' : Db) (result : DispatchResult) : Prop where
  spaces : Table.Evolves (fun s s' => s'.tenantId = s.tenantId) (fun s => r.newSpace.map Space.id = some s.id)
    db.spaces db'.spaces
  reply : result.inboxId = m.id
  fresh : ∀ n ∈ db.inbox, n.id ≠ m.id ∧ n.identity ≠ m.identity
  inbox : db'.inbox.rows = db.inbox.rows ++ [m]
  tasks : Table.Evolves (fun t t' => t'.payload = t.payload)
    (fun t => t.id = r.draws.taskId ∧ t.payload.inboxId = some m.id) db.tasks db'.tasks
  created : (∀ t ∈ db.tasks, t.idempotencyKey ≠ r.command.idempotencyKey) →
    result.taskId = some r.draws.taskId ∧ (∀ t ∈ db.tasks, t.id ≠ r.draws.taskId) ∧
      ∃ t ∈ db'.tasks, t.id = r.draws.taskId ∧ t.payload.inboxId = some m.id

theorem advance_spaces {db db' : Db} {s : Space} {uuid : TaskId → Nat} {now : Time} (member : s ∈ db.spaces)
    (ok : advanceWatermarksInSession db s uuid now = some db') {N : Space → Prop} :
    Table.Evolves (fun s s' => s'.tenantId = s.tenantId) N db.spaces db'.spaces := by
  obtain ⟨_,_,rfl⟩ := advanceWatermarksInSession_spec ok
  exact .put_of_mem member rfl rfl (fun _ _ _ => rfl)

theorem advance_payloads {db db' : Db} {s : Space} {uuid : TaskId → Nat} {now : Time}
    (ok : advanceWatermarksInSession db s uuid now = some db') {N : Task → Prop} :
    Table.Evolves (fun t t' => t'.payload = t.payload) N db.tasks db'.tasks := by
  obtain ⟨_,_,rfl⟩ := advanceWatermarksInSession_spec ok
  exact .of_updateWhere rfl (fun _ _ _ => ⟨rfl,rfl⟩) (fun _ _ _ => rfl)

theorem finish_spec {host : Host} {db db' : Db} {r : Receiving} {m : InboxMessage} {result : DispatchResult}
    (ok : finish host db r m = some (db',result)) : Finished db r m db' result := by
  unfold finish at ok
  obtain ⟨db₁,written,rest⟩ := Option.bind_eq_some_iff.mp ok
  obtain ⟨db₂,message,rest⟩ := Option.bind_eq_some_iff.mp rest
  obtain ⟨fresh,inbox,inserted,rfl⟩ := insertMessage_spec message
  obtain ⟨s,member,_,db₃,taskId,created,enqueued,rfl,last⟩ := receiveMessage_spec rest
  have spaces₁ : Table.Evolves (fun s s' => s'.tenantId = s.tenantId)
      (fun s => r.newSpace.map Space.id = some s.id) db.spaces db₁.spaces := by
    rcases withSpace_spec written with ⟨_,rfl⟩ | ⟨new,spaces,same,added,rfl⟩
    · exact .refl (fun _ _ => rfl)
    · exact .insert added (fun _ _ => rfl) (by rw [same]; rfl)
  obtain ⟨inbox₁,tasks₁⟩ : db₁.inbox = db.inbox ∧ db₁.tasks = db.tasks := by
    rcases withSpace_spec written with ⟨_,rfl⟩ | ⟨_,_,_,_,rfl⟩ <;> exact ⟨rfl,rfl⟩
  -- the root task's insertion touches the task table alone, and advancing adds no row
  obtain ⟨spaces₃,inbox₃⟩ : db₃.spaces = db₁.spaces ∧ db₃.inbox = inbox := by
    rcases enqueueTaskInSession_spec enqueued with ⟨_,rfl,_⟩ | ⟨_,_,_,_,_,_,_,_,rfl⟩ <;> exact ⟨rfl,rfl⟩
  have tasks₃ : Table.Evolves (fun t t' => t'.payload = t.payload)
      (fun t => t.id = r.draws.taskId ∧ t.payload.inboxId = some m.id) db.tasks db₃.tasks := by
    rw [← tasks₁]
    rcases enqueueTaskInSession_spec enqueued with ⟨_,rfl,_⟩ | ⟨_,_,_,_,_,_,added,_,rfl⟩
    · exact .refl (fun _ _ => rfl)
    · exact .insert added (fun _ _ => rfl) ⟨rfl,rfl⟩
  have end_ : Table.Evolves (fun s s' => s'.tenantId = s.tenantId)
        (fun s => r.newSpace.map Space.id = some s.id) db₃.spaces db'.spaces ∧ db'.inbox = db₃.inbox ∧
      Table.Evolves (fun t t' => t'.payload = t.payload)
        (fun t => t.id = r.draws.taskId ∧ t.payload.inboxId = some m.id) db₃.tasks db'.tasks := by
    rcases last with ⟨_,rfl⟩ | ⟨_,advance⟩
    · exact ⟨.refl (fun _ _ => rfl),rfl,.refl (fun _ _ => rfl)⟩
    · refine ⟨advance_spaces (by rw [spaces₃]; exact member) advance,?_,advance_payloads advance⟩
      obtain ⟨_,_,rfl⟩ := advanceWatermarksInSession_spec advance
      rfl
  constructor
  · exact spaces₁.trans (spaces₃ ▸ end_.1) (fun first second => second.trans first)
      (fun same new _ => by rw [new,same])
  · rfl
  · intro n inside
    rw [← inbox₁] at inside
    exact ⟨(Table.insert_eq_some.mp inserted).1 n inside,(fresh n inside).1⟩
  · rw [end_.2.1,inbox₃,(Table.insert_eq_some.mp inserted).2,inbox₁]
  · exact tasks₃.trans end_.2.2 (fun first second => second.trans first) (fun same new payload => by
      rw [same,payload]
      exact new)
  · intro absent
    rw [← tasks₁] at absent
    rcases enqueueTaskInSession_spec enqueued with ⟨_,_,t,known,key,_⟩ | ⟨_,rfl,_,_,_,_,added,_,rfl⟩
    · exact absurd key (absent t known)
    · refine ⟨rfl,?_,?_⟩
      · rw [← tasks₁]
        exact (Table.insert_eq_some.mp added).1
      · obtain ⟨t,inside,same,payload⟩ := end_.2.2.kept _ ((Table.mem_insert added).mpr (.inr rfl))
        exact ⟨t,inside,same,by rw [payload]; rfl⟩

/-! ### All transactions -/

def Phase.taken : Phase → Option (Receiving × Nat)
  | .numbered r n => some (r,n)
  | .inserted r m => some (r,m.sequenceNo)
  | _ => none

structure Sound (w : World) : Prop where
  exact : IntakeExact w.db
  named : ∀ t ∈ w.db.tasks, ∃ m ∈ w.db.inbox, t.payload.inboxId = some m.id
  housed : ∀ i r, (w.phase i).receiving = some r →
    (∃ s ∈ w.db.spaces, s.id = r.spaceId ∧ s.tenantId = r.command.tenant) ∨
      ∃ s, r.newSpace = some s ∧ s.id = r.spaceId
  fresh : ∀ i s, (w.phase i).newSpace = some s → ∀ t ∈ w.db.spaces, t.id ≠ s.id
  apart : ∀ i j s t, (w.phase i).newSpace = some s → (w.phase j).newSpace = some t → s.id = t.id → i = j
  locks : ∀ i j r r', (w.phase i).holder = some r → (w.phase j).holder = some r' → r.lockKey = r'.lockKey → i = j
  next : ∀ i r n, (w.phase i).taken = some (r,n) → n = w.db.nextSequenceNo r.spaceId
  row : ∀ i r m, w.phase i = .inserted r m → m = r.command.message r.draws.inboxId r.spaceId m.sequenceNo

theorem exact_empty : IntakeExact {} where
  numbered _ := Numbered.nil
  single m member := absurd member (Table.not_mem_empty m)
  root m member := absurd member (Table.not_mem_empty m)

theorem sound_initial : Sound initial where
  exact := exact_empty
  named t member := absurd member (Table.not_mem_empty t)
  housed _ _ open_ := nomatch open_
  fresh _ _ open_ := nomatch open_
  apart _ _ _ _ open_ := nomatch open_
  locks _ _ _ _ open_ := nomatch open_
  next _ _ _ open_ := nomatch open_
  row _ _ _ open_ := nomatch open_

theorem World.phase_move (w : World) (i j : Txn) (p : Phase) :
    (w.move i p).phase j = if j = i then p else w.phase j := by
  simp [World.move,Function.update_apply]

theorem World.move_move (w : World) (i : Txn) (p q : Phase) : (w.move i p).move i q = w.move i q := by
  simp [World.move]

theorem Phase.receiving_of_holder {p : Phase} {r : Receiving} (holds : p.holder = some r) : p.receiving = some r := by
  cases p <;> first | exact holds | cases holds

theorem Phase.holder_of_taken {p : Phase} {r : Receiving} {n : Nat} (taken : p.taken = some (r,n)) :
    p.holder = some r := by
  cases p <;> simp_all [Phase.taken,Phase.holder]

/-- Two transactions past their locks are in two spaces. -/
theorem Sound.spaces_apart {w : World} (sound : Sound w) {i j : Txn} {r r' : Receiving} (other : i ≠ j)
    (holds : (w.phase i).holder = some r) (holds' : (w.phase j).holder = some r') : r.spaceId ≠ r'.spaceId := by
  intro same
  have receiving := Phase.receiving_of_holder holds
  have receiving' := Phase.receiving_of_holder holds'
  have new : ∀ {k : Txn} {q : Receiving} {s : Space}, (w.phase k).receiving = some q → q.newSpace = some s →
      (w.phase k).newSpace = some s := fun opened made => by simp [Phase.newSpace,opened,made]
  rcases sound.housed i r receiving with ⟨s,member,id,tenant⟩ | ⟨s,made,id⟩ <;>
    rcases sound.housed j r' receiving' with ⟨s',member',id',tenant'⟩ | ⟨s',made',id'⟩
  · have equal : s = s' := w.db.spaces.unique member member' (id.trans (same.trans id'.symm))
    refine other (sound.locks i j r r' holds holds' ?_)
    rw [Receiving.lockKey,Receiving.lockKey,same,← tenant,← tenant',equal]
  · exact sound.fresh j s' (new receiving' made') s member (id.trans (same.trans id'.symm))
  · exact sound.fresh i s (new receiving made) s' member' (id'.trans (same.symm.trans id.symm))
  · exact other (sound.apart i j s s' (new receiving made) (new receiving' made') (id.trans (same.trans id'.symm)))

theorem Sound.move {w : World} {i : Txn} {p : Phase} (sound : Sound w)
    (receiving : ∀ r, p.receiving = some r → (w.phase i).receiving = some r)
    (holder : ∀ r, p.holder = some r → (w.phase i).holder = some r ∨
      ∀ j r', j ≠ i → (w.phase j).holder = some r' → r'.lockKey ≠ r.lockKey)
    (taken : ∀ r n, p.taken = some (r,n) → n = w.db.nextSequenceNo r.spaceId)
    (row : ∀ r m, p = .inserted r m → m = r.command.message r.draws.inboxId r.spaceId m.sequenceNo) :
    Sound (w.move i p) := by
  have opened : ∀ j r, ((w.move i p).phase j).receiving = some r → (w.phase j).receiving = some r := by
    intro j r open_
    rw [World.phase_move] at open_
    split at open_
    · rename_i same
      exact same ▸ receiving r open_
    · exact open_
  have made : ∀ j s, ((w.move i p).phase j).newSpace = some s → (w.phase j).newSpace = some s := by
    intro j s open_
    obtain ⟨r,here,new⟩ := Option.bind_eq_some_iff.mp open_
    exact Option.bind_eq_some_iff.mpr ⟨r,opened j r here,new⟩
  constructor
  · exact sound.exact
  · exact sound.named
  · exact fun j r open_ => sound.housed j r (opened j r open_)
  · exact fun j s open_ => sound.fresh j s (made j s open_)
  · exact fun j k s t first second => sound.apart j k s t (made j s first) (made k t second)
  · intro j k r r' first second same
    rw [World.phase_move] at first second
    split at first <;> split at second
    · rename_i one two
      exact one.trans two.symm
    · rename_i one two
      rcases holder r first with before | free
      · exact one ▸ sound.locks i k r r' before second same
      · exact absurd same.symm (free k r' two second)
    · rename_i one two
      rcases holder r' second with before | free
      · exact two ▸ sound.locks j i r r' first before same
      · exact absurd same (free j r one first)
    · exact sound.locks j k r r' first second same
  · intro j r n open_
    rw [World.phase_move] at open_
    split at open_
    · exact taken r n open_
    · exact sound.next j r n open_
  · intro j r m open_
    rw [World.phase_move] at open_
    split at open_
    · exact row r m open_
    · exact sound.row j r m open_

theorem Sound.idle {w : World} (sound : Sound w) (i : Txn) : Sound (w.move i .idle) :=
  sound.move (fun _ open_ => nomatch open_) (fun _ open_ => nomatch open_) (fun _ _ open_ => nomatch open_)
    (fun _ _ open_ => nomatch open_)

theorem Sound.commit {w : World} {i : Txn} {r : Receiving} {db : Db} (sound : Sound w)
    (holds : (w.phase i).holder = some r) (exact_ : IntakeExact db)
    (named : ∀ t ∈ db.tasks, ∃ m ∈ db.inbox, t.payload.inboxId = some m.id)
    (spaces : Table.Evolves (fun s s' => s'.tenantId = s.tenantId) (fun s => r.newSpace.map Space.id = some s.id)
      w.db.spaces db.spaces)
    (others : ∀ space, space ≠ r.spaceId → db.messages space = w.db.messages space) :
    Sound ({w with db}.move i .idle) := by
  have idle := sound.idle i
  have other : ∀ j r', ((w.move i .idle).phase j).receiving = some r' → j ≠ i := by
    rintro j r' open_ rfl
    rw [World.phase_move,if_pos rfl] at open_
    cases open_
  have mine : ∀ s, r.newSpace = some s → (w.phase i).newSpace = some s := fun s new =>
    Option.bind_eq_some_iff.mpr ⟨r,Phase.receiving_of_holder holds,new⟩
  have unchanged : ∀ j, j ≠ i → w.phase j = (w.move i .idle).phase j := fun j away => by
    rw [World.phase_move,if_neg away]
  refine {idle with exact := exact_,named := named,housed := ?_,fresh := ?_,next := ?_}
  · intro j r' open_
    rcases idle.housed j r' open_ with ⟨s,member,id,tenant⟩ | pending
    · obtain ⟨s',there,id',tenant'⟩ := spaces.kept s member
      exact .inl ⟨s',there,id'.trans id,tenant'.trans tenant⟩
    · exact .inr pending
  · intro j s open_ t there same
    rcases spaces.origin t there with ⟨t₀,member,id,_⟩ | new
    · exact idle.fresh j s open_ t₀ member (id.symm.trans same)
    · obtain ⟨s',made,id⟩ := Option.map_eq_some_iff.mp new
      obtain ⟨r',here,_⟩ := Option.bind_eq_some_iff.mp open_
      have away := other j r' here
      have pending : (w.phase j).newSpace = some s := by
        rw [unchanged j away]
        exact open_
      exact away (sound.apart i j s' s (mine s' made) pending (id.trans same)).symm
  · intro j r' n open_
    have holds' := Phase.holder_of_taken open_
    have away := other j r' (Phase.receiving_of_holder holds')
    have there : (w.phase j).holder = some r' := by
      rw [unchanged j away]
      exact holds'
    have equal := others r'.spaceId (sound.spaces_apart away there holds)
    rw [idle.next j r' n open_]
    change w.db.nextSequenceNo r'.spaceId = db.nextSequenceNo r'.spaceId
    rw [Db.nextSequenceNo,Db.nextSequenceNo,equal]

theorem Finished.exact {db db' : Db} {r : Receiving} {m : InboxMessage} {result : DispatchResult}
    (done : Finished db r m db' result) (exact_ : IntakeExact db)
    (named : ∀ t ∈ db.tasks, ∃ n ∈ db.inbox, t.payload.inboxId = some n.id)
    (row : m = r.command.message r.draws.inboxId r.spaceId (db.nextSequenceNo r.spaceId))
    (key : ∀ t ∈ db.tasks, t.idempotencyKey ≠ r.command.idempotencyKey) :
    IntakeExact db' ∧ ∀ t ∈ db'.tasks, ∃ n ∈ db'.inbox, t.payload.inboxId = some n.id := by
  have inside : ∀ n, n ∈ db'.inbox ↔ n ∈ db.inbox ∨ n = m := by
    intro n
    rw [Table.mem_def,done.inbox,List.mem_append,List.mem_singleton]
    rfl
  have notM : ∀ t ∈ db.tasks, t.payload.inboxId ≠ some m.id := by
    intro t member same
    obtain ⟨n,here,id⟩ := named t member
    exact (done.fresh n here).1 (Option.some.inj (id.symm.trans same))
  obtain ⟨_,unused,t₀,there,id₀,payload₀⟩ := done.created key
  refine ⟨⟨?_,?_,?_⟩,?_⟩
  · intro space
    rw [messages_append done.inbox]
    split
    · rename_i here
      apply (exact_.numbered space).append
      rw [← nextSequenceNo_eq (exact_.numbered space),← here,row]
      rfl
    · rw [List.append_nil]
      exact exact_.numbered space
  · intro n first n' second same
    rcases (inside n).mp first with old | rfl <;> rcases (inside n').mp second with old' | rfl
    · exact exact_.single n old n' old' same
    · exact absurd same (done.fresh n old).2
    · exact absurd same.symm (done.fresh n' old').2
    · rfl
  · intro n member
    rcases (inside n).mp member with old | rfl
    · obtain ⟨t,⟨here,payload⟩,only⟩ := exact_.root n old
      obtain ⟨t',here',id',payload'⟩ := done.tasks.kept t here
      refine ⟨t',⟨here',by rw [payload',payload]⟩,?_⟩
      rintro u ⟨there,payloadU⟩
      rcases done.tasks.origin u there with ⟨u₀,before,sameId,payloadU₀⟩ | ⟨_,fresh⟩
      · have equal : u₀ = t := only u₀ ⟨before,payloadU₀ ▸ payloadU⟩
        exact db'.tasks.unique there here' (sameId.trans (equal ▸ id'.symm))
      · exact absurd (Option.some.inj (payloadU.symm.trans fresh)) (done.fresh n old).1
    · refine ⟨t₀,⟨there,payload₀⟩,?_⟩
      rintro u ⟨there',payloadU⟩
      rcases done.tasks.origin u there' with ⟨u₀,before,_,payloadU₀⟩ | ⟨idU,_⟩
      · exact absurd (payloadU₀ ▸ payloadU) (notM u₀ before)
      · exact db'.tasks.unique there' there (idU.trans id₀.symm)
  · intro t member
    rcases done.tasks.origin t member with ⟨t₀,before,_,payload⟩ | ⟨_,payload⟩
    · obtain ⟨n,here,same⟩ := named t₀ before
      exact ⟨n,(inside n).mpr (.inl here),by rw [payload,same]⟩
    · exact ⟨m,(inside m).mpr (.inr rfl),payload⟩

theorem messages_of_inbox {db db' : Db} (same : db'.inbox = db.inbox) (space : SpaceId) :
    db'.messages space = db.messages space := by
  rw [Db.messages,Db.messages,same]

theorem IntakeExact.of_tables {db db' : Db} (exact_ : IntakeExact db) (inbox : db'.inbox = db.inbox)
    (tasks : db'.tasks = db.tasks) : IntakeExact db' where
  numbered space := by
    rw [messages_of_inbox inbox]
    exact exact_.numbered space
  single := by
    rw [inbox]
    exact exact_.single
  root := by
    rw [inbox,tasks]
    exact exact_.root

theorem step_sound {host : Host} {w w' : World} {e : Event} (sound : Sound w) (fresh : FreshKey w e)
    (step : Step host w e w') : Sound w' := by
  cases step with
  | @ensure i r idle ensured free =>
    -- the new call is the only one of its transaction, and its space is nobody else's
    have opened : ∀ j q, ((w.move i (.ensured r)).phase j).receiving = some q →
        (j = i ∧ q = r) ∨ (j ≠ i ∧ (w.phase j).receiving = some q) := by
      intro j q open_
      rw [World.phase_move] at open_
      split at open_
      · rename_i same
        exact .inl ⟨same,(Option.some.inj open_).symm⟩
      · rename_i away
        exact .inr ⟨away,open_⟩
    have made : ∀ j s, ((w.move i (.ensured r)).phase j).newSpace = some s →
        (j = i ∧ r.newSpace = some s) ∨ (j ≠ i ∧ (w.phase j).newSpace = some s) := by
      intro j s open_
      obtain ⟨q,here,new⟩ := Option.bind_eq_some_iff.mp open_
      rcases opened j q here with ⟨same,rfl⟩ | ⟨away,before⟩
      · exact .inl ⟨same,new⟩
      · exact .inr ⟨away,Option.bind_eq_some_iff.mpr ⟨q,before,new⟩⟩
    have stopped := sound.idle i
    have later : ∀ j, j ≠ i → (w.move i (.ensured r)).phase j = w.phase j := fun j away => by
      rw [World.phase_move,if_neg away]
    constructor
    · exact sound.exact
    · exact sound.named
    · intro j q open_
      rcases opened j q open_ with ⟨_,rfl⟩ | ⟨_,before⟩
      · cases new : q.newSpace with
        | none =>
          rw [new] at ensured
          exact .inl ensured
        | some s =>
          rw [new] at ensured
          obtain ⟨rfl,_⟩ := ensured
          exact .inr ⟨_,rfl,rfl⟩
      · exact sound.housed j q before
    · intro j s open_
      rcases made j s open_ with ⟨_,new⟩ | ⟨_,before⟩
      · rw [new] at ensured
        obtain ⟨rfl,_,absent⟩ := ensured
        exact fun t member => (absent t member).1
      · exact sound.fresh j s before
    · intro j k s t first second same
      rcases made j s first with ⟨rfl,new⟩ | ⟨away,before⟩ <;> rcases made k t second with ⟨rfl,new'⟩ | ⟨away',before'⟩
      · rfl
      · exact absurd same (free k s t new before').1
      · exact absurd same.symm (free j t s new' before).1
      · exact sound.apart j k s t before before' same
    · intro j k q q' first second same
      rw [World.phase_move] at first second
      split at first
      · cases first
      split at second
      · cases second
      · exact sound.locks j k q q' first second same
    · intro j q n open_
      rw [World.phase_move] at open_
      split at open_
      · cases open_
      · exact sound.next j q n open_
    · intro j q m open_
      rw [World.phase_move] at open_
      split at open_
      · cases open_
      · exact sound.row j q m open_
  | @lock i r here free =>
    exact sound.move (fun q open_ => by rw [here]; exact open_)
      (fun q open_ => .inr (fun j r' _ holds => by cases Option.some.inj open_; exact free j r' holds))
      (fun _ _ open_ => nomatch open_) (fun _ _ open_ => nomatch open_)
  | @look i r here absent =>
    exact sound.move (fun q open_ => by rw [here]; exact open_)
      (fun q open_ => .inl (by rw [here]; exact open_))
      (fun q n open_ => by cases Option.some.inj open_; rfl) (fun _ _ open_ => nomatch open_)
  | @duplicate i r m db here known written =>
    have holds : (w.phase i).holder = some r := by rw [here]; rfl
    obtain ⟨inbox,tasks⟩ : db.inbox = w.db.inbox ∧ db.tasks = w.db.tasks := by
      rcases withSpace_spec written with ⟨_,rfl⟩ | ⟨_,_,_,_,rfl⟩ <;> exact ⟨rfl,rfl⟩
    refine sound.commit holds (sound.exact.of_tables inbox tasks) (by rw [inbox,tasks]; exact sound.named) ?_
      (fun space _ => messages_of_inbox inbox space)
    rcases withSpace_spec written with ⟨_,rfl⟩ | ⟨new,_,same,added,rfl⟩
    · exact .refl (fun _ _ => rfl)
    · exact .insert added (fun _ _ => rfl) (by rw [same]; rfl)
  | @insert i r n m db here row unique free =>
    have taken : n = w.db.nextSequenceNo r.spaceId := sound.next i r n (by rw [here]; rfl)
    refine sound.move (fun q open_ => by rw [here]; exact open_) (fun q open_ => .inl (by rw [here]; exact open_)) ?_ ?_
    · intro q k open_
      cases Option.some.inj open_
      rw [row]
      exact taken
    · intro q m' open_
      cases open_
      rw [row]
      rfl
  | @commit i r m db result here done =>
    have holds : (w.phase i).holder = some r := by rw [here]; rfl
    have done := finish_spec done
    have number : m.sequenceNo = w.db.nextSequenceNo r.spaceId := sound.next i r _ (by rw [here]; rfl)
    have row : m = r.command.message r.draws.inboxId r.spaceId (w.db.nextSequenceNo r.spaceId) :=
      number ▸ sound.row i r m here
    obtain ⟨exact_,named⟩ := done.exact sound.exact sound.named row (fresh r m here)
    refine sound.commit holds exact_ named done.spaces ?_
    intro space other
    rw [messages_append done.inbox,if_neg,List.append_nil]
    rw [row]
    exact fun same => other same.symm
  | abort i => exact sound.idle i

/-! ### Exactly once -/

theorem inbox_kept {host : Host} {w w' : World} {e : Event} {m : InboxMessage} (member : m ∈ w.db.inbox)
    (step : Step host w e w') : m ∈ w'.db.inbox := by
  cases step with
  | ensure | lock | look | insert | abort => exact member
  | duplicate _ _ written =>
    rcases withSpace_spec written with ⟨_,rfl⟩ | ⟨_,_,_,_,rfl⟩ <;> exact member
  | @commit _ r n db _ here done =>
    change m ∈ db.inbox.rows
    rw [(finish_spec done).inbox]
    exact List.mem_append_left _ member

theorem commit_stored {host : Host} {w w' : World} {i : Txn} {c : Command} {result : DispatchResult}
    (sound : Sound w) (step : Step host w (.commit i c result) w') :
    ∃ m ∈ w'.db.inbox, m.identity = c.identity ∧ m.id = result.inboxId := by
  have kept : ∀ m ∈ w.db.inbox, m ∈ w'.db.inbox := fun m member => inbox_kept member step
  cases step with
  | @duplicate _ r m db here known written =>
    obtain ⟨member,same⟩ := messageByIdentity?_spec known
    exact ⟨m,kept m member,same,rfl⟩
  | @commit _ r m db _ here done =>
    have done := finish_spec done
    refine ⟨m,?_,?_,done.reply.symm⟩
    · change m ∈ db.inbox.rows
      rw [done.inbox]
      exact List.mem_append_right _ (List.mem_singleton.mpr rfl)
    · rw [sound.row i r m here]
      rfl

/-- While no two messages join to one key: intake is exact, every committed call has
its row, and a created row's root task is new in its transaction. -/
theorem intake_exactly_once (host : Host) {events : List Event} {w : World}
    (run : Run (Guarded FreshKey (Step host)) initial events w) :
    IntakeExact w.db ∧
      (∀ i c result, .commit i c result ∈ events →
        ∃ m ∈ w.db.inbox, m.identity = c.identity ∧ m.id = result.inboxId) ∧
      ∀ i c result w', Guarded FreshKey (Step host) w (.commit i c result) w' → result.created →
        ∃ t ∈ w'.db.tasks, result.taskId = some t.id ∧ t.payload.inboxId = some result.inboxId ∧
          ∀ s ∈ w.db.tasks, s.id ≠ t.id := by
  have stays : ∀ {w events w'}, Run (Guarded FreshKey (Step host)) w events w' → Sound w → Sound w' :=
    fun run sound => run.invariant Sound (fun _ _ _ sound step => step_sound sound step.1 step.2) sound
  refine ⟨(stays run sound_initial).exact,?_,?_⟩
  · intro i c result member
    obtain ⟨before,after,rfl⟩ := List.mem_iff_append.mp member
    obtain ⟨w₁,first,rest⟩ := run.split
    cases rest with
    | cons head tail =>
      obtain ⟨m,stored,facts⟩ := commit_stored (stays first sound_initial) head.2
      exact ⟨m,tail.invariant (m ∈ ·.db.inbox) (fun _ _ _ member step => inbox_kept member step.2) stored,facts⟩
  · rintro i c result w' ⟨fresh,step⟩ created
    cases step with
    | duplicate => cases created
    | @commit _ r m db _ here done =>
      have done := finish_spec done
      obtain ⟨reply,unused,t,member,id,payload⟩ := done.created (fresh r m here)
      exact ⟨t,member,by rw [reply,id],by rw [payload,done.reply],fun s old => id ▸ unused s old⟩

theorem receiveCommand_alone {host : Host} {db db' : Db} {c : Command} {draws : Draws} {now : Time}
    {result : DispatchResult} (ok : receiveCommand host db c draws now = some (db',result))
    (G : World → Event → Prop)
    (allowed : ∀ w e, w.db = db → (∀ i r, (w.phase i).receiving = some r → r.command = c) → G w e) :
    ∃ events, .commit 0 c result ∈ events ∧
      Run (Guarded G (Step host)) ⟨db,fun _ => .idle⟩ events ⟨db',fun _ => .idle⟩ := by
  obtain ⟨db₁,spaceId,ensured,received⟩ := receiveCommand_spec ok
  obtain ⟨new,ensured,written⟩ := ensureTenantSpace_spec ensured
  obtain ⟨inbox,tasks⟩ : db₁.inbox = db.inbox ∧ db₁.tasks = db.tasks := by
    rcases withSpace_spec written with ⟨_,rfl⟩ | ⟨_,_,_,_,rfl⟩ <;> exact ⟨rfl,rfl⟩
  let r : Receiving := ⟨c,draws,now,spaceId,new⟩
  let w : World := ⟨db,fun _ => .idle⟩
  have at_ : ∀ p, (w.move 0 p).phase 0 = p := fun p => by rw [World.phase_move,if_pos rfl]
  have others : ∀ p j, j ≠ 0 → (w.move 0 p).phase j = .idle := fun p j away => by
    rw [World.phase_move,if_neg away]
  have start : ∀ db : Db, World.move ⟨db,fun _ => .idle⟩ 0 .idle = ⟨db,fun _ => .idle⟩ := by
    simp [World.move]
  -- every step starts from the same tables, with no other call open
  have allowed : ∀ (p : Phase) (e : Event), p = .idle ∨ p.receiving = some r → G (w.move 0 p) e := by
    intro p e here
    refine allowed _ _ rfl ?_
    intro i r' receiving
    rw [World.phase_move] at receiving
    split at receiving
    · rcases here with rfl | here
      · cases receiving
      · cases Option.some.inj (here.symm.trans receiving)
        rfl
    · cases receiving
  have moves : ∀ (p q : Phase) (e : Event), p = .idle ∨ p.receiving = some r →
      Step host (w.move 0 p) e ((w.move 0 p).move 0 q) → Guarded G (Step host) (w.move 0 p) e (w.move 0 q) :=
    fun p q e here step => ⟨allowed p e here,World.move_move w 0 p q ▸ step⟩
  have commits : ∀ (p : Phase) (e : Event), p.receiving = some r →
      Step host (w.move 0 p) e (World.move ⟨db',(w.move 0 p).phase⟩ 0 .idle) →
      Guarded G (Step host) (w.move 0 p) e ⟨db',fun _ => .idle⟩ := by
    intro p e here step
    refine ⟨allowed p e (.inr here),?_⟩
    have equal : World.move ⟨db',(w.move 0 p).phase⟩ 0 .idle = ⟨db',fun _ => .idle⟩ :=
      (World.move_move ⟨db',fun _ => .idle⟩ 0 p .idle).trans (start db')
    rwa [equal] at step
  have ensure := moves .idle (.ensured r) (.ensure 0 r.command) (.inl rfl)
    (.ensure (at_ _) ensured (fun j s t _ open_ => by rw [start db] at open_; cases open_))
  have lock := moves (.ensured r) (.locked r) (.lock 0) (.inr rfl)
    (.lock (at_ _) (fun j r' open_ => by
      by_cases first : j = 0
      · rw [first,at_] at open_
        cases open_
      · rw [others _ j first] at open_
        cases open_))
  rw [start db] at ensure
  rcases receiveInSpace_spec received with ⟨rfl,m,known,rfl⟩ | ⟨unknown,m,db₂,row,message,rest⟩
  · have known : db.messageByIdentity? c.identity = some m := by rwa [Db.messageByIdentity?,← inbox]
    have reply : duplicateOf db' c m = duplicateOf db c m := by
      rw [duplicateOf,duplicateOf,Db.taskByKey?,Db.taskByKey?,tasks]
    rw [reply]
    have commit := commits (.locked r) (.commit 0 r.command (duplicateOf db r.command m)) rfl
      (.duplicate (at_ _) known written)
    exact ⟨_,by simp [r],.cons ensure (.cons lock (.cons commit (.nil _)))⟩
  · have unknown : db.messageByIdentity? c.identity = none := by rwa [Db.messageByIdentity?,← inbox]
    have number : db₁.nextSequenceNo spaceId = db.nextSequenceNo spaceId := by
      rw [Db.nextSequenceNo,Db.nextSequenceNo,Db.messages,Db.messages,inbox]
    have unique : ∃ db₃, db.insertMessage m = some db₃ := by
      obtain ⟨free,rows,inserted,_⟩ := insertMessage_spec message
      rw [inbox] at free inserted
      refine ⟨{db with inbox := rows},?_⟩
      rw [Db.insertMessage,if_neg]
      · simp [inserted]
      · intro taken
        obtain ⟨n,member,same⟩ := List.any_eq_true.mp taken
        simp only [Bool.or_eq_true,decide_eq_true_eq] at same
        exact same.elim (free n member).1 (free n member).2
    obtain ⟨db₃,unique⟩ := unique
    have finished : finish host db r m = some (db',result) := by
      simp only [finish,Option.bind_eq_bind,Option.bind_eq_some_iff]
      exact ⟨db₁,written,db₂,message,rest⟩
    have look := moves (.locked r) (.numbered r (db.nextSequenceNo spaceId)) (.look 0) (.inr rfl)
      (.look (at_ _) unknown)
    have insert := moves (.numbered r (db.nextSequenceNo spaceId)) (.inserted r m) (.insert 0) (.inr rfl)
      (.insert (at_ _) (number ▸ row) unique (fun j m' open_ => by
        by_cases first : j = 0
        · rw [first,at_] at open_
          cases open_
        · rw [others _ j first] at open_
          cases open_))
    have commit := commits (.inserted r m) (.commit 0 r.command result) rfl (.commit (at_ _) finished)
    exact ⟨_,by simp [r],.cons ensure (.cons lock (.cons look (.cons insert (.cons commit (.nil _)))))⟩

theorem freshKey_alone {db : Db} {c : Command} (key : ∀ t ∈ db.tasks, t.idempotencyKey ≠ c.idempotencyKey)
    (w : World) (e : Event) (same : w.db = db)
    (only : ∀ i r, (w.phase i).receiving = some r → r.command = c) : FreshKey w e := by
  cases e with
  | commit i =>
    intro r m here t member
    rw [only i r (by rw [here]; rfl)]
    exact key t (same ▸ member)
  | _ => trivial

/-- Two messages of one tenant that differ in where the colon stands. -/
def colonInSource : Command where
  source := "a:b"
  sourceMessageId := "c"
  tenantId := "t"
  spaceId := "room"
  textValue := "text"
  receivedAt := 0
  taskType := "ingest"

def colonInMessage : Command := {colonInSource with source := "a",sourceMessageId := "b:c",spaceId := "hall"}

def drawn (n : Nat) : Draws :=
  {inboxId := "inbox" ++ toString n,taskId := "task" ++ toString n,event := n,released := fun _ => 0}

def received (db : Db) (c : Command) (n : Nat) : Db := ((receiveCommand asciiHost db c (drawn n) 0).map Prod.fst).getD db

theorem received_spec {db : Db} {c : Command} {n : Nat}
    (ok : (receiveCommand asciiHost db c (drawn n) 0).isSome) :
    ∃ result, receiveCommand asciiHost db c (drawn n) 0 = some (received db c n,result) := by
  obtain ⟨⟨db',result⟩,same⟩ := Option.isSome_iff_exists.mp ok
  exact ⟨result,by simp [received,same]⟩

theorem intake_not_exact :
    ¬ ∀ (host : Host) (events : List Event) (w : World), Run (Step host) initial events w → IntakeExact w.db := by
  intro exact_
  obtain ⟨_,first⟩ : ∃ result, receiveCommand asciiHost {} colonInSource (drawn 1) 0 = some (_,result) :=
    received_spec (by decide)
  obtain ⟨_,second⟩ : ∃ result, receiveCommand asciiHost (received {} colonInSource 1) colonInMessage (drawn 2) 0 =
    some (_,result) := received_spec (by decide)
  obtain ⟨events,_,run⟩ := receiveCommand_alone first (fun _ _ => True) (fun _ _ _ _ => trivial)
  obtain ⟨events',_,run'⟩ := receiveCommand_alone second (fun _ _ => True) (fun _ _ _ _ => trivial)
  have both := (run.append run').imp (fun _ _ _ step => step.2)
  have orphan : ∀ t ∈ (received (received {} colonInSource 1) colonInMessage 2).tasks.rows,
      t.payload.inboxId ≠ some "inbox2" := by decide
  obtain ⟨t,⟨member,payload⟩,_⟩ := (exact_ asciiHost _ _ both).root _ (List.Mem.tail _ (List.Mem.head _))
  exact orphan t member payload

/-- Two messages whose keys differ. -/
theorem intake_exactly_once_twice : ∃ w events, Run (Guarded FreshKey (Step asciiHost)) initial events w ∧
    w.db.inbox.rows.length = 2 ∧ IntakeExact w.db := by
  obtain ⟨_,first⟩ : ∃ result, receiveCommand asciiHost {} colonInSource (drawn 1) 0 = some (_,result) :=
    received_spec (by decide)
  obtain ⟨_,second⟩ : ∃ result, receiveCommand asciiHost (received {} colonInSource 1)
    {colonInSource with sourceMessageId := "d"} (drawn 2) 0 = some (_,result) := received_spec (by decide)
  obtain ⟨events,_,run⟩ := receiveCommand_alone first FreshKey
    (freshKey_alone (fun t member => absurd member (Table.not_mem_empty t)))
  obtain ⟨events',_,run'⟩ := receiveCommand_alone second FreshKey (freshKey_alone (by
    change ∀ t ∈ (received {} colonInSource 1).tasks.rows, _
    decide))
  have both := run.append run'
  exact ⟨_,_,both,rfl,(intake_exactly_once asciiHost both).1⟩

end Suixinji.Dispatch.IntakeRace
