import Suixinji.Relational.Numbering
import Suixinji.Dispatch.Effects

/-! The watermarks of a space against the stages of its messages. -/
namespace Suixinji.Dispatch
open Suixinji.Relational Suixinji.Numbering

inductive Stage where
  | note
  | memory
  deriving DecidableEq

def Stage.text : Stage → String
  | .note => "note"
  | .memory => "memory"

def InboxMessage.stageStatus (m : InboxMessage) : Stage → StageStatus
  | .note => m.noteStatus
  | .memory => m.memoryStatus

def InboxMessage.Ended (stage : Stage) (m : InboxMessage) : Prop := (m.stageStatus stage).ended

instance (stage : Stage) (m : InboxMessage) : Decidable (m.Ended stage) :=
  inferInstanceAs (Decidable (_ = true))

def Space.mark (s : Space) : Stage → Nat
  | .note => s.noteWatermark
  | .memory => s.memoryWatermark

def Db.ExactMark (db : Db) (s : Space) (stage : Stage) : Prop :=
  IsWatermark (db.messages s.id) InboxMessage.sequenceNo (InboxMessage.Ended stage) (s.mark stage)

def Db.ClearMark (db : Db) (s : Space) (stage : Stage) : Prop :=
  s.mark stage ≤ (db.messages s.id).length ∧
    ClearTo (db.messages s.id) InboxMessage.sequenceNo (InboxMessage.Ended stage) (s.mark stage)

theorem Db.ExactMark.clear {db : Db} {s : Space} {stage : Stage} (exact_ : db.ExactMark s stage) :
    db.ClearMark s stage := exact_.1

theorem gate_stage (stage : Stage) (note memory : Truth) :
    Truth.or (consistencyGuarded (some stage.text)).not
      (.or (.and (consistencyIs "note" (some stage.text)) note)
        (.and (consistencyIs "memory" (some stage.text)) memory)) =
      match stage with
      | .note => note
      | .memory => memory := by
  cases stage
  · exact Truth.or_no note
  · rfl

theorem readyInSession_of {p : Payload} {stage : Stage} (consistency : p.consistency = some stage.text) (s : Space) :
    readyInSession s.noteWatermark s.memoryWatermark p =
      (castInteger p.requiredWatermark).atMost (s.mark stage) := by
  rw [readyInSession,consistency,gate_stage]
  cases stage <;> rfl

theorem readyInStatement_of {p : Payload} {stage : Stage} (consistency : p.consistency = some stage.text) (s : Space) :
    readyInStatement s.noteWatermark s.memoryWatermark p =
      ((castBigint p.requiredWatermark).coalesce 0).atMost (s.mark stage) := by
  rw [readyInStatement,consistency,Option.getD_some,gate_stage]
  cases stage <;> rfl

theorem nextSequenceNo_eq {db : Db} {space : SpaceId}
    (numbered : Numbered (db.messages space) InboxMessage.sequenceNo) :
    db.nextSequenceNo space = (db.messages space).length + 1 := by
  rw [Db.nextSequenceNo,numbered.max]

theorem messages_append {db db' : Db} {m : InboxMessage} (rows : db'.inbox.rows = db.inbox.rows ++ [m])
    (space : SpaceId) :
    db'.messages space = db.messages space ++ if m.spaceId = space then [m] else [] := by
  simp only [Db.messages,rows,List.filter_append]
  congr 1
  split <;> simp_all

theorem messages_put {db db' : Db} {m m' : InboxMessage} (member : m ∈ db.inbox) (id : m'.id = m.id)
    (house : m'.spaceId = m.spaceId) (inbox : db'.inbox = db.inbox.put m') (space : SpaceId) :
    db'.messages space = (db.messages space).map (fun n => if n.id = m'.id then m' else n) := by
  simp only [Db.messages,inbox,Table.rows_put,List.filter_map]
  congr 1
  apply List.filter_congr
  intro n inside
  simp only [Function.comp_apply]
  split
  · rename_i same
    have equal : n = m := db.inbox.unique inside member (same.trans id)
    rw [equal,house]
  · rfl

theorem mem_messages_put {db db' : Db} {m m' : InboxMessage} (member : m ∈ db.inbox) (id : m'.id = m.id)
    (house : m'.spaceId = m.spaceId) (inbox : db'.inbox = db.inbox.put m') {space : SpaceId} {n : InboxMessage}
    (inside : n ∈ db'.messages space) : (n ∈ db.messages space ∧ n.id ≠ m.id) ∨ (n = m' ∧ m ∈ db.messages space) := by
  rw [messages_put member id house inbox] at inside
  obtain ⟨old,before,rfl⟩ := List.mem_map.mp inside
  split
  · rename_i same
    have equal : old = m := db.inbox.unique (Db.mem_messages.mp before).1 member (same.trans id)
    exact .inr ⟨rfl,equal ▸ before⟩
  · rename_i other
    exact .inl ⟨before,id ▸ other⟩

theorem le_advanced (messages : List InboxMessage) (stage : InboxMessage → StageStatus) (current : Nat) :
    current ≤ advanced messages stage current := by
  unfold advanced
  dsimp only
  split
  · exact le_max_left _ _
  · split
    · exact le_max_left _ _
    · exact le_refl _

theorem advanced_isWatermark {messages : List InboxMessage} {stage : InboxMessage → StageStatus} {current : Nat}
    (numbered : Numbered messages InboxMessage.sequenceNo) (bound : current ≤ messages.length)
    (clear : ClearTo messages InboxMessage.sequenceNo (fun m => (stage m).ended) current) :
    IsWatermark messages InboxMessage.sequenceNo (fun m => (stage m).ended) (advanced messages stage current) := by
  unfold advanced
  dsimp only
  split
  · rename_i first least
    rw [List.min?_eq_some_iff] at least
    obtain ⟨attained,least⟩ := least
    simp only [List.mem_map,List.mem_filter,decide_eq_true_eq] at attained least
    obtain ⟨m,⟨⟨member,above⟩,open_⟩,rfl⟩ := attained
    refine isWatermark_of_min numbered clear member rfl above (by simpa using open_) ?_
    intro n inside higher notEnded
    exact least _ ⟨n,⟨⟨inside,higher⟩,by simpa using notEnded⟩,rfl⟩
  · rename_i nothing
    have allEnded : ∀ n ∈ messages, current < n.sequenceNo → (stage n).ended := by
      intro n inside higher
      by_contra open_
      rw [List.min?_eq_none_iff,List.map_eq_nil_iff,List.filter_eq_nil_iff] at nothing
      exact nothing n (List.mem_filter.mpr ⟨inside,by simpa using higher⟩) (by simpa using open_)
    split
    · rename_i last greatest
      rw [List.max?_eq_some_iff] at greatest
      obtain ⟨attained,greatest⟩ := greatest
      simp only [List.mem_map,List.mem_filter,decide_eq_true_eq] at attained greatest
      obtain ⟨m,⟨member,above⟩,rfl⟩ := attained
      exact isWatermark_of_max numbered clear member rfl above
        (fun n inside higher => greatest _ ⟨n,⟨inside,higher⟩,rfl⟩) allEnded
    · rename_i empty
      rw [List.max?_eq_none_iff,List.map_eq_nil_iff,List.filter_eq_nil_iff] at empty
      refine isWatermark_of_none numbered clear bound ?_
      intro n inside
      by_contra above
      exact empty n inside (by simpa using above)

theorem advancedSpace_mark (db : Db) (s : Space) (stage : Stage) :
    (db.advancedSpace s).mark stage = advanced (db.messages s.id) (InboxMessage.stageStatus · stage) (s.mark stage) := by
  cases stage <;> rfl

theorem progressMark_eq_advanced (candidates : List InboxMessage) (updated : InboxMessage)
    (stage : InboxMessage → StageStatus) (mark : Nat)
    (same : ∀ m ∈ candidates, m.id = updated.id → m.sequenceNo = updated.sequenceNo) :
    progressMark candidates updated stage mark =
      advanced (candidates.map (fun m => if m.id = updated.id then updated else m)) stage mark := by
  have number : ∀ m ∈ candidates, (if m.id = updated.id then updated else m).sequenceNo = m.sequenceNo := by
    intro m member
    split
    · rename_i equal
      exact (same m member equal).symm
    · rfl
  have status (m : InboxMessage) : stage (if m.id = updated.id then updated else m) =
      if m.id = updated.id then stage updated else stage m := apply_ite _ _ _ _
  have above : ((candidates.map (fun m => if m.id = updated.id then updated else m)).filter
      (fun m => mark < m.sequenceNo)) =
      (candidates.filter (fun m => mark < m.sequenceNo)).map (fun m => if m.id = updated.id then updated else m) := by
    rw [List.filter_map]
    congr 1
    apply List.filter_congr
    intro m member
    simp only [Function.comp_apply,number m member]
  have numbers : ∀ l : List InboxMessage, (∀ m ∈ l, m ∈ candidates) →
      (l.map (fun m => if m.id = updated.id then updated else m)).map InboxMessage.sequenceNo =
        l.map InboxMessage.sequenceNo := by
    intro l inside
    rw [List.map_map]
    exact List.map_congr_left (fun m member => number m (inside m member))
  unfold progressMark advanced
  dsimp only
  rw [above,List.filter_map,numbers _ (fun m member => (List.mem_filter.mp member).1),
    numbers _ (fun m member => (List.mem_filter.mp (List.mem_filter.mp member).1).1)]
  simp only [Function.comp_def,status]
  cases (((candidates.filter (fun m => decide (mark < m.sequenceNo))).filter
      (fun m => !(if m.id = updated.id then stage updated else stage m).ended)).map InboxMessage.sequenceNo).min? with
  | some first => rfl
  | none =>
    cases ((candidates.filter (fun m => decide (mark < m.sequenceNo))).map InboxMessage.sequenceNo).max? with
    | some last => rfl
    | none => exact Nat.max_self mark

end Suixinji.Dispatch
