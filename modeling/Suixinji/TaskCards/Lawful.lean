import Suixinji.TaskCards.Apply
import Suixinji.Memories.Waiting

/-! What a plan that passes its checks does to a card, and what the decision made from
it does to the store. -/
namespace Suixinji.TaskCards
open Relational Checked Memories

variable {t : Texts} {value : TaskInput} {plan : TaskPlan} {found : List (Entry t)} {e : Entry t} {card : TaskCard}
  {source : CardSource}

structure Lawful (value : TaskInput) (before after : TaskCard) : Prop where
  subject : after.subject ≠ before.subject →
    value.intent = .transfer ∨ (value.intent = .correct ∧ .subject ∈ value.correctionFields)
  task : after.task ≠ before.task → value.intent = .correct ∧ .task ∈ value.correctionFields
  reopened : before.taskStatus = some .done → after.taskStatus = some .todo →
    value.intent = .reopen ∨ value.intent = .correct
  taskInstance : Text.present before.taskInstance → after.taskInstance = before.taskInstance
  sources : before.sources <+: after.sources

theorem checkPatch_ok {patch : Field × String} (ok : checkPatch t value patch = .ok ()) :
    (value.intent = .correct → patch.1 ∈ value.correctionFields) ∧ (patch.1 = .task → value.intent = .correct) ∧
      (patch.1 = .subject → value.intent.special) := by
  obtain ⟨_,_,ok⟩ := bind_ok.mp ok
  obtain ⟨_,fields,ok⟩ := bind_ok.mp ok
  obtain ⟨_,renames,ok⟩ := bind_ok.mp ok
  rw [require_ok] at fields renames ok
  refine ⟨fun corrects => ?_,fun named => ?_,fun named => ?_⟩
  · by_contra absent
    exact fields ⟨corrects,absent⟩
  · by_contra other
    exact renames ⟨named,other⟩
  · by_contra plain
    exact ok ⟨named,plain⟩

theorem checkReverts_ok (ok : checkReverts value card = .ok ()) (reverts : value.reverts card) :
    value.intent = .reopen ∨ value.intent = .correct := by
  obtain ⟨_,_,ok⟩ := bind_ok.mp ok
  by_contra other
  rw [not_or] at other
  exact require_ok.mp ok ⟨reverts,other.1,other.2⟩

theorem checkUpdate_ok (ok : checkUpdate value plan found e = .ok ()) :
    (∀ patch ∈ plan.patches, checkPatch t value patch = .ok ()) ∧
      (value.reverts e.card → value.intent = .reopen ∨ value.intent = .correct) ∧ plan.description.isSome := by
  obtain ⟨_,_,ok⟩ := bind_ok.mp ok
  obtain ⟨_,patches,ok⟩ := bind_ok.mp ok
  obtain ⟨_,_,ok⟩ := bind_ok.mp ok
  obtain ⟨_,_,ok⟩ := bind_ok.mp ok
  obtain ⟨_,_,ok⟩ := bind_ok.mp ok
  obtain ⟨_,reverts,ok⟩ := bind_ok.mp ok
  exact ⟨forM_ok patches,checkReverts_ok reverts,require_ok.mp ok⟩

theorem checkPlan_ok {current : Option (Entry t)} (ok : checkPlan value plan found = .ok current) :
    ∀ e ∈ current, e ∈ found ∧ checkUpdate value plan found e = .ok () := by
  intro e chosen
  unfold checkPlan at ok
  split at ok
  · cases ok
  · obtain ⟨_,_,ok⟩ := bind_ok.mp ok
    obtain ⟨_,_,ok⟩ := bind_ok.mp ok
    cases ok
    cases chosen
  · obtain ⟨current,there,ok⟩ := bind_ok.mp ok
    obtain ⟨_,checked,ok⟩ := bind_ok.mp ok
    cases ok
    cases chosen
    exact ⟨List.mem_of_find?_eq_some (demand_ok.mp there),checked⟩

theorem merge_status {current : Option (Entry t)} (ok : merge value current plan source = .ok card) :
    card.taskStatus = some value.taskStatus := by
  obtain ⟨_,_,ok⟩ := bind_ok.mp ok
  cases ok
  rfl

theorem merge_lawful (checked : checkUpdate value plan found e = .ok ()) (ok : merge value (some e) plan source = .ok card) :
    Lawful value e.card card := by
  obtain ⟨patches,reverts,_⟩ := checkUpdate_ok checked
  obtain ⟨_,_,ok⟩ := bind_ok.mp ok
  cases ok
  refine ⟨fun moved => ?_,fun renamed => ?_,fun done todo => reverts ⟨done,Option.some.inj todo⟩,fun known => ?_,?_⟩
  · cases patched : plan.subject with
    | none => simp [patched] at moved
    | some subject =>
      obtain ⟨fields,_,special⟩ := checkPatch_ok (patches (.subject,subject) (by simp [TaskPlan.patches,patched]))
      have special := special rfl
      simp only [Intent.special,Bool.or_eq_true,decide_eq_true_eq] at special
      rcases special with corrects | transfers
      · exact .inr ⟨corrects,fields corrects⟩
      · exact .inl transfers
  · cases patched : plan.task with
    | none => simp [patched] at renamed
    | some task =>
      obtain ⟨fields,corrects,_⟩ := checkPatch_ok (patches (.task,task) (by simp [TaskPlan.patches,patched]))
      exact ⟨corrects rfl,fields (corrects rfl)⟩
  · have filled : (Text.present value.taskInstance && !Text.present e.card.taskInstance &&
        !((some e).isSome && value.keepsTime)) = false := by rw [known]; simp
    exact if_neg (by rw [Bool.not_eq_true]; exact filled)
  · dsimp only
    split
    · exact List.prefix_rfl
    · exact List.prefix_append ..

/-- The decision writes a card that the message makes, lawfully where there was one. -/
structure CardCall.Writes (call : CardCall) (value : TaskInput) (current : Option (Entry t)) : Prop where
  version : call.candidate.memoryKeyVersion = .taskCardV2
  task : call.candidate.memoryType = .task
  status : call.candidate.taskStatus = some value.taskStatus
  action : call.decision.recommendedAction = if current.isSome then .updateTask else .insert
  targets : call.decision.targetMemoryIds = (current.map Entry.id).toList
  known : call.decision.targetSnapshotVersion = current.map (fun e => e.record.row.currentVersion)
  card : ∃ card, call.candidate.scope.taskCard = some card ∧ card.taskStatus = some value.taskStatus ∧
    ∀ e ∈ current, Lawful value e.card card

theorem attempt_writes {ids : Ids} {p : Prepared} {answer : TaskPlan} {call : CardCall}
    (ok : attempt ids p found answer = .ok (.decided call)) :
    ∃ current, call.Writes p.value current ∧ ∀ e ∈ current, e ∈ found := by
  unfold attempt at ok
  split at ok
  · cases ok
  · obtain ⟨current,checked,ok⟩ := bind_ok.mp ok
    obtain ⟨card,merged,ok⟩ := bind_ok.mp ok
    split at ok <;> cases ok
    have passed := checkPlan_ok checked
    refine ⟨current,⟨rfl,p.typed,p.agrees,rfl,rfl,rfl,card,rfl,merge_status merged,fun e chosen => ?_⟩,
      fun e chosen => (passed e chosen).1⟩
    obtain rfl := Option.mem_def.mp chosen
    exact merge_lawful (passed e rfl).2 merged

theorem completeOne_writes {ids : Ids} {spaceId : SpaceId} {op : Operation} {number : Nat} {call : CardCall}
    (ok : completeOne ids spaceId op number e = .ok call) :
    ∃ value, completed e op.text = .ok value ∧ call.Writes value (some e) := by
  obtain ⟨value,said,ok⟩ := bind_ok.mp ok
  obtain ⟨current,checked,ok⟩ := bind_ok.mp ok
  obtain ⟨source,_,ok⟩ := bind_ok.mp ok
  obtain ⟨card,merged,ok⟩ := bind_ok.mp ok
  cases ok
  have chosen : current = some e := by
    unfold checkPlan at checked
    obtain ⟨e',there,ok⟩ := bind_ok.mp checked
    obtain ⟨_,_,ok⟩ := bind_ok.mp ok
    cases ok
    rw [List.mem_singleton.mp (List.mem_of_find?_eq_some (demand_ok.mp there))]
  subst chosen
  refine ⟨value,said,rfl,rfl,rfl,rfl,rfl,rfl,card,rfl,merge_status merged,fun e' same => ?_⟩
  obtain rfl := Option.some.inj same
  exact merge_lawful (checkPlan_ok checked e rfl).2 merged

variable {lib : Library Scope} {s s' : Store Scope} {call : CardCall} {current : Option (Entry t)} {newId : MemoryId} {now : Time}

/-- The row that a decision about a card leaves in the place of `m`. -/
def CardCall.written (lib : Library Scope) (call : CardCall) (newId : MemoryId) (now : Time) (m : Memory Scope) : Memory Scope :=
  m.changed lib ((call.apply newId now).mutation lib call.decision m) now

def CardCall.inserted (lib : Library Scope) (call : CardCall) (newId : MemoryId) (now : Time) : Memory Scope :=
  call.candidate.row lib newId call.spaceId .active now

/-- What the transaction of a decision about a card does to the memories. -/
inductive CardCall.Commits (lib : Library Scope) (call : CardCall) (current : Option (Entry t)) (newId : MemoryId)
    (now : Time) (s s' : Store Scope) : Prop
  | kept (memories : s'.memories = s.memories)
  | inserted (new : current = none) (memories : s.memories.insert (call.inserted lib newId now) = some s'.memories)
  | updated {e m} (chosen : current = some e) (there : s.memories.find? e.id = some m)
      (unmoved : m.currentVersion = e.record.row.currentVersion)
      (memories : s'.memories = s.memories.put (call.written lib newId now m))

theorem archiveTerminalTaskDuplicates_card {c : Candidate Scope} {target : MemoryId} {decisionId : DecisionId} {note : NoteId}
    (cards : c.memoryKeyVersion.taskCard) : archiveTerminalTaskDuplicates lib target c decisionId note now s = .ok ([],s) := by
  unfold archiveTerminalTaskDuplicates
  split
  · rfl
  · rw [if_pos (by simp [cards])]

theorem perform_insert {c : ApplyCall Scope} {d : Decision} {target : Option (Memory Scope)}
    (inserts : d.recommendedAction = .insert) : perform lib c d target s = insertDecided lib c d .active s := by
  simp only [perform,inserts]

theorem perform_updateTask {c : ApplyCall Scope} {d : Decision} {m : Memory Scope}
    (updates : d.recommendedAction = .updateTask) : perform lib c d (some m) s = mutateTarget lib c d m s := by
  simp only [perform,updates]

theorem CardCall.Writes.carried (writes : call.Writes value current) {r : Except Error Result}
    (ok : applyMemoryDecision lib (call.apply newId now) s = (r,s')) :
    s'.memories = s.memories ∧ s'.versions = s.versions ∨
    ∃ target result ids u decisions, perform lib (call.apply newId now) call.decision target s = .ok (result,ids,u) ∧
      s' = { u with decisions,derived := s'.derived } ∧ (current = none → target = none) ∧
      ∀ e ∈ current, ∃ m, target = some m ∧ s.memories.find? e.id = some m ∧ m.currentVersion = e.record.row.currentVersion := by
  unfold applyMemoryDecision at ok
  split at ok
  · rename_i result u applied
    cases ok
    rcases applyInSession_ok.mp applied with ⟨prior,_,_,rfl⟩ | ⟨_,target,chosen,passed,ids,u,done,saved⟩
    · exact .inl ⟨rfl,rfl⟩
    · obtain ⟨decisions,rfl⟩ := saveDecision_frame saved
      cases current with
      | none =>
        have absent : target = none := by
          have targets : (call.apply newId now).decision.targetMemoryIds = [] := writes.targets
          rw [ApplyCall.target,targets] at chosen
          cases chosen
          rfl
        subst absent
        exact .inr ⟨none,result,ids,u,decisions,done,rfl,fun _ => rfl,fun e none => absurd none (by simp)⟩
      | some e =>
        have targets : (call.apply newId now).decision.targetMemoryIds = [e.id] := writes.targets
        rw [ApplyCall.target,targets] at chosen
        obtain ⟨m,there,rest⟩ := bind_ok.mp chosen
        cases rest
        have there := demand_ok.mp there
        obtain ⟨_,_,passed⟩ := bind_ok.mp passed
        obtain ⟨_,_,passed⟩ := bind_ok.mp passed
        obtain ⟨_,same,_⟩ := bind_ok.mp passed
        have cards : call.candidate.memoryKeyVersion.taskCard := by rw [writes.version]; rfl
        have unmoved : m.currentVersion = e.record.row.currentVersion := by
          by_contra moved
          refine require_ok.mp same ⟨cards,m,rfl,.inr fun known => moved ?_⟩
          exact Option.some.inj (known.trans writes.known)
        have kept : (call.apply newId now).settled lib (some m) = call.decision := by
          refine if_neg ?_
          rintro ⟨v,known,other⟩
          have known : call.decision.targetSnapshotVersion = some v := known
          rw [writes.known] at known
          exact other (by rw [unmoved]; exact (Option.some.inj known).symm)
        rw [kept] at done
        refine .inr ⟨some m,result,ids,u,decisions,done,rfl,by simp,fun e' same => ?_⟩
        obtain rfl := Option.some.inj same
        exact ⟨m,rfl,there,unmoved⟩
  · cases ok
    refine .inl ?_
    split
    · exact ⟨rfl,rfl⟩
    · rename_i e _ _
      unfold recordFailure
      cases saved : saveDecision (call.apply newId now).spaceId (call.apply newId now).noteId
          ((call.apply newId now).attempted lib s) .failed [] (some e.typeName) (call.apply newId now).now s with
      | error _ => exact ⟨rfl,rfl⟩
      | ok u =>
        obtain ⟨decisions,rfl⟩ := saveDecision_frame saved
        exact ⟨rfl,rfl⟩

theorem CardCall.Writes.updated (writes : call.Writes value (some e)) {m : Memory Scope} {result : Result} {ids : List MemoryId}
    {u : Store Scope} (done : perform lib (call.apply newId now) call.decision (some m) s = .ok (result,ids,u))
    (there : s.memories.find? e.id = some m) : u.memories = s.memories.put (call.written lib newId now m) ∧
      ∃ v : Version, u.versions = s.versions ++ [v] ∧ v.memoryId = e.id ∧ v.sourceNoteId = some call.noteId := by
  have cards : call.candidate.memoryKeyVersion.taskCard := by rw [writes.version]; rfl
  have updates : call.decision.recommendedAction = .updateTask := writes.action
  have performed : mutateTarget lib (call.apply newId now) call.decision m s = .ok (result,ids,u) :=
    (perform_updateTask updates).symm.trans done
  have same := (Table.find?_eq_some.mp there).2
  obtain ⟨v,update,rest⟩ := bind_ok.mp performed
  obtain ⟨m',there',_,written⟩ := versionedUpdate_ok.mp update
  obtain rfl : m = m' := by
    rw [same] at there'
    exact Option.some.inj (there.symm.trans there')
  rw [if_pos updates] at rest
  obtain ⟨⟨gone,w⟩,archived,last⟩ := bind_ok.mp rest
  cases archived.symm.trans (archiveTerminalTaskDuplicates_card cards)
  cases last
  subst written
  exact ⟨rfl,_,rfl,same,rfl⟩

theorem CardCall.Writes.commits (writes : call.Writes value current) {r : Except Error Result}
    (ok : applyMemoryDecision lib (call.apply newId now) s = (r,s')) : call.Commits lib current newId now s s' := by
  rcases writes.carried ok with ⟨memories,_⟩ | ⟨target,result,ids,u,decisions,done,left,absent,known⟩
  · exact .kept memories
  · have memories : s'.memories = u.memories := by rw [left]
    cases current with
    | none =>
      have inserts : call.decision.recommendedAction = .insert := writes.action
      have performed : insertDecided lib (call.apply newId now) call.decision .active s = .ok (result,ids,u) :=
        (perform_insert inserts).symm.trans done
      exact .inserted rfl (by rw [memories]; exact (insertDecided_ok performed).1.memories)
    | some e =>
      obtain ⟨m,rfl,there,unmoved⟩ := known e rfl
      exact .updated rfl there unmoved (memories.trans (writes.updated done there).1)

theorem CardCall.Writes.normalized (writes : call.Writes value current) :
    call.candidate.taskStatus.map TaskStatus.normalize = some value.taskStatus := by
  rw [writes.status,Option.map_some,TaskStatus.normalize_of_writable value.binary]

theorem CardCall.Writes.written (lib : Library Scope) (newId : MemoryId) (now : Time)
    (writes : call.Writes value (some e)) (m : Memory Scope) :
    (call.written lib newId now m).memoryKeyVersion = .taskCardV2 ∧
      (call.written lib newId now m).currentVersion = m.currentVersion + 1 ∧
      (call.written lib newId now m).scope = call.candidate.scope ∧
      (call.written lib newId now m).taskStatus = some value.taskStatus := by
  have updates : call.decision.recommendedAction = .updateTask := writes.action
  refine ⟨writes.version,rfl,rfl,?_⟩
  simp [CardCall.written,Memory.changed,ApplyCall.mutation,updates,CardCall.apply,writes.status,
    TaskStatus.normalize_of_writable value.binary]

end Suixinji.TaskCards
