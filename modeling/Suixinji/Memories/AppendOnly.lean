import Suixinji.Memories.Local
import Suixinji.Memories.Approvable

/-! What the consolidation of a semantic candidate can do to the local store. -/
namespace Suixinji.Memories.Local
open Relational Checked Ranking

variable {σ : Type} {lib : Library σ} {s s' : Store σ} {m t : Memory σ} {id : MemoryId} {now : Time}

structure Said (s s' : Store σ) (m m' : Memory σ) : Prop where
  id : m'.id = m.id
  content : m'.content = m.content
  status : m'.status = m.status
  validUntil : m'.validUntil = m.validUntil
  objectValue : m'.objectValue = m.objectValue
  versions : s'.versions.filter (·.memoryId = m.id) = s.versions.filter (·.memoryId = m.id)

def Untouched (s s' : Store σ) : Prop :=
  ∀ m ∈ s.memories, m.memoryType = .semantic → ∃ m' ∈ s'.memories, Said s s' m m'

def SourcedOnly (id : MemoryId) (s s' : Store σ) : Prop :=
  (∀ r ∈ s.sources, r ∈ s'.sources) ∧ ∀ r ∈ s'.sources, r ∈ s.sources ∨ r.memoryId = id

/-- What the transaction of a semantic candidate adds. -/
inductive Adds (lib : Library σ) (call : ApplyCall σ) (similar : List (Memory σ)) (s s' : Store σ) : Prop
  | nothing (memories : s'.memories = s.memories) (sources : s'.sources = s.sources) (versions : s'.versions = s.versions)
  | memory (status : MemoryStatus)
      (memories : s.memories.insert (row lib call.candidate call.newId call.spaceId status call.now) = some s'.memories)
      (sources : SourcedOnly call.newId s s')
      (versions : ∃ v : Version, v.memoryId = call.newId ∧ s'.versions = s.versions ++ [v])
  | source {t : Memory σ} (there : t ∈ s.memories)
      (known : ∃ m ∈ similar, m.id = t.id ∧ call.candidate.effectiveMemoryKey lib = m.effectiveMemoryKey lib)
      (memories : s'.memories = s.memories ∨ s'.memories = s.memories.put { t with
        confidence := strengthened t.confidence call.candidate.confidence
        lastConfirmedAt := some call.now,updatedAt := call.now })
      (sources : SourcedOnly t.id s s') (versions : s'.versions = s.versions)

theorem addSourceRow_only {note : NoteId} {relation : SourceRelation} :
    SourcedOnly id s (addSourceRow id note relation s).2 := by
  unfold addSourceRow
  split
  · exact ⟨fun r member => member,fun r member => .inl member⟩
  · refine ⟨fun r member => (mem_addSource (s := s)).mpr (.inl member),fun r member => ?_⟩
    rcases (mem_addSource (s := s)).mp member with before | rfl
    · exact .inl before
    · exact .inr rfl

theorem addSourceRow_frame {note : NoteId} {relation : SourceRelation} :
    ∃ sources, (addSourceRow id note relation s).2 = { s with sources } := by
  unfold addSourceRow
  split
  · exact ⟨_,rfl⟩
  · exact ⟨_,rfl⟩

theorem insertMemoryRow_ok {c : Candidate σ} {spaceId : SpaceId} {note : NoteId} {status : MemoryStatus}
    (ok : insertMemoryRow lib id spaceId c note status now s = .ok s') :
    s.memories.insert (row lib c id spaceId status now) = some s'.memories ∧ SourcedOnly id s s' ∧
      ∃ v : Version, v.memoryId = id ∧ s'.versions = s.versions ++ [v] := by
  obtain ⟨_,_,ok⟩ := bind_ok.mp ok
  obtain ⟨memories,inserted,ok⟩ := bind_ok.mp ok
  cases ok
  obtain ⟨sources,framed⟩ : ∃ sources, (addSourceRow id note .createdFrom { s with memories }).2 =
      { { s with memories } with sources } := addSourceRow_frame
  have only : SourcedOnly id { s with memories } (addSourceRow id note .createdFrom { s with memories }).2 := addSourceRow_only
  refine ⟨?_,only,?_⟩
  · rw [framed]
    exact demand_ok.mp inserted
  · rw [framed]
    refine ⟨_,?_,rfl⟩
    rfl

variable {texts : Texts σ} {k : Consolidation σ}

theorem semantic_decided (texts : Texts σ) (semantic : k.candidate.memoryType = .semantic) : (k.call texts).candidate = k.candidate ∧
    (k.call texts).mergedContent = none ∧
    (((k.call texts).decision.targetMemoryIds = [] ∧
        ((k.call texts).decision.recommendedAction = .discard ∨ (k.call texts).decision.recommendedAction = .insert)) ∨
      ((k.call texts).decision.recommendedAction = .addSource ∧ ∃ m ∈ k.similar,
        (k.call texts).decision.targetMemoryIds = [m.id] ∧
          k.candidate.effectiveMemoryKey texts.toLibrary = m.effectiveMemoryKey texts.toLibrary)) := by
  have plain : k.decided texts = (k.candidate,texts.adjudicateMemory k.decisionId k.candidate k.similar k.answer,k.similar) := by
    unfold Consolidation.decided
    rw [if_neg]
    rintro ⟨task,_⟩
    rw [semantic] at task
    cases task
  have cases : let d := texts.adjudicateMemory k.decisionId k.candidate k.similar k.answer
      (d.targetMemoryIds = [] ∧ (d.recommendedAction = .discard ∨ d.recommendedAction = .insert)) ∨
        (d.recommendedAction = .addSource ∧ ∃ m ∈ k.similar, d.targetMemoryIds = [m.id] ∧
          k.candidate.effectiveMemoryKey texts.toLibrary = m.effectiveMemoryKey texts.toLibrary) := by
    unfold Texts.adjudicateMemory
    split
    · exact .inl ⟨rfl,.inl rfl⟩
    · split
      · exact .inl ⟨rfl,.inr rfl⟩
      · unfold Texts.adjudicateSemantic
        split
        · rename_i best found
          have listed := List.mem_filter.mp (greatest_mem found)
          exact .inr ⟨rfl,best,listed.1,rfl,of_decide_eq_true listed.2⟩
        · exact .inl ⟨rfl,.inr rfl⟩
  have candidate : (k.call texts).candidate = k.candidate := by
    unfold Consolidation.call
    rw [plain]
    refine if_neg ?_
    rcases cases with ⟨_,action | action⟩ | ⟨action,_⟩ <;> simp [action]
  refine ⟨candidate,rfl,?_⟩
  unfold Consolidation.call
  rw [plain]
  exact cases

theorem semantic_evolve (semantic : k.candidate.memoryType = .semantic) :
    evolveMemory texts.toLibrary (k.call texts) s = applyMemoryDecision texts.toLibrary (k.call texts) s := by
  obtain ⟨_,_,cases⟩ := semantic_decided texts semantic
  unfold evolveMemory
  split
  · rw [if_neg]
    rcases cases with ⟨_,action | action⟩ | ⟨action,_⟩ <;> simp [action]
  · rfl

variable {call : ApplyCall σ} {result : Result}

theorem applyInSession_ok : applyInSession lib call s = .ok (result,s') ↔
    (∃ earlier, prior s call.candidate.candidateId = some earlier ∧ result = earlier.replay ∧ s' = s) ∨
      (prior s call.candidate.candidateId = none ∧ ∃ target, call.target s = .ok target ∧
        call.checkCards target s = .ok () ∧ ∃ ids u, perform lib call (call.settled lib target) target s = .ok (result,ids,u) ∧
          s' = insertDecisionRow call.spaceId call.noteId (call.settled lib target) (decidedStatus result.action) ids none
            call.now u) := by
  unfold applyInSession
  cases earlier : prior s call.candidate.candidateId with
  | some row => simp [eq_comm]
  | none =>
    simp only [reduceCtorEq,false_and,exists_false,false_or,true_and]
    constructor
    · intro ok
      obtain ⟨target,found,rest⟩ := bind_ok.mp ok
      obtain ⟨_,passed,rest⟩ := bind_ok.mp rest
      obtain ⟨⟨r,ids,u⟩,done,rest⟩ := bind_ok.mp rest
      cases rest
      exact ⟨target,found,passed,ids,u,done,rfl⟩
    · rintro ⟨target,found,passed,ids,u,done,rfl⟩
      exact bind_ok.mpr ⟨target,found,bind_ok.mpr ⟨_,passed,bind_ok.mpr ⟨_,done,rfl⟩⟩⟩

theorem archiveTerminalTaskDuplicatesRow_free {c : Candidate σ} {decisionId : DecisionId} {note : NoteId}
    (free : c.memoryType ≠ .task) : archiveTerminalTaskDuplicatesRow lib t c decisionId note now s = .ok ([],s) := by
  unfold archiveTerminalTaskDuplicatesRow
  split
  · rfl
  · rw [if_pos (.inl free)]

theorem insertDecided_adds {similar : List (Memory σ)} {r : Result} {d : Decision} {ids : List MemoryId}
    (ok : insertDecided lib call r d s = .ok (result,ids,s')) :
    Adds lib call similar s s' ∧ result.memoryId = some call.newId := by
  obtain ⟨u,inserted,last⟩ := bind_ok.mp ok
  cases last
  obtain ⟨memories,sources,versions⟩ := insertMemoryRow_ok inserted
  exact ⟨.memory _ memories sources versions,rfl⟩

theorem supportTarget_adds {similar : List (Memory σ)} {r : Result} {ids : List MemoryId} (there : t ∈ s.memories)
    (free : call.candidate.memoryType ≠ .task)
    (known : ∃ m ∈ similar, m.id = t.id ∧ call.candidate.effectiveMemoryKey lib = m.effectiveMemoryKey lib)
    (ok : supportTarget lib call r t s = .ok (result,ids,s')) :
    Adds lib call similar s s' ∧ result.memoryId = some t.id := by
  have only : SourcedOnly t.id s (addSourceRow t.id call.noteId .supportedBy s).2 := addSourceRow_only
  obtain ⟨sources,framed⟩ : ∃ sources, (addSourceRow t.id call.noteId .supportedBy s).2 = { s with sources } :=
    addSourceRow_frame
  unfold supportTarget at ok
  rw [framed] at only
  simp only [framed] at ok
  split at ok
  · obtain ⟨⟨archived,u⟩,none,last⟩ := bind_ok.mp ok
    cases (archiveTerminalTaskDuplicatesRow_free free).symm.trans none
    cases last
    exact ⟨.source there known (.inr rfl) only rfl,rfl⟩
  · cases ok
    exact ⟨.source there known (.inl rfl) only rfl,rfl⟩

theorem reply_action {d : Decision} {target : Option (Memory σ)} (plain : d.recommendedAction ≠ .updateTask) :
    (reply call d target).action = d.recommendedAction :=
  if_neg (fun both => plain both.1)

theorem Adds.decided {similar : List (Memory σ)} {d : Decision} {spaceId : SpaceId} {note : NoteId} {status : DecisionStatus}
    {ids : List MemoryId} {error : Option String} (adds : Adds lib call similar s s') :
    Adds lib call similar s (insertDecisionRow spaceId note d status ids error now s') := by
  cases adds with
  | nothing memories sources versions => exact .nothing memories sources versions
  | memory status memories sources versions => exact .memory status memories sources versions
  | source there known memories sources versions => exact .source there known memories sources versions

theorem performed_adds {target : Option (Memory σ)} {ids : List MemoryId} {u : Store σ}
    (semantic : k.candidate.memoryType = .semantic) (chosen : (k.call texts).target s = .ok target)
    (done : perform texts.toLibrary (k.call texts) ((k.call texts).settled texts.toLibrary target) target s =
      .ok (result,ids,u)) :
    Adds texts.toLibrary (k.call texts) k.similar s u ∧ ∀ id ∈ result.memoryId, id = k.newId ∨ ∃ m ∈ k.similar, m.id = id ∧
      k.candidate.effectiveMemoryKey texts.toLibrary = m.effectiveMemoryKey texts.toLibrary := by
  obtain ⟨candidate,_,cases⟩ := semantic_decided texts semantic
  have inserted (d : Decision) (done : insertDecided texts.toLibrary (k.call texts)
      (reply (k.call texts) d target) d s = .ok (result,ids,u)) : Adds texts.toLibrary (k.call texts) k.similar s u ∧
      ∀ id ∈ result.memoryId, id = k.newId ∨ ∃ m ∈ k.similar, m.id = id ∧
        k.candidate.effectiveMemoryKey texts.toLibrary = m.effectiveMemoryKey texts.toLibrary := by
    obtain ⟨adds,named⟩ := insertDecided_adds done
    exact ⟨adds,fun id there => .inl (Option.some.inj (there.symm.trans named))⟩
  rcases cases with ⟨targets,action⟩ | ⟨action,m,listed,targets,key⟩
  · have absent : target = none := by
      by_contra some
      obtain ⟨t,rfl⟩ := Option.ne_none_iff_exists'.mp some
      have head := ((target_ok chosen).2 t rfl).1
      rw [targets] at head
      cases head
    subst absent
    rcases action with discards | inserts
    · have named : (reply (k.call texts) (k.call texts).decision none).action = .discard :=
        (reply_action (by simp [discards])).trans discards
      simp only [perform,ApplyCall.settled,Option.elim_none,named] at done
      cases done
      refine ⟨.nothing rfl rfl rfl,fun id member => ?_⟩
      cases member
    · have named : (reply (k.call texts) (k.call texts).decision none).action = .insert :=
        (reply_action (by simp [inserts])).trans inserts
      simp only [perform,ApplyCall.settled,Option.elim_none,named] at done
      exact inserted _ done
  · obtain ⟨t,rfl,there⟩ := (target_ok chosen).1 m.id (by rw [targets]; rfl)
    obtain ⟨member,same⟩ := Table.find?_eq_some.mp there
    have known : ∃ m ∈ k.similar, m.id = t.id ∧
        (k.call texts).candidate.effectiveMemoryKey texts.toLibrary = m.effectiveMemoryKey texts.toLibrary :=
      ⟨m,listed,same.symm,by rw [candidate]; exact key⟩
    have free : (k.call texts).candidate.memoryType ≠ .task := by
      rw [candidate,semantic]
      decide
    have settled : ((k.call texts).settled texts.toLibrary (some t)).recommendedAction = .addSource ∨
        ((k.call texts).settled texts.toLibrary (some t)).recommendedAction = .pendingReview := by
      simp only [ApplyCall.settled,Option.elim_some,Decision.settled]
      split
      · split
        · exact .inl rfl
        · exact .inr rfl
      · exact .inl action
    rcases settled with supports | pends
    · have named : (reply (k.call texts) ((k.call texts).settled texts.toLibrary (some t)) (some t)).action = .addSource :=
        (reply_action (by simp [supports])).trans supports
      simp only [perform,named] at done
      obtain ⟨adds,id⟩ := supportTarget_adds member free known done
      refine ⟨adds,fun id' there => .inr ⟨m,listed,?_,key⟩⟩
      rw [id] at there
      exact same.symm.trans (Option.some.inj there)
    · have named : (reply (k.call texts) ((k.call texts).settled texts.toLibrary (some t)) (some t)).action = .pendingReview :=
        (reply_action (by simp [pends])).trans pends
      simp only [perform,named] at done
      exact inserted _ done

/-- The transaction of a semantic candidate adds one memory, or one source to a memory
that was found to have its key, or nothing; and says which memory it was. -/
theorem semantic_adds (semantic : k.candidate.memoryType = .semantic) {r : Except Error Result}
    (ok : applyMemoryDecision texts.toLibrary (k.call texts) s = (r,s')) :
    Adds texts.toLibrary (k.call texts) k.similar s s' ∧ ∀ result, r = .ok result → ∀ id ∈ result.memoryId,
      id = k.newId ∨ (∃ m ∈ k.similar, m.id = id ∧
        k.candidate.effectiveMemoryKey texts.toLibrary = m.effectiveMemoryKey texts.toLibrary) ∨
      ∃ earlier, prior s k.candidate.candidateId = some earlier ∧ earlier.resultMemoryIds.head? = some id := by
  obtain ⟨candidate,_,cases⟩ := semantic_decided texts semantic
  unfold applyMemoryDecision at ok
  split at ok
  · rename_i result u applied
    cases ok
    rcases applyInSession_ok.mp applied with ⟨earlier,there,rfl,rfl⟩ | ⟨_,target,chosen,_,ids,u,done,rfl⟩
    · refine ⟨.nothing rfl rfl rfl,fun result same id named => .inr (.inr ⟨earlier,?_,?_⟩)⟩
      · rw [← candidate]
        exact there
      · cases same
        exact named
    · obtain ⟨adds,named⟩ := performed_adds semantic chosen done
      refine ⟨adds.decided,fun result' same id there => (named id ?_).imp_right .inl⟩
      cases same
      exact there
  · rename_i e failed
    cases ok
    refine ⟨?_,fun result same => by cases same⟩
    split
    · exact .nothing rfl rfl rfl
    · exact .nothing rfl rfl rfl

theorem Adds.untouched {similar : List (Memory σ)} (adds : Adds lib call similar s s') : Untouched s s' := by
  intro m member semantic
  cases adds with
  | nothing memories sources versions =>
    exact ⟨m,by rw [memories]; exact member,rfl,rfl,rfl,rfl,rfl,by rw [versions]⟩
  | memory status memories sources versions =>
    obtain ⟨v,named,versions⟩ := versions
    refine ⟨m,(Table.mem_insert memories).mpr (.inl member),rfl,rfl,rfl,rfl,rfl,?_⟩
    have other : v.memoryId ≠ m.id := fun same => (Table.insert_eq_some.mp memories).1 m member (same.symm.trans named)
    rw [versions,List.filter_append]
    simp [other]
  | source there known memories sources versions =>
    rename_i t
    have same : s'.versions.filter (·.memoryId = m.id) = s.versions.filter (·.memoryId = m.id) := by rw [versions]
    rcases memories with memories | memories
    · exact ⟨m,by rw [memories]; exact member,rfl,rfl,rfl,rfl,rfl,same⟩
    · by_cases here : m.id = t.id
      · obtain rfl := s.memories.unique member there here
        refine ⟨{ m with
          confidence := strengthened m.confidence call.candidate.confidence
          lastConfirmedAt := some call.now,updatedAt := call.now },?_,rfl,rfl,rfl,rfl,rfl,same⟩
        rw [memories,Table.mem_put]
        exact .inr ⟨rfl,m,member,rfl⟩
      · refine ⟨m,?_,rfl,rfl,rfl,rfl,rfl,same⟩
        rw [memories,Table.mem_put]
        exact .inl ⟨member,here⟩

theorem linkAntecedent_only (texts : Texts σ) (k : Consolidation σ) (result : Result) (u : Store σ) :
    (∃ sources, linkAntecedent texts k result u = { u with sources }) ∧
      (result.memoryId = none → linkAntecedent texts k result u = u) ∧
      ∀ id ∈ result.memoryId, SourcedOnly id u (linkAntecedent texts k result u) := by
  unfold linkAntecedent
  simp only
  split
  · rename_i id note named _
    rw [named]
    refine ⟨addSourceRow_frame,nofun,fun id' same => ?_⟩
    obtain rfl := Option.some.inj same
    exact addSourceRow_only
  · exact ⟨⟨u.sources,rfl⟩,fun _ => rfl,fun _ _ => ⟨fun r member => member,fun r member => .inl member⟩⟩

/-- The consolidation of a semantic candidate, in whatever states of the store its two
transactions run: no semantic memory is changed, and one memory or sources of one are added. -/
theorem semantic_append_only (texts : Texts σ) (k : Consolidation σ) (semantic : k.candidate.memoryType = .semantic)
    (s u : Store σ) :
    let done := evolveMemory texts.toLibrary (k.call texts) s
    Untouched s done.2 ∧ Adds texts.toLibrary (k.call texts) k.similar s done.2 ∧ ∀ result, done.1 = .ok result →
      Untouched u (linkAntecedent texts k result u) ∧ (linkAntecedent texts k result u).memories = u.memories ∧
      (result.memoryId = none → linkAntecedent texts k result u = u) ∧
      ∀ id ∈ result.memoryId, SourcedOnly id u (linkAntecedent texts k result u) ∧ (id = k.newId ∨
        (∃ m ∈ k.similar, m.id = id ∧
          k.candidate.effectiveMemoryKey texts.toLibrary = m.effectiveMemoryKey texts.toLibrary) ∨
        ∃ earlier, prior s k.candidate.candidateId = some earlier ∧ earlier.resultMemoryIds.head? = some id) := by
  intro done
  have ok : applyMemoryDecision texts.toLibrary (k.call texts) s = (done.1,done.2) := (semantic_evolve semantic).symm
  obtain ⟨adds,named⟩ := semantic_adds semantic ok
  refine ⟨adds.untouched,adds,fun result same => ?_⟩
  obtain ⟨⟨sources,framed⟩,idle,only⟩ := linkAntecedent_only texts k result u
  refine ⟨fun m member _ => ⟨m,?_,rfl,rfl,rfl,rfl,rfl,?_⟩,?_,idle,fun id there => ⟨only id there,named result same id there⟩⟩
  · rw [framed]
    exact member
  · rw [framed]
  · rw [framed]

/-- A fact that is known, told once more. -/
def teaAgain : Consolidation Unit := {
  spaceId := 0,noteId := 2,candidate := milkMemory,similar := [],decisionId := 2,newId := 2,now := 1 }

def teaKnown : Store Unit :=
  (evolveMemory (Texts.keyed Unit).toLibrary
    (Consolidation.call (.keyed Unit) { teaAgain with
      noteId := 1,candidate := { teaMemory with content := "teawithmilk" },newId := 1 })
    (.empty Unit)).2

theorem semantic_append_only_tea :
    let done := evolveMemory (Texts.keyed Unit).toLibrary
      (Consolidation.call (.keyed Unit) { teaAgain with similar := teaKnown.memories.rows }) teaKnown
    done.2.memories.rows.map Memory.id = [1] ∧ done.2.sources.rows.length = 2 ∧ Untouched teaKnown done.2 := by
  intro done
  exact ⟨by decide +kernel,by decide +kernel,(semantic_append_only (.keyed Unit)
    { teaAgain with similar := teaKnown.memories.rows } rfl teaKnown teaKnown).1⟩

def resolving : Texts Unit :=
  { Texts.keyed Unit with referenceResolved := fun _ => true,antecedentNote := fun _ => some 7 }

def teaTold : Consolidation Unit := {
  spaceId := 0,noteId := 1,candidate := teaMemory,similar := [],decisionId := 1,newId := 1,now := 0 }

/-- The process dies before it links the note, and the user corrects the memory. -/
def teaCorrected : Store Unit :=
  (correctMemory resolving.toLibrary 1 "coffee" none 1 (evolveMemory resolving.toLibrary (teaTold.call resolving) (.empty Unit)).2).toOption.getD
    (.empty Unit)

/-- The candidate is told again, is answered from the earlier decision, and its note becomes a
source of a memory that says something else by now. -/
theorem replay_supports_corrected :
    ¬∀ (texts : Texts Unit) (k : Consolidation Unit) (s : Store Unit), k.candidate.memoryType = .semantic →
      ∀ r ∈ (consolidateCandidate texts k s).2.sources, r ∈ s.sources ∨ r.memoryId = k.newId ∨
        ∃ m ∈ s.memories, m.id = r.memoryId ∧
          (k.candidate.effectiveMemoryKey texts.toLibrary = m.effectiveMemoryKey texts.toLibrary ∨
            texts.normalizeContent k.candidate.content = texts.normalizeContent m.content) := by
  intro only
  have fails := only resolving { teaTold with similar := teaCorrected.memories.rows,decisionId := 2,newId := 2,now := 2 }
    teaCorrected rfl
  revert fails
  decide +kernel

end Suixinji.Memories.Local
