import Suixinji.Ask.Validate

/-! The repairs of `validate_ask_plan` made twice: what the words of a question do to a unit, and
what they do to the unit that comes of it. -/
namespace Suixinji.Ask
open Memories (MemoryType)

section Intent

variable (cues : Cues) (now : Bool) (unit : QueryUnit)

def Cues.Present (intents : List Intent) : Prop :=
  unit.intent ∈ intents ∧ cues.timely now unit = false ∨ unit.intent = .noteLookup ∧ (cues.timely now unit && cues.episode) = false

def Cues.TurnsToTask : Prop := cues.event = true ∧ cues.Present now unit [.semanticCurrent]

def Cues.TurnsToInventory : Prop :=
  (unit.evidenceMode = .inventory ∨ cues.listed = true) ∧ cues.Present now unit [.taskState,.semanticCurrent,.semanticHistory]

/-- The unit is about the present and would be about history without its word for the present. -/
def Cues.StaysCurrent : Prop :=
  unit.timeMode = .current ∧ now = true ∧
    (unit.intent = .noteLookup ∧ cues.episode = true ∨ unit.intent ∉ [Intent.episodicHistory,.noteLookup])

/-- A second repair finds no reason to change what the first has made: no task state in a question
for a list, and where the question has words for the course of time, what is current says so. -/
def Cues.Settled (later : Bool) : Prop :=
  cues.ambiguous = true ∨
    (cues.TurnsToTask now unit → cues.listed = false) ∧
    (cues.timeline = true → cues.TurnsToTask now unit ∨ cues.TurnsToInventory now unit ∨ cues.StaysCurrent now unit → later = true)

end Intent

theorem repairIntentForQuery_eq (casefold : Char → List Char) (unit : QueryUnit) (question : String) :
    repairIntentForQuery casefold unit question = (cuesOf casefold question).repair (asksNow casefold unit.question) unit := rfl

section Twice

variable {cues : Cues} {now later : Bool} {unit next : QueryUnit}

structure Follows (repaired next : QueryUnit) : Prop where
  intent : next.intent = repaired.intent
  memoryType : next.memoryType = (intentMemoryType repaired.intent).or repaired.memoryType
  timeMode : next.timeMode = repaired.timeMode
  evidenceMode : next.evidenceMode = repaired.evidenceMode
  needSourceEvidence : next.needSourceEvidence = repaired.needSourceEvidence

theorem repair_eq_self (clear : cues.ambiguous = false) : cues.repair now unit = unit ↔
    (cues.timely now unit && unit.intent = .noteLookup && cues.episode) = false ∧
    (cues.timely now unit = true → unit.intent ∉ [Intent.episodicHistory,.noteLookup] →
      unit.intent = .memoryHistory ∧ unit.memoryType = none ∧ unit.timeMode = .history ∧ unit.evidenceMode = .timeline ∧
      unit.needSourceEvidence = true) ∧
    ¬cues.TurnsToTask now unit ∧ ¬cues.TurnsToInventory now unit := by
  unfold Cues.TurnsToTask Cues.TurnsToInventory Cues.Present Cues.repair
  generalize cues.timely now unit = timely
  rw [clear,if_neg Bool.false_ne_true]
  cases unit with | mk id question sourceSpans intent memoryType facet topic timeMode evidenceMode need dependsOn priority =>
  cases timely <;> cases intent <;> simp <;> grind

theorem repair_settled (follows : Follows (cues.repair now unit) next) : cues.repair later next = next ↔ cues.Settled now unit later := by
  obtain ⟨intent,memoryType,timeMode,evidenceMode,need⟩ := follows
  cases ambiguous : cues.ambiguous with
  | true =>
    refine iff_of_true ?_ (.inl ambiguous)
    simp only [Cues.repair,if_pos ambiguous] at intent memoryType timeMode evidenceMode ⊢
    cases next
    simp_all [intentMemoryType]
  | false =>
    rw [repair_eq_self ambiguous]
    unfold Cues.repair at intent memoryType timeMode evidenceMode need
    unfold Cues.Settled Cues.TurnsToTask Cues.TurnsToInventory Cues.StaysCurrent Cues.Present Cues.timely
    unfold Cues.timely at intent memoryType timeMode evidenceMode need
    rw [ambiguous,if_neg Bool.false_ne_true] at intent memoryType timeMode evidenceMode need
    split_ifs at intent memoryType timeMode evidenceMode need with episodic history event listed
    · -- an episode stays one
      simp [intent,timeMode,evidenceMode]
      grind
    · -- and so does a history
      simp [intent,memoryType,timeMode,evidenceMode,need,intentMemoryType]
      grind
    · simp [intent,timeMode,evidenceMode]
      grind
    · simp [intent,timeMode,evidenceMode]
      grind
    · -- only with other words for it, that it is current is lost
      simp [intent,timeMode,evidenceMode]
      simp_all
      grind

/-- What is taken over unchanged is not changed at all. -/
theorem repair_of_follows (follows : Follows (cues.repair now unit) unit) : cues.repair now unit = unit := by
  obtain ⟨intent,memoryType,timeMode,evidenceMode,need⟩ := follows
  unfold Cues.repair at intent memoryType timeMode evidenceMode need ⊢
  obtain ⟨_,_,_,i,type,_,_,time,evidence,source,_,_⟩ := unit
  split_ifs at intent memoryType timeMode evidenceMode need ⊢
  all_goals
    dsimp only at intent memoryType timeMode evidenceMode need
    subst_vars
    rfl

theorem Follows.filled (follows : Follows unit next) : (intentMemoryType next.intent).or next.memoryType = next.memoryType := by
  rw [follows.intent,follows.memoryType]
  cases intentMemoryType unit.intent <;> rfl

def Typed (unit : QueryUnit) : Prop :=
  ((intentMemoryType unit.intent).isSome && unit.memoryType ∉ [none,intentMemoryType unit.intent]) = false

theorem typed_of_filled (filled : (intentMemoryType unit.intent).or unit.memoryType = unit.memoryType) : Typed unit := by
  unfold Typed
  cases expected : intentMemoryType unit.intent with
  | none => rfl
  | some type =>
    rw [expected,Option.some_or] at filled
    simp [← filled]

theorem repair_typed (typed : Typed unit) : Typed (cues.repair now unit) := by
  unfold Cues.repair
  split_ifs
  iterate 5 exact rfl
  exact typed

end Twice

section Anchor

variable (casefold : Char → List Char) (question : String) (session : List String)

def Held (unit : QueryUnit) : Prop :=
  ∀ anchor ∈ unit.sourceSpans.find? (supported casefold (sources casefold question session)),
    (!(anchorNgrams casefold anchor).isEmpty && (anchorNgrams casefold anchor).all (· ∉ anchorNgrams casefold unit.question)) = false

variable {casefold question session} {unit other : QueryUnit}

theorem repairQueryAnchor_of_held (held : Held casefold question session unit) :
    repairQueryAnchor casefold unit question session = unit := by
  unfold repairQueryAnchor
  split
  · rfl
  · rename_i anchor found
    exact if_neg (Bool.eq_false_iff.mp (held anchor found))

theorem own_pairs (terms : List (List Char)) : (!terms.isEmpty && terms.all (· ∉ terms)) = false := by
  cases terms with
  | nil => rfl
  | cons term rest => simp

theorem repairQueryAnchor_held : Held casefold question session (repairQueryAnchor casefold unit question session) := by
  intro anchor found
  unfold repairQueryAnchor at found ⊢
  split at found
  · rename_i absent
    rw [absent] at found
    cases found
  · rename_i first chosen
    dsimp only at found ⊢
    have same : anchor = first := by
      split at found
      · exact Option.some.inj (found.symm.trans chosen)
      · exact Option.some.inj (found.symm.trans chosen)
    subst same
    split
    · exact own_pairs _
    · rename_i kept
      exact Bool.eq_false_iff.mpr kept

theorem repairQueryAnchor_fields : repairQueryAnchor casefold unit question session =
    { unit with
      question := (repairQueryAnchor casefold unit question session).question
      topic := (repairQueryAnchor casefold unit question session).topic } := by
  unfold repairQueryAnchor
  split
  · rfl
  · dsimp only
    split <;> rfl

theorem repairQueryAnchor_question (spans : unit.sourceSpans = other.sourceSpans) (asked : unit.question = other.question) :
    (repairQueryAnchor casefold unit question session).question = (repairQueryAnchor casefold other question session).question := by
  unfold repairQueryAnchor
  rw [spans]
  split
  · exact asked
  · dsimp only
    rw [asked]
    split
    · rfl
    · exact asked

end Anchor

section Accepted

variable (casefold : Char → List Char) (question : String) (session known : List String)

/-- What the loop makes of a unit that it does not drop. -/
structure Accepted (unit next : QueryUnit) : Prop where
  follows : Follows (repairIntentForQuery casefold unit question) next
  spans : next.sourceSpans = unit.sourceSpans
  asked : next.question = (repairQueryAnchor casefold unit question session).question
  held : Held casefold question session next
  supported : hasSupportedSpan casefold next question session = true

variable {casefold question session known} {unit next : QueryUnit}

/-- The unit of `acceptUnit` before its anchor is repaired. -/
def typedUnit (casefold : Char → List Char) (question : String) (unit : QueryUnit) : QueryUnit :=
  let repaired := repairIntentForQuery casefold unit question
  { repaired with memoryType := (intentMemoryType repaired.intent).or repaired.memoryType }

theorem repair_rest (cues : Cues) (now : Bool) (unit : QueryUnit) :
    (cues.repair now unit).id = unit.id ∧ (cues.repair now unit).question = unit.question ∧
    (cues.repair now unit).sourceSpans = unit.sourceSpans ∧ (cues.repair now unit).dependsOn = unit.dependsOn := by
  unfold Cues.repair
  split_ifs <;> exact ⟨rfl,rfl,rfl,rfl⟩

theorem acceptUnit_eq (casefold : Char → List Char) (question : String) (session known : List String) (unit : QueryUnit) :
    acceptUnit casefold question session known unit =
      if (intentMemoryType (repairIntentForQuery casefold unit question).intent).isSome &&
          (repairIntentForQuery casefold unit question).memoryType ∉
            [none,intentMemoryType (repairIntentForQuery casefold unit question).intent] then none
      else if (typedUnit casefold question unit).sourceSpans.isEmpty ||
          !hasSupportedSpan casefold (typedUnit casefold question unit) question session then none
      else some (among known (repairQueryAnchor casefold (typedUnit casefold question unit) question session)) := rfl

theorem acceptUnit_rest (accepted : acceptUnit casefold question session known unit = some next) :
    next.id = unit.id ∧ next.dependsOn = unit.dependsOn.filter (fun item => item ∈ known && item ≠ unit.id) := by
  rw [acceptUnit_eq] at accepted
  split_ifs at accepted
  obtain rfl := (Option.some.inj accepted).symm
  obtain ⟨id,-,-,waits⟩ := repair_rest (cuesOf casefold question) (asksNow casefold unit.question) unit
  rw [repairQueryAnchor_fields]
  change (repairIntentForQuery casefold unit question).id = unit.id ∧
    (repairIntentForQuery casefold unit question).dependsOn.filter
      (fun item => item ∈ known && item ≠ (repairIntentForQuery casefold unit question).id) = _
  rw [repairIntentForQuery_eq,id,waits]
  exact ⟨rfl,rfl⟩

theorem accepted_of_acceptUnit (accepted : acceptUnit casefold question session known unit = some next) :
    Accepted casefold question session unit next := by
  rw [acceptUnit_eq] at accepted
  split_ifs at accepted with mistyped unsupported
  obtain ⟨-,asked,spans,-⟩ := repair_rest (cuesOf casefold question) (asksNow casefold unit.question) unit
  have fields := @repairQueryAnchor_fields casefold question session (typedUnit casefold question unit)
  have held := @repairQueryAnchor_held casefold question session (typedUnit casefold question unit)
  have same : (repairQueryAnchor casefold (typedUnit casefold question unit) question session).question =
      (repairQueryAnchor casefold unit question session).question := repairQueryAnchor_question spans asked
  obtain rfl := (Option.some.inj accepted).symm
  generalize repairQueryAnchor casefold (typedUnit casefold question unit) question session = anchored at fields held same ⊢
  rw [Bool.or_eq_true,Bool.not_eq_true',not_or,Bool.not_eq_false] at unsupported
  refine ⟨?_,?_,same,held,?_⟩
  · rw [fields]
    exact ⟨rfl,rfl,rfl,rfl,rfl⟩
  · rw [fields]
    exact spans
  · rw [fields]
    exact unsupported.2

theorem spans_of_shown (shown : hasSupportedSpan casefold unit question session = true) : unit.sourceSpans.isEmpty = false := by
  cases listed : unit.sourceSpans with
  | nil => simp [hasSupportedSpan,listed] at shown
  | cons span rest => rfl

theorem acceptUnit_isSome (typed : Typed unit) (shown : hasSupportedSpan casefold unit question session = true) :
    (acceptUnit casefold question session known unit).isSome := by
  obtain ⟨-,-,spans,-⟩ := repair_rest (cuesOf casefold question) (asksNow casefold unit.question) unit
  have typed : Typed (repairIntentForQuery casefold unit question) := by
    rw [repairIntentForQuery_eq]
    exact repair_typed typed
  have shown : hasSupportedSpan casefold (typedUnit casefold question unit) question session = true := by
    rw [← shown]
    exact congrArg (fun spans => spans.any (supported casefold (sources casefold question session))) spans
  rw [acceptUnit_eq,typed,if_neg Bool.false_ne_true,spans_of_shown shown,shown]
  rfl

theorem among_self (inside : ∀ parent ∈ unit.dependsOn, parent ∈ known ∧ parent ≠ unit.id) : among known unit = unit := by
  have all : unit.dependsOn.filter (fun item => item ∈ known && item ≠ unit.id) = unit.dependsOn :=
    List.filter_eq_self.mpr (fun parent member => by simp [inside parent member])
  unfold among
  rw [all]

theorem acceptUnit_self (settled : repairIntentForQuery casefold unit question = unit) (filled : (intentMemoryType unit.intent).or unit.memoryType = unit.memoryType)
    (held : Held casefold question session unit) (shown : hasSupportedSpan casefold unit question session = true)
    (inside : ∀ parent ∈ unit.dependsOn, parent ∈ known ∧ parent ≠ unit.id) :
    acceptUnit casefold question session known unit = some unit := by
  have same : typedUnit casefold question unit = unit := by
    unfold typedUnit
    dsimp only
    rw [settled,filled]
  rw [acceptUnit_eq,settled,same,typed_of_filled filled,if_neg Bool.false_ne_true,spans_of_shown shown,shown,if_neg (by decide),repairQueryAnchor_of_held held,
    among_self inside]

end Accepted

end Suixinji.Ask
