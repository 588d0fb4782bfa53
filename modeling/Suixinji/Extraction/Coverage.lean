import Suixinji.Extraction.Hybrid

/-! Which candidates of the rules the merge leaves out, and for which row of the model. -/
namespace Suixinji.Extraction.Hybrid

variable {σ ρ : Type} (lib : Library σ) (like : Compatibility ρ) (models rules : List (MemoryCandidate ρ))

section Rows

def taskRows : List (MemoryCandidate ρ) := having hasTaskInput models

def preferenceRows : List (MemoryCandidate ρ) := having hasPreferenceDetail (lacking hasTaskInput models)

def plainRows : List (MemoryCandidate ρ) := lacking hasPreferenceDetail (lacking hasTaskInput models)

/-- The model's candidates in the order of the merge. -/
def listed : List (MemoryCandidate ρ) := taskRows models ++ preferenceRows models ++ plainRows models

def rulesAfterTasks : List (MemoryCandidate ρ) :=
  if taskRows models = [] then rules else rules.filter (fun r => r.memoryType ≠ .task)

def plainRules : List (MemoryCandidate ρ) :=
  if preferenceRows models = [] then rulesAfterTasks models rules
  else (rulesAfterTasks models rules).filter (fun r => r.memoryType ≠ .preference)

def plainMatched : List (MemoryCandidate ρ) × List Nat :=
  enriched lib like (plainRows models) (plainRules models rules) [] (plainRows models)

def plainAdditions : List (MemoryCandidate ρ) :=
  additions lib like (plainMatched lib like models rules).1 (plainRules models rules) (plainMatched lib like models rules).2

def preferenceAdditions : List (MemoryCandidate ρ) :=
  if preferenceRows models = [] then [] else uncoveredPreferences (preferenceRows models) (rulesAfterTasks models rules)

def taskAdditions : List (MemoryCandidate ρ) :=
  if taskRows models = [] then [] else uncoveredTasks (taskRows models) rules

variable {models}

theorem lacking_of_none {p : MemoryCandidate ρ → Bool} {candidates : List (MemoryCandidate ρ)} (none_ : having p candidates = []) :
    lacking p candidates = candidates := by
  apply List.filter_eq_self.mpr
  intro c member
  have fails := List.filter_eq_nil_iff.mp none_ c member
  simpa using fails

theorem having_lacking (p : MemoryCandidate ρ → Bool) (candidates : List (MemoryCandidate ρ)) : having p (lacking p candidates) = [] := by
  apply List.filter_eq_nil_iff.mpr
  intro c member
  simpa using (List.mem_filter.mp member).2

theorem merge_plain (no_task : having hasTaskInput models = []) (no_detail : having hasPreferenceDetail models = []) :
    mergeUncoveredRuleCandidates lib like models rules = mergePlain lib like models rules := by
  rw [mergeUncoveredRuleCandidates,if_neg (not_not.mpr no_task),if_neg (not_not.mpr no_detail)]

theorem having_lacking_of_none {p q : MemoryCandidate ρ → Bool} {candidates : List (MemoryCandidate ρ)} (none_ : having p candidates = []) :
    having p (lacking q candidates) = [] := by
  apply List.filter_eq_nil_iff.mpr
  intro c member
  exact List.filter_eq_nil_iff.mp none_ c (List.mem_filter.mp member).1

variable (models)

theorem merge_lacking : mergeUncoveredRuleCandidates lib like (lacking hasTaskInput models) (rulesAfterTasks models rules) =
    dedupe lib (preferenceRows models ++ ((plainMatched lib like models rules).1 ++ plainAdditions lib like models rules) ++
      preferenceAdditions models rules) := by
  have no_task := having_lacking hasTaskInput models
  by_cases no_detail : preferenceRows models = []
  · have plain : plainRows models = lacking hasTaskInput models := lacking_of_none no_detail
    have kept : plainRules models rules = rulesAfterTasks models rules := if_pos no_detail
    rw [merge_plain lib like _ no_task no_detail,no_detail,preferenceAdditions,if_pos no_detail,List.nil_append,List.append_nil,
      plainAdditions,plainMatched,plain,kept]
    rfl
  · have rest := merge_plain lib like (plainRules models rules) (having_lacking_of_none (q := hasPreferenceDetail) no_task)
      (having_lacking hasPreferenceDetail (lacking hasTaskInput models))
    have kept : plainRules models rules = (rulesAfterTasks models rules).filter (fun r => r.memoryType ≠ .preference) := if_neg no_detail
    have some_detail : having hasPreferenceDetail (lacking hasTaskInput models) ≠ [] := no_detail
    rw [mergeUncoveredRuleCandidates,if_neg (not_not.mpr no_task),if_pos some_detail,← kept,rest,preferenceAdditions,if_neg no_detail]
    exact Firsts.firsts_append_firsts_append _ _ _

theorem merge_eq : mergeUncoveredRuleCandidates lib like models rules =
    dedupe lib (taskRows models ++ (preferenceRows models ++ ((plainMatched lib like models rules).1 ++ plainAdditions lib like models rules) ++
      preferenceAdditions models rules) ++ taskAdditions models rules) := by
  have rest := merge_lacking lib like models rules
  by_cases no_task : taskRows models = []
  · have whole : lacking hasTaskInput models = models := lacking_of_none no_task
    have kept : rulesAfterTasks models rules = rules := if_pos no_task
    rw [whole,kept] at rest
    rw [rest,no_task,taskAdditions,if_pos no_task,List.nil_append,List.append_nil]
  · have kept : rulesAfterTasks models rules = rules.filter (fun r => r.memoryType ≠ .task) := if_neg no_task
    have some_task : having hasTaskInput models ≠ [] := no_task
    rw [mergeUncoveredRuleCandidates,if_pos some_task,← kept,rest,taskAdditions,if_neg no_task]
    exact Firsts.firsts_append_firsts_append _ _ _

end Rows

section Enriched

def Backfills (m row : MemoryCandidate ρ) : Prop :=
  row = m ∨ ∃ rule ∈ rules, isSameFact lib like m rule ∧ row = backfilled m rule

/-- The row of a candidate that is no preference; what is matched before makes no difference to it. -/
def filled (m : MemoryCandidate ρ) : MemoryCandidate ρ :=
  match matchingRule lib like models rules [] m with
  | none => m
  | some (rule,_) => backfilled m rule

variable {lib like models rules} {m row rule : MemoryCandidate ρ} {index : Nat} {taken : List Nat}

@[simp]
theorem dedupeKey_backfilled (m rule : MemoryCandidate ρ) : dedupeKey lib (backfilled m rule) = dedupeKey lib m := rfl

@[simp]
theorem dedupeKey_repaired (m : MemoryCandidate ρ) : dedupeKey lib (repaired m) = dedupeKey lib m := rfl

theorem Backfills.key (filled : Backfills lib like rules m row) : dedupeKey lib row = dedupeKey lib m := by
  rcases filled with rfl | ⟨rule,_,_,rfl⟩
  · rfl
  · exact dedupeKey_backfilled m rule

theorem matchingRule_some (found : matchingRule lib like models rules taken m = some (rule,index)) :
    rules[index]? = some rule ∧ isSameFact lib like m rule ∧
      (m.memoryType = .preference → pairIsUnambiguous lib like .preference models rules m rule) := by
  have place := List.mem_zipIdx_iff_getElem?.mp (List.mem_of_find?_eq_some found)
  have meets := List.find?_some found
  rw [Bool.and_eq_true] at meets
  refine ⟨place,meets.1,fun preference => ?_⟩
  have unmatched := meets.2
  rw [preference] at unmatched
  exact (Bool.and_eq_true _ _ ▸ unmatched).2

theorem matchingRule_taken (other : m.memoryType ≠ .preference) :
    matchingRule lib like models rules taken m = matchingRule lib like models rules [] m := by
  unfold matchingRule
  cases type : m.memoryType with
  | preference => exact absurd type other
  | task | episodic | semantic => rfl

theorem enriched_none (missing : matchingRule lib like models rules taken m = none) (ms : List (MemoryCandidate ρ)) :
    enriched lib like models rules taken (m::ms) =
      (m::(enriched lib like models rules taken ms).1,(enriched lib like models rules taken ms).2) := by
  rw [enriched,missing]

/-- The indexes that are matched after a row. -/
def takenAfter (m : MemoryCandidate ρ) (taken : List Nat) (index : Nat) : List Nat :=
  if m.memoryType = .preference then taken ++ [index] else taken

theorem enriched_some (found : matchingRule lib like models rules taken m = some (rule,index)) (ms : List (MemoryCandidate ρ)) :
    enriched lib like models rules taken (m::ms) =
      (backfilled m rule::(enriched lib like models rules (takenAfter m taken index) ms).1,
        (enriched lib like models rules (takenAfter m taken index) ms).2) := by
  rw [enriched,found]
  rfl

theorem enriched_backfills (taken : List Nat) (ms : List (MemoryCandidate ρ)) :
    List.Forall₂ (Backfills lib like rules) ms (enriched lib like models rules taken ms).1 := by
  induction ms generalizing taken with
  | nil => exact .nil
  | cons m ms ih =>
    cases found : matchingRule lib like models rules taken m with
    | none =>
      rw [enriched_none found]
      exact .cons (.inl rfl) (ih _)
    | some pair =>
      obtain ⟨place,same,_⟩ := matchingRule_some found
      rw [enriched_some found]
      exact .cons (.inr ⟨pair.1,List.mem_of_getElem? place,same,rfl⟩) (ih _)

theorem keys_of_backfills {ms rows : List (MemoryCandidate ρ)} (filled : List.Forall₂ (Backfills lib like rules) ms rows) :
    rows.map (dedupeKey lib) = ms.map (dedupeKey lib) := by
  induction filled with
  | nil => rfl
  | cons first _ ih => rw [List.map_cons,List.map_cons,first.key,ih]

theorem filled_mem (taken : List Nat) {ms : List (MemoryCandidate ρ)} (member : m ∈ ms) (other : m.memoryType ≠ .preference) :
    filled lib like models rules m ∈ (enriched lib like models rules taken ms).1 := by
  induction ms generalizing taken with
  | nil => exact absurd member List.not_mem_nil
  | cons x ms ih =>
    have row : filled lib like models rules x ∈ (enriched lib like models rules taken (x::ms)).1 ∨ x.memoryType = .preference := by
      by_cases preference : x.memoryType = .preference
      · exact .inr preference
      · rw [filled,← matchingRule_taken preference]
        cases found : matchingRule lib like models rules taken x with
        | none =>
          rw [enriched_none found]
          exact .inl List.mem_cons_self
        | some pair =>
          rw [enriched_some found]
          exact .inl List.mem_cons_self
    rcases List.mem_cons.mp member with rfl | later
    · exact row.resolve_right other
    · cases found : matchingRule lib like models rules taken x with
      | none =>
        rw [enriched_none found]
        exact List.mem_cons_of_mem _ (ih _ later)
      | some pair =>
        rw [enriched_some found]
        exact List.mem_cons_of_mem _ (ih _ later)

theorem exists_filled (taken : List Nat) {ms : List (MemoryCandidate ρ)} (member : row ∈ (enriched lib like models rules taken ms).1)
    (other : row.memoryType ≠ .preference) : ∃ m ∈ ms, row = filled lib like models rules m := by
  induction ms generalizing taken with
  | nil => exact absurd member List.not_mem_nil
  | cons x ms ih =>
    have later : ∀ taken, row ∈ (enriched lib like models rules taken ms).1 → ∃ m ∈ x::ms, row = filled lib like models rules m := by
      intro taken inside
      obtain ⟨m,among,same⟩ := ih taken inside
      exact ⟨m,List.mem_cons_of_mem _ among,same⟩
    cases found : matchingRule lib like models rules taken x with
    | none =>
      rw [enriched_none found] at member
      rcases List.mem_cons.mp member with rfl | inside
      · refine ⟨row,List.mem_cons_self,?_⟩
        rw [filled,← matchingRule_taken other,found]
      · exact later _ inside
    | some pair =>
      rw [enriched_some found] at member
      rcases List.mem_cons.mp member with rfl | inside
      · have kind : x.memoryType ≠ .preference := other
        refine ⟨x,List.mem_cons_self,?_⟩
        rw [filled,← matchingRule_taken kind,found]
      · exact later _ inside

theorem matched_of_taken {ms : List (MemoryCandidate ρ)} (there : index ∈ (enriched lib like models rules taken ms).2) :
    index ∈ taken ∨ ∃ m ∈ ms, ∃ rule, rules[index]? = some rule ∧ isSameFact lib like m rule ∧
      pairIsUnambiguous lib like .preference models rules m rule := by
  induction ms generalizing taken with
  | nil => exact .inl there
  | cons x ms ih =>
    have later : ∀ {P : MemoryCandidate ρ → Prop}, (∃ m ∈ ms, P m) → ∃ m ∈ x::ms, P m :=
      fun ⟨m,among,holds⟩ => ⟨m,List.mem_cons_of_mem _ among,holds⟩
    cases found : matchingRule lib like models rules taken x with
    | none =>
      rw [enriched_none found] at there
      exact (ih there).imp id later
    | some pair =>
      obtain ⟨at_place,same,alone⟩ := matchingRule_some found
      rw [enriched_some found] at there
      rcases ih there with listed | matched
      · unfold takenAfter at listed
        split at listed
        · rename_i preference
          rcases List.mem_append.mp listed with old | last
          · exact .inl old
          · obtain rfl := List.mem_singleton.mp last
            exact .inr ⟨x,List.mem_cons_self,pair.1,at_place,same,alone preference⟩
        · exact .inl listed
      · exact .inr (later matched)

end Enriched

section Atoms

/-- A row that leaves a rule out: a task card around it, a preference card that shares its evidence, or a plain row of the
same fact. -/
def attributed (m r : MemoryCandidate ρ) : Bool :=
  if r.memoryType = .task ∧ taskRows models ≠ [] then hasTaskInput m && inside r.evidenceSpan m.evidenceSpan
  else if r.memoryType = .preference ∧ preferenceRows models ≠ [] then
    !hasTaskInput m && hasPreferenceDetail m && overlapping r.evidenceSpan m.evidenceSpan
  else !hasTaskInput m && !hasPreferenceDetail m && isSameFact lib like
    (if r.memoryType = .preference then m else filled lib like (plainRows models) (plainRules models rules) m) r

/-- One evidence is part of the other, as they are or up to white space. -/
def overlaps (m r : MemoryCandidate ρ) : Bool := overlapping r.evidenceSpan m.evidenceSpan || sameEvidence m r

/-- A row of the type and the evidence of a rule stands for it: with its key, with its object, or with no other of the lost. -/
def Answered (lost : MemoryCandidate ρ → Prop) (r : MemoryCandidate ρ) : Prop :=
  ∃ m ∈ models, m.memoryType = r.memoryType ∧ overlaps m r ∧ (m.effectiveMemoryKey lib = r.effectiveMemoryKey lib ∨ names m r ∨
    attributed lib like models rules m r ∧ ∀ r' ∈ rules, lost r' → r'.memoryType = r.memoryType →
      attributed lib like models rules m r' → dedupeKey lib r' = dedupeKey lib r)

def Absent (r : MemoryCandidate ρ) : Prop := dedupeKey lib r ∉ (mergeUncoveredRuleCandidates lib like models rules).map (dedupeKey lib)

structure KeepsAtoms : Prop where
  models_kept : ∀ before m after, listed models = before ++ m::after → dedupeKey lib m ∈ before.map (dedupeKey lib) ∨
    ∃ row ∈ mergeUncoveredRuleCandidates lib like models rules, Backfills lib like (plainRules models rules) m row
  rules_kept : ∀ r ∈ rules, Absent lib like models rules r → Answered lib like models rules (Absent lib like models rules) r

/-- No row has the key of the rule, and every rule of its key is left out for some row. -/
def Swallowed (r : MemoryCandidate ρ) : Prop :=
  (∀ m ∈ models, dedupeKey lib m ≠ dedupeKey lib r) ∧
    ∀ r' ∈ rules, dedupeKey lib r' = dedupeKey lib r → ∃ m ∈ models, attributed lib like models rules m r'

/-- For tasks and events, what the branch of the preference cards asks of a preference. -/
def Guarded : Prop := ∀ r ∈ rules, r.memoryType = .task ∨ r.memoryType = .episodic → Swallowed lib like models rules r →
  Answered lib like models rules (Swallowed lib like models rules) r

variable {lib like models rules} {m r : MemoryCandidate ρ}

theorem mem_taskRows : m ∈ taskRows models ↔ m ∈ models ∧ hasTaskInput m := List.mem_filter

theorem mem_preferenceRows : m ∈ preferenceRows models ↔ m ∈ models ∧ !hasTaskInput m ∧ hasPreferenceDetail m := by
  rw [preferenceRows,having,lacking,List.mem_filter,List.mem_filter,and_assoc]

theorem mem_plainRows : m ∈ plainRows models ↔ m ∈ models ∧ !hasTaskInput m ∧ !hasPreferenceDetail m := by
  rw [plainRows,lacking,lacking,List.mem_filter,List.mem_filter,and_assoc]

theorem mem_listed : m ∈ listed models ↔ m ∈ models := by
  rw [listed,List.mem_append,List.mem_append,mem_taskRows,mem_preferenceRows,mem_plainRows]
  cases hasTaskInput m <;> cases hasPreferenceDetail m <;> simp

theorem mem_plainRules : r ∈ plainRules models rules ↔ r ∈ rules ∧ (r.memoryType = .task → taskRows models = []) ∧
    (r.memoryType = .preference → preferenceRows models = []) := by
  unfold plainRules rulesAfterTasks
  by_cases no_task : taskRows models = [] <;> by_cases no_detail : preferenceRows models = [] <;>
    simp [no_task,no_detail,and_comm]

theorem mem_keys_merge {k : Option String × MemoryType × String × String} :
    k ∈ (mergeUncoveredRuleCandidates lib like models rules).map (dedupeKey lib) ↔ k ∈ models.map (dedupeKey lib) ∨
      k ∈ (plainAdditions lib like models rules).map (dedupeKey lib) ∨ k ∈ (preferenceAdditions models rules).map (dedupeKey lib) ∨
      k ∈ (taskAdditions models rules).map (dedupeKey lib) := by
  have rows : k ∈ models.map (dedupeKey lib) ↔ k ∈ (listed models).map (dedupeKey lib) := by
    simp only [List.mem_map,mem_listed]
  have plain : (plainMatched lib like models rules).1.map (dedupeKey lib) = (plainRows models).map (dedupeKey lib) :=
    keys_of_backfills (enriched_backfills [] (plainRows models))
  rw [merge_eq,dedupe,Firsts.mem_keys_firsts,rows,listed]
  simp only [List.map_append,List.mem_append,plain]
  tauto

theorem models_kept {before after : List (MemoryCandidate ρ)} (split : listed models = before ++ m::after) :
    dedupeKey lib m ∈ before.map (dedupeKey lib) ∨
      ∃ row ∈ mergeUncoveredRuleCandidates lib like models rules, Backfills lib like (plainRules models rules) m row := by
  by_cases seen : dedupeKey lib m ∈ before.map (dedupeKey lib)
  · exact .inl seen
  · have same : ∀ rows : List (MemoryCandidate ρ), List.Forall₂ (Backfills lib like (plainRules models rules)) rows rows :=
      fun rows => List.forall₂_same.mpr (fun _ _ => .inl rfl)
    have rows : List.Forall₂ (Backfills lib like (plainRules models rules)) (listed models)
        (taskRows models ++ preferenceRows models ++ (plainMatched lib like models rules).1) :=
      List.rel_append (List.rel_append (same _) (same _)) (enriched_backfills [] (plainRows models))
    rw [split] at rows
    have first := (List.forall₂_take_append _ _ _ rows.flip).flip
    obtain ⟨row,rest,filled,_,last⟩ := List.forall₂_cons_left_iff.mp (List.forall₂_drop_append _ _ _ rows.flip).flip
    have whole := List.take_append_drop before.length (taskRows models ++ preferenceRows models ++ (plainMatched lib like models rules).1)
    have new : dedupeKey lib row ∉ ((taskRows models ++ preferenceRows models ++ (plainMatched lib like models rules).1).take
        before.length).map (dedupeKey lib) := by
      rwa [keys_of_backfills first,Backfills.key filled]
    refine .inr ⟨row,?_,filled⟩
    have kept := Firsts.mem_firsts_of_new new (rest ++ (plainAdditions lib like models rules ++ preferenceAdditions models rules ++
      taskAdditions models rules))
    rw [← List.cons_append,← last,← List.append_assoc,whole] at kept
    rw [merge_eq,dedupe]
    simpa only [List.append_assoc] using kept

theorem mem_plainAdditions {k : Option String × MemoryType × String × String} :
    k ∈ (plainAdditions lib like models rules).map (dedupeKey lib) ↔ ∃ r index, (plainRules models rules)[index]? = some r ∧
      covered lib like (plainMatched lib like models rules).1 (plainRules models rules) (plainMatched lib like models rules).2 r index = false ∧
        dedupeKey lib r = k := by
  rw [plainAdditions,additions,List.map_map]
  simp [List.mem_map,List.mem_filter,List.mem_zipIdx_iff_getElem?,Function.comp_def,and_assoc]

theorem mem_preferenceAdditions {k : Option String × MemoryType × String × String} :
    k ∈ (preferenceAdditions models rules).map (dedupeKey lib) ↔ preferenceRows models ≠ [] ∧ ∃ r ∈ rules, r.memoryType = .preference ∧
      preferenceCovered (preferenceRows models) (rules.filter (fun c => c.memoryType = .preference)) r = false ∧ dedupeKey lib r = k := by
  unfold preferenceAdditions
  split
  · rename_i none_
    simp [none_]
  · rename_i some_
    have preferences : (rulesAfterTasks models rules).filter (fun c => c.memoryType = .preference) =
        rules.filter (fun c => c.memoryType = .preference) := by
      unfold rulesAfterTasks
      split
      · rfl
      · rw [List.filter_filter]
        apply List.filter_congr
        intro c _
        cases c.memoryType <;> rfl
    rw [uncoveredPreferences,preferences,List.map_map]
    simp only [List.mem_map,List.mem_filter]
    constructor
    · rintro ⟨r,⟨⟨inside,kind⟩,bare⟩,same⟩
      exact ⟨some_,r,inside,by simpa using kind,by simpa using bare,same⟩
    · rintro ⟨_,r,inside,kind,bare,same⟩
      exact ⟨r,⟨⟨inside,by simpa using kind⟩,by simpa using bare⟩,same⟩

theorem mem_taskAdditions {k : Option String × MemoryType × String × String} :
    k ∈ (taskAdditions models rules).map (dedupeKey lib) ↔ taskRows models ≠ [] ∧ ∃ r ∈ rules, r.memoryType = .task ∧
      (∀ m ∈ taskRows models, inside r.evidenceSpan m.evidenceSpan = false) ∧ dedupeKey lib r = k := by
  unfold taskAdditions
  split
  · rename_i none_
    simp [none_]
  · rename_i some_
    simp [some_,uncoveredTasks,List.mem_map,List.mem_filter,and_assoc]

theorem sameFact_type (same : isSameFact lib like m r) : m.memoryType = r.memoryType := by
  unfold isSameFact at same
  split at same
  · exact absurd same (by simp)
  · rename_i kind
    exact not_not.mp kind

theorem sameFact_evidence (same : isSameFact lib like m r) : sameEvidence m r := by
  unfold isSameFact at same
  split at same
  · exact absurd same (by simp)
  · split at same
    · exact absurd same (by simp)
    · rename_i apart
      simpa using apart

theorem filled_type (m : MemoryCandidate ρ) : (filled lib like models rules m).memoryType = m.memoryType := by
  unfold filled
  split <;> rfl

theorem filled_evidence (m r : MemoryCandidate ρ) : sameEvidence (filled lib like models rules m) r = sameEvidence m r := by
  unfold filled
  split <;> rfl

theorem filled_key (m : MemoryCandidate ρ) :
    (filled lib like models rules m).effectiveMemoryKey lib = m.effectiveMemoryKey lib := by
  unfold filled
  split <;> rfl

theorem dedupeKey_type (same : dedupeKey lib m = dedupeKey lib r) : m.memoryType = r.memoryType := congrArg (fun k => k.2.1) same

theorem eq_of_alone {p : MemoryCandidate ρ → Bool} {cs : List (MemoryCandidate ρ)} {c d : MemoryCandidate ρ}
    (alone : (cs.filter p).length = 1) (first : c ∈ cs) (meets : p c) (second : d ∈ cs) (meets' : p d) : c = d := by
  obtain ⟨x,only⟩ := List.length_eq_one_iff.mp alone
  have named : ∀ y ∈ cs, p y → y = x := fun y inside holds =>
    List.mem_singleton.mp (only ▸ List.mem_filter.mpr ⟨inside,holds⟩)
  exact (named c first meets).trans (named d second meets').symm

theorem attributed_taskRow (kind : r.memoryType = .task) (some_task : taskRows models ≠ []) :
    attributed lib like models rules m r ↔ hasTaskInput m ∧ inside r.evidenceSpan m.evidenceSpan := by
  rw [attributed,if_pos ⟨kind,some_task⟩,Bool.and_eq_true]

theorem attributed_preferenceRow (kind : r.memoryType = .preference) (some_detail : preferenceRows models ≠ []) :
    attributed lib like models rules m r ↔ (!hasTaskInput m ∧ hasPreferenceDetail m) ∧ overlapping r.evidenceSpan m.evidenceSpan := by
  rw [attributed,if_neg (by simp [kind]),if_pos ⟨kind,some_detail⟩,Bool.and_eq_true,Bool.and_eq_true]

theorem attributed_plainRow (plain : r ∈ plainRules models rules) : attributed lib like models rules m r ↔
    (!hasTaskInput m ∧ !hasPreferenceDetail m) ∧ isSameFact lib like
      (if r.memoryType = .preference then m else filled lib like (plainRows models) (plainRules models rules) m) r := by
  obtain ⟨_,no_task,no_detail⟩ := mem_plainRules.mp plain
  rw [attributed,if_neg (fun h => h.2 (no_task h.1)),if_neg (fun h => h.2 (no_detail h.1)),Bool.and_eq_true,Bool.and_eq_true]

theorem covered_iff (kind : r.memoryType = .task ∨ r.memoryType = .episodic) (plain : r ∈ plainRules models rules) (index : Nat) :
    covered lib like (plainMatched lib like models rules).1 (plainRules models rules) (plainMatched lib like models rules).2 r index ↔
      ∃ m ∈ models, attributed lib like models rules m r := by
  have other : r.memoryType ≠ .preference := by rcases kind with kind | kind <;> simp [kind]
  have any : covered lib like (plainMatched lib like models rules).1 (plainRules models rules) (plainMatched lib like models rules).2 r
      index = (plainMatched lib like models rules).1.any (fun model => isSameFact lib like model r) := by
    rcases kind with kind | kind <;> rw [covered,kind]
  rw [any,List.any_eq_true]
  simp only [attributed_plainRow plain,if_neg other]
  constructor
  · rintro ⟨row,member,same⟩
    obtain ⟨m,among,rfl⟩ := exists_filled [] member (fun preference => other ((sameFact_type same).symm.trans preference))
    obtain ⟨inside,rest⟩ := mem_plainRows.mp among
    exact ⟨m,inside,rest,same⟩
  · rintro ⟨m,inside,rest,same⟩
    have type : m.memoryType ≠ .preference := fun preference =>
      other ((sameFact_type same).symm.trans ((filled_type m).trans preference))
    exact ⟨_,filled_mem [] (mem_plainRows.mpr ⟨inside,rest⟩) type,same⟩

theorem absent_iff_swallowed (kind : r.memoryType = .task ∨ r.memoryType = .episodic) :
    Absent lib like models rules r ↔ Swallowed lib like models rules r := by
  unfold Absent
  rw [mem_keys_merge]
  constructor
  · intro absent
    refine ⟨fun m member same => absent (.inl (List.mem_map.mpr ⟨m,member,same⟩)),fun r' inside' same => ?_⟩
    have type := dedupeKey_type same
    by_contra unattributed
    by_cases card : r'.memoryType = .task ∧ taskRows models ≠ []
    · refine absent (.inr (.inr (.inr (mem_taskAdditions.mpr ⟨card.2,r',inside',card.1,fun m member => ?_,same⟩))))
      rw [← Bool.not_eq_true]
      intro within_
      obtain ⟨among,row⟩ := mem_taskRows.mp member
      exact unattributed ⟨m,among,(attributed_taskRow card.1 card.2).mpr ⟨row,within_⟩⟩
    · have plain : r' ∈ plainRules models rules := by
        refine mem_plainRules.mpr ⟨inside',fun task => ?_,fun preference => ?_⟩
        · exact not_not.mp (fun some_task => card ⟨task,some_task⟩)
        · rw [← type,preference] at kind
          simp at kind
      obtain ⟨index,place⟩ := List.mem_iff_getElem?.mp plain
      refine absent (.inr (.inl (mem_plainAdditions.mpr ⟨r',index,place,?_,same⟩)))
      rw [← Bool.not_eq_true,covered_iff (type ▸ kind) plain index]
      exact unattributed
  · rintro ⟨new,left_out⟩ (row | plain | preference | task)
    · obtain ⟨m,member,same⟩ := List.mem_map.mp row
      exact new m member same
    · obtain ⟨r',index,place,bare,same⟩ := mem_plainAdditions.mp plain
      have among := List.mem_of_getElem? place
      have answered := left_out r' (mem_plainRules.mp among).1 same
      rw [← covered_iff ((dedupeKey_type same) ▸ kind) among index,bare] at answered
      exact absurd answered (by simp)
    · obtain ⟨_,r',_,preference,_,same⟩ := mem_preferenceAdditions.mp preference
      rw [← dedupeKey_type same,preference] at kind
      simp at kind
    · obtain ⟨some_task,r',inside',type,bare,same⟩ := mem_taskAdditions.mp task
      obtain ⟨m,member,around⟩ := left_out r' inside' same
      obtain ⟨row,within_⟩ := (attributed_taskRow type some_task).mp around
      rw [bare m (mem_taskRows.mpr ⟨member,row⟩)] at within_
      exact absurd within_ (by simp)

theorem answered_card {lost : MemoryCandidate ρ → Prop} (typed : ∀ m ∈ models, hasPreferenceDetail m → m.memoryType = .preference)
    (inside : r ∈ rules) (kind : r.memoryType = .preference) (some_detail : preferenceRows models ≠ [])
    (left_out : preferenceCovered (preferenceRows models) (rules.filter (fun c => c.memoryType = .preference)) r) :
    Answered lib like models rules lost r := by
  have card : ∀ {c}, c ∈ (preferenceRows models).filter (fun c => overlapping r.evidenceSpan c.evidenceSpan) →
      c ∈ models ∧ (!hasTaskInput c ∧ hasPreferenceDetail c) ∧ overlapping r.evidenceSpan c.evidenceSpan := by
    intro c member
    obtain ⟨row,shares⟩ := List.mem_filter.mp member
    obtain ⟨among,rest⟩ := mem_preferenceRows.mp row
    exact ⟨among,rest,shares⟩
  rw [preferenceCovered,Bool.and_eq_true,Bool.or_eq_true,decide_eq_true_iff,decide_eq_true_iff] at left_out
  obtain ⟨some_hit,alone | named⟩ := left_out
  · obtain ⟨c,hit⟩ := List.exists_mem_of_ne_nil _ some_hit
    obtain ⟨among,rest,shares⟩ := card hit
    refine ⟨c,among,(typed c among rest.2).trans kind.symm,by simp [overlaps,shares],.inr (.inr ?_)⟩
    refine ⟨(attributed_preferenceRow kind some_detail).mpr ⟨rest,shares⟩,fun r' inside' _ kind' around => congrArg _ ?_⟩
    have peer : ∀ x, x ∈ rules → x.memoryType = .preference → overlapping x.evidenceSpan c.evidenceSpan →
        x ∈ rules.filter (fun c => c.memoryType = .preference) ∧ ((preferenceRows models).filter
          (fun c => overlapping r.evidenceSpan c.evidenceSpan)).any (fun c => overlapping x.evidenceSpan c.evidenceSpan) :=
      fun x there type meets => ⟨List.mem_filter.mpr ⟨there,decide_eq_true type⟩,List.any_eq_true.mpr ⟨c,hit,meets⟩⟩
    have type := kind'.trans kind
    have first := peer r' inside' type ((attributed_preferenceRow type some_detail).mp around).2
    have second := peer r inside kind shares
    exact eq_of_alone alone first.1 first.2 second.1 second.2
  · obtain ⟨c,hit,meets⟩ := List.any_eq_true.mp named
    obtain ⟨among,rest,shares⟩ := card hit
    exact ⟨c,among,(typed c among rest.2).trans kind.symm,by simp [overlaps,shares],.inr (.inl meets)⟩

theorem sameEvidence_overlaps (same : sameEvidence m r) : overlaps m r := by simp [overlaps,same]

theorem answered_unambiguous {lost : MemoryCandidate ρ → Prop} {row : MemoryCandidate ρ} {rows : List (MemoryCandidate ρ)}
    {type : MemoryType} (row_eq : row = if type = .preference then m else filled lib like (plainRows models) (plainRules models rules) m)
    (member : m ∈ plainRows models) (kind : r.memoryType = type) (plain : r ∈ plainRules models rules)
    (whole : ∀ r' ∈ rules, r'.memoryType = type → r' ∈ plainRules models rules)
    (same : isSameFact lib like row r) (alone : pairIsUnambiguous lib like type rows (plainRules models rules) row r) :
    Answered lib like models rules lost r := by
  obtain ⟨among,rest⟩ := mem_plainRows.mp member
  have row_type : row.memoryType = m.memoryType := by
    rw [row_eq]
    split
    · rfl
    · exact filled_type m
  have row_evidence : sameEvidence row r = sameEvidence m r := by
    rw [row_eq]
    split
    · rfl
    · exact filled_evidence m r
  have row_key : row.effectiveMemoryKey lib = m.effectiveMemoryKey lib := by
    rw [row_eq]
    split
    · rfl
    · exact filled_key m
  have shares : overlaps m r := sameEvidence_overlaps (row_evidence ▸ sameFact_evidence same)
  refine ⟨m,among,row_type.symm.trans (sameFact_type same),shares,?_⟩
  rw [pairIsUnambiguous,Bool.or_eq_true,Bool.and_eq_true,decide_eq_true_iff,decide_eq_true_iff,decide_eq_true_iff] at alone
  rcases alone with keyed | ⟨_,alone⟩
  · exact .inl (row_key.symm.trans keyed)
  · have around : ∀ x ∈ plainRules models rules, x.memoryType = type →
        (attributed lib like models rules m x ↔ (!hasTaskInput m ∧ !hasPreferenceDetail m) ∧ isSameFact lib like row x) := by
      intro x there same_type
      rw [attributed_plainRow there,same_type,← row_eq]
    refine .inr (.inr ⟨(around r plain kind).mpr ⟨rest,same⟩,fun r' inside' _ kind' covers => congrArg _ ?_⟩)
    have type' := kind'.trans kind
    have there := whole r' inside' type'
    have meets := ((around r' there type').mp covers).2
    exact eq_of_alone alone there (by simp [type',meets]) plain (by simp [kind,same])

theorem answered_preference (typed : ∀ m ∈ models, hasPreferenceDetail m → m.memoryType = .preference) (inside : r ∈ rules)
    (kind : r.memoryType = .preference) (absent : Absent lib like models rules r) {lost : MemoryCandidate ρ → Prop} :
    Answered lib like models rules lost r := by
  rw [Absent,mem_keys_merge,not_or,not_or,not_or] at absent
  by_cases no_detail : preferenceRows models = []
  · have whole : ∀ r' ∈ rules, r'.memoryType = .preference → r' ∈ plainRules models rules := fun r' inside' kind' =>
      mem_plainRules.mpr ⟨inside',fun task => absurd (task.symm.trans kind') (by simp),fun _ => no_detail⟩
    have plain := whole r inside kind
    obtain ⟨index,place⟩ := List.mem_iff_getElem?.mp plain
    have there : index ∈ (plainMatched lib like models rules).2 := by
      by_contra bare
      refine absent.2.1 (mem_plainAdditions.mpr ⟨r,index,place,?_,rfl⟩)
      rw [covered,kind]
      simpa using bare
    obtain old | ⟨m,member,rule,found,same,alone⟩ := matched_of_taken there
    · exact absurd old List.not_mem_nil
    · obtain rfl := Option.some.inj (found.symm.trans place)
      exact answered_unambiguous (if_pos rfl).symm member kind plain whole same alone
  · refine answered_card typed inside kind no_detail ?_
    by_contra bare
    rw [Bool.not_eq_true] at bare
    exact absent.2.2.1 (mem_preferenceAdditions.mpr ⟨no_detail,r,inside,kind,bare,rfl⟩)

theorem answered_semantic (inside : r ∈ rules) (kind : r.memoryType = .semantic) (absent : Absent lib like models rules r)
    {lost : MemoryCandidate ρ → Prop} : Answered lib like models rules lost r := by
  rw [Absent,mem_keys_merge,not_or,not_or,not_or] at absent
  have whole : ∀ r' ∈ rules, r'.memoryType = .semantic → r' ∈ plainRules models rules := fun r' inside' kind' =>
    mem_plainRules.mpr ⟨inside',fun task => absurd (task.symm.trans kind') (by simp),
      fun preference => absurd (preference.symm.trans kind') (by simp)⟩
  have plain := whole r inside kind
  obtain ⟨index,place⟩ := List.mem_iff_getElem?.mp plain
  have hit : covered lib like (plainMatched lib like models rules).1 (plainRules models rules) (plainMatched lib like models rules).2 r index := by
    by_contra bare
    rw [Bool.not_eq_true] at bare
    exact absent.2.1 (mem_plainAdditions.mpr ⟨r,index,place,bare,rfl⟩)
  rw [covered,kind,List.any_eq_true] at hit
  obtain ⟨row,member,meets⟩ := hit
  rw [Bool.and_eq_true] at meets
  have type := (sameFact_type meets.1).trans kind
  obtain ⟨m,among,rfl⟩ := exists_filled [] member (by simp [type])
  exact answered_unambiguous (if_neg (by simp)).symm among kind plain whole meets.1 meets.2

/-- What the rules find in a message of two tasks. -/
def taskOf (task : String) : MemoryCandidate Unit where
  memoryType := .task
  content := task
  taskStatus := some .todo
  noteId := some "note-1"
  objectValue := some task
  evidenceSpan := some task
  memoryKey := some ("task:" ++ task)
  rest := ()

def cardOfMessage : MemoryCandidate Unit :=
  { taskOf "写周报" with
    evidenceSpan := some "写周报，买牛奶",memoryKey := some "card:写周报"
    scope := fun key => if key = "task_input" then some {str := "\x7b'task': '写周报'\x7d"} else none }

def plainLibrary : Library Unit where
  folded := id
  containsSensitiveData _ := false
  memoryKeyFor _ _ _ object _ := object.getD ""
  identity c := ⟨c.subject,c.predicate,c.objectValue,c.taskStatus,c.polarity,c.memoryKey,c.scope.operation,c.scope.polarity,()⟩

def plainCompatibility : Compatibility Unit where
  topicCompatibility _ _ := 0
  scopesCompatible _ _ := true
  taskIdentityCompatible _ _ := false
  normalizeSemanticAttribute _ := none

/-- The card of a preference, and what the rules find of it. -/
def preferenceCard : MemoryCandidate Unit :=
  { taskOf "喜欢喝绿茶" with
    memoryType := .preference,taskStatus := none,objectValue := some "绿茶",memoryKey := some "card:绿茶"
    scope := fun key => if key = "preference_detail" then some {str := "\x7b'object': '绿茶'\x7d"} else none }

def preferenceRule : MemoryCandidate Unit :=
  { taskOf "喝绿茶" with memoryType := .preference,taskStatus := none,objectValue := some "绿茶",memoryKey := some "preference:绿茶" }

end Atoms

end Suixinji.Extraction.Hybrid
