import Mathlib.Logic.Relation
import Suixinji.Ask.Repairs
import Suixinji.Relational.Firsts

/-! What is true of a validated plan, and when validating it again leaves it as it is. -/
namespace Suixinji.Ask
open Relation (TransGen ReflTransGen)
open Memories (MemoryType)
open Text (isSpace)

def Waits (units : List QueryUnit) (id parent : String) : Prop := ∃ unit ∈ units, unit.id = id ∧ parent ∈ unit.dependsOn

/-- The span stands in the question or in a text of the session, white space and letter case apart. -/
def ShownIn (casefold : Char → List Char) (texts : List String) (unit : QueryUnit) : Prop :=
  ∃ span ∈ unit.sourceSpans, compact casefold span ≠ [] ∧ ∃ text ∈ texts, compact casefold span <:+: compact casefold text

structure WellFormed (casefold : Char → List Char) (question : String) (context : List SessionValue) (maxUnits : Int) (plan : AskPlan) :
    Prop where
  some_unit : 1 ≤ plan.units.length
  few : (plan.units.length : Int) ≤ max 1 (min maxUnits 6)
  distinct : (plan.units.map (identity casefold)).Nodup
  others : ∀ unit ∈ plan.units, ∀ parent ∈ unit.dependsOn, parent ≠ unit.id ∧ parent ∈ plan.units.map (·.id)
  acyclic : ∀ id, ¬TransGen (Waits plan.units) id id
  typed : ∀ unit ∈ plan.units, ∀ type ∈ intentMemoryType unit.intent, unit.memoryType = some type
  shown : safeFallbackPlan question ≠ .ok plan → ∀ unit ∈ plan.units, ShownIn casefold (question::sessionTexts context) unit

theorem shownIn_of_supported {casefold : Char → List Char} {question : String} {session : List String} {unit : QueryUnit}
    (shown : hasSupportedSpan casefold unit question session = true) : ShownIn casefold (question::session) unit := by
  obtain ⟨span,member,supports⟩ := List.any_eq_true.mp shown
  rw [supported,Bool.and_eq_true] at supports
  obtain ⟨source,listed,inside⟩ := List.any_eq_true.mp supports.2
  obtain ⟨text,text_listed,rfl⟩ := List.mem_map.mp listed
  refine ⟨span,member,?_,text,text_listed,of_decide_eq_true inside⟩
  intro empty
  rw [empty] at supports
  exact absurd supports.1 (by decide)

/-! ### The loop -/

section Collect

variable {casefold : Char → List Char} {question : String} {session known : List String}

theorem mem_collect {next : QueryUnit} : ∀ (units : List QueryUnit) seen, next ∈ collect casefold question session known units seen ↔
    ∃ before unit after, units = before ++ unit::after ∧ acceptUnit casefold question session known unit = some next ∧
      identity casefold next ∉ seen ∧
      identity casefold next ∉ (before.filterMap (acceptUnit casefold question session known)).map (identity casefold) := by
  intro units
  induction units with
  | nil => simp [collect]
  | cons unit rest ih =>
    intro seen
    rw [Firsts.exists_split_cons,collect]
    cases accepted : acceptUnit casefold question session known unit with
    | none =>
      simp only [ih,List.filterMap_cons,accepted]
      simp
    | some first =>
      dsimp only
      split
      · rename_i old
        simp only [ih,List.filterMap_cons,accepted,List.map_cons,List.mem_cons,not_or]
        constructor
        · rintro ⟨before,unit,after,whole,kept,new,fresh⟩
          exact .inr ⟨before,unit,after,whole,kept,new,fun same => new (same ▸ old),fresh⟩
        · rintro (⟨same,new,_⟩ | ⟨before,unit,after,whole,kept,new,_,fresh⟩)
          · exact absurd old (Option.some.inj same ▸ new)
          · exact ⟨before,unit,after,whole,kept,new,fresh⟩
      · rename_i new
        simp only [List.mem_cons,ih,List.filterMap_cons,accepted,List.map_cons,not_or]
        constructor
        · rintro (rfl | ⟨before,unit,after,whole,kept,⟨other,unseen⟩,fresh⟩)
          · exact .inl ⟨rfl,new,by simp⟩
          · exact .inr ⟨before,unit,after,whole,kept,unseen,other,fresh⟩
        · rintro (⟨same,_⟩ | ⟨before,unit,after,whole,kept,unseen,other,fresh⟩)
          · exact .inl (Option.some.inj same).symm
          · exact .inr ⟨before,unit,after,whole,kept,⟨other,unseen⟩,fresh⟩

theorem collect_distinct : ∀ (units : List QueryUnit) seen,
    ((collect casefold question session known units seen).map (identity casefold)).Nodup ∧
    ∀ next ∈ collect casefold question session known units seen, identity casefold next ∉ seen := by
  intro units
  induction units with
  | nil => exact fun seen => ⟨List.nodup_nil,fun _ member => absurd member List.not_mem_nil⟩
  | cons unit rest ih =>
    intro seen
    rw [collect]
    split
    · exact ih seen
    · rename_i next accepted
      split
      · exact ih seen
      · rename_i new
        obtain ⟨distinct,fresh⟩ := ih (identity casefold next::seen)
        refine ⟨List.nodup_cons.mpr ⟨?_,distinct⟩,List.forall_mem_cons.mpr ⟨new,fun other member seen => ?_⟩⟩
        · intro again
          obtain ⟨other,member,same⟩ := List.mem_map.mp again
          exact fresh other member (same ▸ List.mem_cons_self)
        · exact fresh other member (List.mem_cons_of_mem _ seen)

theorem collect_self : ∀ (units : List QueryUnit) seen,
    (∀ unit ∈ units, acceptUnit casefold question session known unit = some unit) → (units.map (identity casefold)).Nodup →
    (∀ unit ∈ units, identity casefold unit ∉ seen) → collect casefold question session known units seen = units := by
  intro units
  induction units with
  | nil => exact fun _ _ _ _ => rfl
  | cons unit rest ih =>
    intro seen same distinct fresh
    obtain ⟨first,others⟩ := List.forall_mem_cons.mp same
    obtain ⟨new,later⟩ := List.forall_mem_cons.mp fresh
    obtain ⟨apart,distinct⟩ := List.nodup_cons.mp distinct
    rw [collect,first]
    dsimp only
    rw [if_neg new,ih _ others distinct]
    intro other member old
    rcases List.mem_cons.mp old with same | old
    · exact apart (same ▸ List.mem_map_of_mem member)
    · exact later other member old

/-- Where as many are kept as there are, each is kept. -/
theorem collect_full : ∀ (units : List QueryUnit) seen, (collect casefold question session known units seen).length = units.length →
    List.Forall₂ (fun unit next => acceptUnit casefold question session known unit = some next) units
      (collect casefold question session known units seen) := by
  intro units
  induction units with
  | nil => exact fun _ _ => .nil
  | cons unit rest ih =>
    intro seen full
    have fewer : ∀ seen, (collect casefold question session known rest seen).length ≤ rest.length := collect_length rest
    rw [collect] at full ⊢
    rw [List.length_cons] at full
    cases accepted : acceptUnit casefold question session known unit with
    | none =>
      rw [accepted] at full
      have short := fewer seen
      dsimp only at full
      omega
    | some next =>
      rw [accepted] at full
      dsimp only at full ⊢
      by_cases old : identity casefold next ∈ seen
      · rw [if_pos old] at full
        have short := fewer seen
        omega
      · rw [if_neg old] at full ⊢
        exact .cons accepted (ih _ (by simpa using full))

end Collect

theorem AskPlan.same {p q : AskPlan} (query : p.originalQuery = q.originalQuery) (context : p.context = q.context) (units : p.units = q.units)
    (mode : p.answerMode = q.answerMode) : p = q := by
  cases p
  cases q
  simp only [AskPlan.mk.injEq]
  exact ⟨query,context,units,mode⟩

section Again

variable {casefold : Char → List Char} {plan : AskPlan} {question : String} {context : List SessionValue} {maxUnits : Int}

theorem mem_kept {unit : QueryUnit} : unit ∈ kept casefold plan question context maxUnits ↔ ∃ next,
    (∃ before origin after, plan.units.take (max 1 (min maxUnits 6)).toNat = before ++ origin::after ∧
      acceptUnit casefold question (sessionTexts context) (plan.units.map (·.id)) origin = some next ∧
      identity casefold next ∉
        (before.filterMap (acceptUnit casefold question (sessionTexts context) (plan.units.map (·.id)))).map (identity casefold)) ∧
    unit = among ((kept casefold plan question context maxUnits).map (·.id)) next := by
  unfold kept
  rw [kept_ids,List.mem_map]
  constructor
  · rintro ⟨next,member,rfl⟩
    obtain ⟨before,origin,after,whole,accepted,_,new⟩ := (mem_collect _ _).mp member
    exact ⟨next,⟨before,origin,after,whole,accepted,new⟩,rfl⟩
  · rintro ⟨next,⟨before,origin,after,whole,accepted,new⟩,rfl⟩
    exact ⟨next,(mem_collect _ _).mpr ⟨before,origin,after,whole,accepted,List.not_mem_nil,new⟩,rfl⟩

structure Validated (casefold : Char → List Char) (question : String) (context : List SessionValue) (maxUnits : Int) (plan : AskPlan) :
    Prop where
  query : plan.originalQuery = clean question
  few : plan.units.length ≤ (max 1 (min maxUnits 6)).toNat
  usable : Usable plan.units
  distinct : (plan.units.map (identity casefold)).Nodup
  others : ∀ unit ∈ plan.units, ∀ parent ∈ unit.dependsOn, parent ∈ plan.units.map (·.id) ∧ parent ≠ unit.id
  filled : ∀ unit ∈ plan.units, (intentMemoryType unit.intent).or unit.memoryType = unit.memoryType
  held : ∀ unit ∈ plan.units, Held casefold question (sessionTexts context) unit
  shown : ∀ unit ∈ plan.units, hasSupportedSpan casefold unit question (sessionTexts context) = true

theorem validated_of_usable (text : clean question ≠ "") (fits : question.length ≤ 2000)
    (usable : Usable (kept casefold plan question context maxUnits)) :
    ∃ p, validateAskPlan casefold (some plan) question context maxUnits = .ok p ∧
      p.units = kept casefold plan question context maxUnits ∧ Validated casefold question context maxUnits p := by
  have some_text : 1 ≤ (clean question).length := Nat.one_le_iff_ne_zero.mpr (by simpa using text)
  have query_fits : 1 ≤ (clean question).length ∧ (clean question).length ≤ 2000 :=
    ⟨some_text,Nat.le_trans (clean_length question) fits⟩
  have units_fit := List.length_pos_iff.mpr usable.1
  have accepted : ∀ unit ∈ kept casefold plan question context maxUnits, ∃ origin next,
      Accepted casefold question (sessionTexts context) origin next ∧
      unit = among ((kept casefold plan question context maxUnits).map (·.id)) next := by
    intro unit member
    obtain ⟨next,⟨before,origin,after,whole,accepted,new⟩,made⟩ := mem_kept.mp member
    exact ⟨origin,next,accepted_of_acceptUnit accepted,made⟩
  refine ⟨⟨clean question,plan.context,_,plan.answerMode,query_fits,plan.context_fits,⟨units_fit,kept_length⟩⟩,?_,rfl,rfl,?_,usable,?_,?_,?_,?_,?_⟩
  · simp only [validateAskPlan,if_pos usable]
    exact AskPlan.make_ok _ _ _
  · unfold kept
    rw [List.length_map]
    exact Nat.le_trans (collect_length _ _) (List.length_take_le _ _)
  · unfold kept
    rw [List.map_map]
    exact (collect_distinct _ _).1
  · intro unit member parent waits
    obtain ⟨origin,next,-,rfl⟩ := accepted unit member
    have listed := (List.mem_filter.mp waits).2
    rw [Bool.and_eq_true,decide_eq_true_eq,decide_eq_true_eq] at listed
    exact listed
  · intro unit member
    obtain ⟨origin,next,accepted,rfl⟩ := accepted unit member
    exact accepted.follows.filled
  · intro unit member
    obtain ⟨origin,next,accepted,rfl⟩ := accepted unit member
    exact accepted.held
  · intro unit member
    obtain ⟨origin,next,accepted,rfl⟩ := accepted unit member
    exact accepted.supported

theorem Validated.take (valid : Validated casefold question context maxUnits plan) :
    plan.units.take (max 1 (min maxUnits 6)).toNat = plan.units := List.take_of_length_le valid.few

theorem Validated.kept_self (valid : Validated casefold question context maxUnits plan)
    (settled : ∀ unit ∈ plan.units, repairIntentForQuery casefold unit question = unit) :
    kept casefold plan question context maxUnits = plan.units := by
  have accepted : ∀ unit ∈ plan.units,
      acceptUnit casefold question (sessionTexts context) (plan.units.map (·.id)) unit = some unit := fun unit member =>
    acceptUnit_self (settled unit member) (valid.filled unit member) (valid.held unit member) (valid.shown unit member)
      (valid.others unit member)
  unfold kept
  dsimp only
  rw [valid.take,collect_self _ _ accepted valid.distinct (fun _ _ => List.not_mem_nil)]
  exact (List.map_congr_left (fun unit member => among_self (valid.others unit member))).trans (List.map_id _)

theorem Validated.settled (valid : Validated casefold question context maxUnits plan)
    (same : kept casefold plan question context maxUnits = plan.units) :
    ∀ unit ∈ plan.units, repairIntentForQuery casefold unit question = unit := by
  unfold kept at same
  dsimp only at same
  rw [valid.take] at same
  have long := congrArg List.length same
  rw [List.length_map] at long
  have full := collect_full _ _ long
  generalize collect casefold question (sessionTexts context) (plan.units.map (·.id)) plan.units [] = nexts at same full
  generalize nexts.map (·.id) = ids at same
  intro unit member
  rw [← same] at full member
  rw [List.forall₂_map_left_iff,List.forall₂_same] at full
  obtain ⟨next,inside,rfl⟩ := List.mem_map.mp member
  obtain ⟨intent,memoryType,timeMode,evidenceMode,need⟩ := (accepted_of_acceptUnit (full next inside)).follows
  rw [repairIntentForQuery_eq] at intent memoryType timeMode evidenceMode need ⊢
  exact repair_of_follows ⟨intent,memoryType,timeMode,evidenceMode,need⟩

theorem usable_alone (unit : QueryUnit) : Usable [among [unit.id] unit] := by
  have alone : (among [unit.id] unit).dependsOn = [] := by
    refine List.filter_eq_nil_iff.mpr (fun parent _ => ?_)
    simp
  refine ⟨List.cons_ne_nil _ _,?_⟩
  have none_before : parents [among [unit.id] unit] (among [unit.id] unit).id = [] := by simp [parents,alone]
  simp [hasCycle,Search.hasCycle,Search.visitAny,Search.visit,List.eraseDups_cons,none_before]

theorem kept_single {unit next : QueryUnit} (single : plan.units = [unit])
    (accepted : acceptUnit casefold question (sessionTexts context) [unit.id] unit = some next) :
    kept casefold plan question context maxUnits = [among [next.id] next] := by
  have room : 1 ≤ (max 1 (min maxUnits 6)).toNat := by omega
  unfold kept
  dsimp only
  rw [single,List.take_of_length_le (by rw [List.length_singleton]; exact room),List.map_singleton,collect,accepted]
  rfl

theorem Validated.again (valid : Validated casefold question context maxUnits plan) :
    validateAskPlan casefold (some plan) question context maxUnits = .ok plan ↔
      ∀ unit ∈ plan.units, repairIntentForQuery casefold unit question = unit := by
  constructor
  · intro same
    by_cases usable : Usable (kept casefold plan question context maxUnits)
    · simp only [validateAskPlan,if_pos usable] at same
      exact valid.settled (AskPlan.make_units same).symm
    · -- the fallback has one unit, and one unit is usable
      simp only [validateAskPlan,if_neg usable] at same
      obtain ⟨unit,-,same⟩ := Checked.bind_ok.mp same
      have single := AskPlan.make_units same
      have member : unit ∈ plan.units := single ▸ List.mem_singleton_self unit
      have typed := typed_of_filled (valid.filled unit member)
      have some_next : (acceptUnit casefold question (sessionTexts context) [unit.id] unit).isSome :=
        acceptUnit_isSome typed (valid.shown unit member)
      obtain ⟨next,accepted⟩ := Option.isSome_iff_exists.mp some_next
      rw [kept_single single accepted] at usable
      exact absurd (usable_alone next) usable
  · intro settled
    have same := valid.kept_self settled
    simp only [validateAskPlan,same,if_pos valid.usable]
    have query_fits := plan.query_fits
    rw [valid.query] at query_fits
    rw [AskPlan.make_ok query_fits plan.context_fits plan.units_fit]
    exact congrArg Except.ok (AskPlan.same valid.query.symm rfl rfl rfl)

end Again

/-! ### The fallback -/

section Fallback

variable {casefold : Char → List Char} {plan : AskPlan} {question : String} {context : List SessionValue} {maxUnits : Int}

theorem compact_clean (casefold : Char → List Char) (question : String) : compact casefold (clean question) = compact casefold question := by
  rw [compact,clean,String.toList_ofList,Text.collapse_filter (by decide)]
  rfl

theorem clean_ne_empty (text : blank question = false) : clean question ≠ "" := by
  intro empty
  have same := @Text.collapse_filter isSpace (by decide) question.toList
  have none_kept : Text.collapse isSpace question.toList = [] := by
    have chars := congrArg String.toList empty
    rwa [clean,String.toList_ofList] at chars
  rw [none_kept,List.filter_nil,eq_comm,List.filter_eq_nil_iff] at same
  have all : question.toList.all isSpace = true := List.all_eq_true.mpr (fun c member => by simpa using same c member)
  rw [blank,all] at text
  cases text

theorem fallbackUnit_same (text : clean question ≠ "") :
    (fallbackUnit (clean question)).cleaned = fallbackUnit (clean question) := by
  have visible : (clean question).toList.all isSpace = false := by
    by_contra all
    rw [Bool.not_eq_false,List.all_eq_true] at all
    apply text
    rw [← clean_clean,clean,Text.collapse_blank all]
  have name : clean "u1" = "u1" := by decide
  simp [QueryUnit.cleaned,fallbackUnit,name,clean_clean,cleanList,visible,List.eraseDups_cons]

theorem fallback_plan (text : clean question ≠ "") (made : safeFallbackPlan question = .ok plan) :
    plan.originalQuery = clean question ∧ plan.units = [fallbackUnit (clean question)] := by
  simp only [safeFallbackPlan,if_neg text] at made
  obtain ⟨unit,checked,made⟩ := Checked.bind_ok.mp made
  obtain ⟨_,_,cleaned⟩ := Checked.bind_ok.mp checked
  obtain rfl := Except.ok.inj cleaned
  rw [fallbackUnit_same text] at made
  refine ⟨?_,AskPlan.make_units made⟩
  unfold AskPlan.make at made
  split_ifs at made
  cases made
  rfl

theorem fallback_exists (text : clean question ≠ "") :
    (∃ p, safeFallbackPlan question = .ok p) ↔ (clean question).length ≤ 500 := by
  constructor
  · rintro ⟨p,made⟩
    by_contra long
    rw [fallback_too_long text (Nat.not_le.mp long)] at made
    cases made
  · intro short
    obtain ⟨p,made,-⟩ := fallback_ok text short
    exact ⟨p,made⟩

def Wordless (cues : Cues) : Prop :=
  cues.ambiguous = false ∧ (cues.timeline && cues.episode) = false ∧ cues.event = false ∧ cues.listed = false

theorem fallback_settled (cues : Cues) (now : Bool) (text : String) :
    cues.repair now (fallbackUnit text) = fallbackUnit text ↔ Wordless cues := by
  cases ambiguous : cues.ambiguous with
  | true =>
    refine iff_of_false (fun same => ?_) (fun plain => ?_)
    · rw [Cues.repair,if_pos ambiguous] at same
      have intents := congrArg QueryUnit.intent same
      cases intents
    · rw [plain.1] at ambiguous
      cases ambiguous
  | false =>
    rw [repair_eq_self ambiguous]
    have timely : cues.timely now (fallbackUnit text) = cues.timeline := by simp [Cues.timely,fallbackUnit]
    simp only [Wordless,Cues.TurnsToTask,Cues.TurnsToInventory,Cues.Present,timely,ambiguous]
    simp [fallbackUnit]
    grind

end Fallback

/-! ### Cycles -/

section Cycles

variable {units : List QueryUnit}

/-- A dependency that the cycle search does not see, because a later unit has the same id, leads back to that id. -/
def HiddenCycle (units : List QueryUnit) : Prop :=
  ∃ before unit after, units = before ++ unit::after ∧ unit.id ∈ after.map (·.id) ∧
    ∃ parent ∈ unit.dependsOn, parent ≠ unit.id ∧ ReflTransGen (Waits units) parent unit.id

theorem parents_last {before after : List QueryUnit} {unit : QueryUnit} (whole : units = before ++ unit::after)
    (last : unit.id ∉ after.map (·.id)) {parent : String} (waits : parent ∈ unit.dependsOn) (inside : parent ∈ units.map (·.id)) :
    parent ∈ parents units unit.id := by
  have none_later : after.reverse.find? (fun other => other.id = unit.id) = none := by
    rw [List.find?_eq_none]
    intro other member same
    exact last (List.mem_map.mpr ⟨other,List.mem_reverse.mp member,of_decide_eq_true same⟩)
  have found : units.reverse.find? (fun other => other.id = unit.id) = some unit := by
    rw [whole,List.reverse_append,List.reverse_cons,List.append_assoc,List.find?_append,none_later]
    simp
  rw [parents,found]
  exact List.mem_filter.mpr ⟨waits,decide_eq_true inside⟩

theorem parents_of_cycle (others : ∀ unit ∈ units, ∀ parent ∈ unit.dependsOn, parent ∈ units.map (·.id) ∧ parent ≠ unit.id) (seen : ¬HiddenCycle units)
    {id parent : String} (waits : Waits units id parent) (back : ReflTransGen (Waits units) parent id) : parent ∈ parents units id := by
  obtain ⟨unit,member,rfl,listed⟩ := waits
  obtain ⟨before,after,whole⟩ := List.append_of_mem member
  by_cases later : unit.id ∈ after.map (·.id)
  · exact absurd ⟨before,unit,after,whole,later,parent,listed,(others unit member parent listed).2,back⟩ seen
  · exact parents_last whole later listed (others unit member parent listed).1

theorem seen_cycle (others : ∀ unit ∈ units, ∀ parent ∈ unit.dependsOn, parent ∈ units.map (·.id) ∧ parent ≠ unit.id) (seen : ¬HiddenCycle units)
    {a b : String} (path : TransGen (Waits units) a b) (back : ReflTransGen (Waits units) b a) :
    TransGen (fun id parent => parent ∈ parents units id) a b := by
  induction path with
  | single waits => exact .single (parents_of_cycle others seen waits back)
  | tail path waits ih =>
    have around := back.trans path.to_reflTransGen
    exact .tail (ih (.head waits back)) (parents_of_cycle others seen waits around)

theorem acyclic_iff (usable : Usable units)
    (others : ∀ unit ∈ units, ∀ parent ∈ unit.dependsOn, parent ∈ units.map (·.id) ∧ parent ≠ unit.id) :
    (∀ id, ¬TransGen (Waits units) id id) ↔ ¬HiddenCycle units := by
  constructor
  · rintro acyclic ⟨before,unit,after,rfl,-,parent,listed,-,back⟩
    exact acyclic unit.id (.head' ⟨unit,List.mem_append_right _ List.mem_cons_self,rfl,listed⟩ back)
  · intro seen id cycle
    have free : Search.hasCycle (parents units) (units.map (·.id)).eraseDups = some false := by
      rw [hasCycle_found,usable.2]
    obtain ⟨done,ordered,there⟩ := Search.ordered_of_hasCycle free
    have start : id ∈ units.map (·.id) := by
      obtain ⟨_,⟨unit,member,rfl,_⟩,_⟩ := TransGen.head'_iff.mp cycle
      exact List.mem_map_of_mem member
    exact ordered.acyclic (there (List.mem_eraseDups.mpr start)) (seen_cycle others seen cycle .refl)

/-- A unit as it is kept: of its dependencies, those on other units that are kept. -/
def Trimmed (ids : List String) (unit made : QueryUnit) : Prop :=
  made.id = unit.id ∧ ∀ parent, parent ∈ made.dependsOn ↔ parent ∈ unit.dependsOn ∧ parent ∈ ids ∧ parent ≠ unit.id

theorem forall₂_split {α β : Type} {R : α → β → Prop} {as : List α} {before after : List β} {b : β}
    (each : List.Forall₂ R as (before ++ b::after)) :
    ∃ before' a after', as = before' ++ a::after' ∧ R a b ∧ List.Forall₂ R after' after := by
  induction before generalizing as with
  | nil =>
    obtain ⟨a,after',first,rest,rfl⟩ := List.forall₂_cons_right_iff.mp each
    exact ⟨[],a,after',rfl,first,rest⟩
  | cons x before ih =>
    obtain ⟨y,more,-,rest,rfl⟩ := List.forall₂_cons_right_iff.mp each
    obtain ⟨before',a,after',rfl,first,rest⟩ := ih rest
    exact ⟨y::before',a,after',rfl,first,rest⟩

theorem trimmed_ids {raw made : List QueryUnit} {ids : List String} (each : List.Forall₂ (Trimmed ids) raw made) :
    made.map (·.id) = raw.map (·.id) := by
  induction each with
  | nil => rfl
  | cons first _ ih => rw [List.map_cons,List.map_cons,first.1,ih]

theorem hiddenCycle_trimmed {raw made : List QueryUnit} (each : List.Forall₂ (Trimmed (made.map (·.id))) raw made) :
    HiddenCycle raw ↔ HiddenCycle made := by
  have ids := trimmed_ids each
  have fewer {id parent : String} (waits : Waits made id parent) : Waits raw id parent := by
    obtain ⟨next,member,rfl,listed⟩ := waits
    obtain ⟨before,after,rfl⟩ := List.append_of_mem member
    obtain ⟨before',unit,after',rfl,⟨same,trimmed⟩,-⟩ := forall₂_split each
    exact ⟨unit,List.mem_append_right _ List.mem_cons_self,same.symm,((trimmed parent).mp listed).1⟩
  have enough {id parent : String} (waits : Waits raw id parent) (there : parent ∈ made.map (·.id)) (other : parent ≠ id) :
      Waits made id parent := by
    obtain ⟨unit,member,rfl,listed⟩ := waits
    obtain ⟨before,after,rfl⟩ := List.append_of_mem member
    obtain ⟨before',next,after',rfl,⟨same,trimmed⟩,-⟩ := forall₂_split each.flip
    exact ⟨next,List.mem_append_right _ List.mem_cons_self,same,(trimmed parent).mpr ⟨listed,there,other⟩⟩
  -- on a way back to a unit that is kept there are only units that are kept
  have way {a b : String} (back : ReflTransGen (Waits raw) a b) (there : b ∈ made.map (·.id)) : ReflTransGen (Waits made) a b := by
    induction back using ReflTransGen.head_induction_on with
    | refl => exact .refl
    | head waits rest ih =>
      rename_i a c
      have known : c ∈ made.map (·.id) := by
        rcases ReflTransGen.cases_head rest with rfl | ⟨_,⟨unit,member,rfl,-⟩,-⟩
        · exact there
        · rw [ids]
          exact List.mem_map_of_mem member
      by_cases self : c = a
      · exact self ▸ ih
      · exact .head (enough waits known self) ih
  constructor
  · rintro ⟨before,unit,after,rfl,later,parent,listed,other,back⟩
    obtain ⟨before',next,after',whole,⟨same,trimmed⟩,rest⟩ := forall₂_split each.flip
    have last : unit.id ∈ made.map (·.id) := by
      rw [ids]
      exact List.mem_map_of_mem (List.mem_append_right _ List.mem_cons_self)
    have known : parent ∈ made.map (·.id) := by
      rcases ReflTransGen.cases_head back with rfl | ⟨_,⟨unit',member,rfl,-⟩,-⟩
      · exact absurd rfl other
      · rw [ids]
        exact List.mem_map_of_mem member
    refine ⟨before',next,after',whole,?_,parent,(trimmed parent).mpr ⟨listed,known,other⟩,same ▸ other,same ▸ way back last⟩
    rw [same,trimmed_ids (List.Forall₂.flip rest)]
    exact later
  · rintro ⟨before,next,after,whole,later,parent,listed,other,back⟩
    rw [whole] at each
    obtain ⟨before',unit,after',rfl,⟨same,trimmed⟩,rest⟩ := forall₂_split each
    refine ⟨before',unit,after',rfl,?_,parent,((trimmed parent).mp listed).1,same ▸ other,same ▸ ReflTransGen.mono (fun _ _ => fewer) _ _ back⟩
    rw [← same,← trimmed_ids rest]
    exact later

end Cycles

/-! ### Validated twice -/

section Twice

variable (casefold : Char → List Char) (plan : AskPlan) (question : String) (context : List SessionValue) (maxUnits : Int)

/-- Where the loop's units are taken: each unit that it keeps is settled by its first repair, and no cycle is hidden from the search.
Where they are not: the question fits into a unit, and has no words that change the unit. -/
def Steady : Prop :=
  if Usable (kept casefold plan question context maxUnits) then
    (∀ before unit after next, plan.units.take (max 1 (min maxUnits 6)).toNat = before ++ unit::after →
      acceptUnit casefold question (sessionTexts context) (plan.units.map (·.id)) unit = some next →
      identity casefold next ∉
        (before.filterMap (acceptUnit casefold question (sessionTexts context) (plan.units.map (·.id)))).map (identity casefold) →
      (cuesOf casefold question).Settled (asksNow casefold unit.question) unit
        (asksNow casefold (repairQueryAnchor casefold unit question (sessionTexts context)).question)) ∧
    ¬HiddenCycle (originals casefold question (sessionTexts context) (plan.units.map (·.id))
      (plan.units.take (max 1 (min maxUnits 6)).toNat) [])
  else (clean question).length ≤ 500 ∧ (compact casefold question ≠ [] → Wordless (cuesOf casefold question))

variable {casefold plan question context maxUnits}

theorem Validated.wellFormed (valid : Validated casefold question context maxUnits plan) :
    WellFormed casefold question context maxUnits plan ↔ ¬HiddenCycle plan.units := by
  rw [← acyclic_iff valid.usable valid.others]
  refine ⟨(·.acyclic),fun acyclic => ⟨plan.units_fit.1,?_,valid.distinct,?_,acyclic,?_,?_⟩⟩
  · have few := valid.few
    omega
  · exact fun unit member parent waits => (valid.others unit member parent waits).symm
  · intro unit member type expected
    have filled := valid.filled unit member
    rw [Option.mem_def.mp expected] at filled
    exact filled.symm
  · exact fun _ unit member => shownIn_of_supported (valid.shown unit member)

theorem originals_accepted {session known : List String} (units : List QueryUnit) (seen : List (Intent × List Char × TimeMode × EvidenceMode)) :
    List.Forall₂ (fun unit next => acceptUnit casefold question session known unit = some next)
      (originals casefold question session known units seen) (collect casefold question session known units seen) := by
  induction units generalizing seen with
  | nil => exact .nil
  | cons unit rest ih =>
    rw [originals,collect]
    cases accepted : acceptUnit casefold question session known unit with
    | none => exact ih seen
    | some next =>
      dsimp only
      split
      · exact ih seen
      · exact .cons accepted (ih _)

theorem originals_trimmed : List.Forall₂ (Trimmed ((kept casefold plan question context maxUnits).map (·.id)))
    (originals casefold question (sessionTexts context) (plan.units.map (·.id)) (plan.units.take (max 1 (min maxUnits 6)).toNat) [])
    (kept casefold plan question context maxUnits) := by
  have known : ∀ id ∈ (kept casefold plan question context maxUnits).map (·.id), id ∈ plan.units.map (·.id) := by
    intro id listed
    obtain ⟨_,member,rfl⟩ := List.mem_map.mp listed
    obtain ⟨next,⟨before,unit,after,whole,accepted,-⟩,rfl⟩ := mem_kept.mp member
    have inside : unit ∈ plan.units := List.mem_of_mem_take (whole ▸ List.mem_append_right _ List.mem_cons_self)
    change next.id ∈ _
    rw [(acceptUnit_rest accepted).1]
    exact List.mem_map_of_mem inside
  have ids : (kept casefold plan question context maxUnits).map (·.id) = (collect casefold question (sessionTexts context)
      (plan.units.map (·.id)) (plan.units.take (max 1 (min maxUnits 6)).toNat) []).map (·.id) := kept_ids _ _
  have made : kept casefold plan question context maxUnits = (collect casefold question (sessionTexts context) (plan.units.map (·.id))
      (plan.units.take (max 1 (min maxUnits 6)).toNat) []).map (among ((kept casefold plan question context maxUnits).map (·.id))) := by
    rw [ids]
    rfl
  generalize (kept casefold plan question context maxUnits).map (·.id) = all at known made ⊢
  rw [made,List.forall₂_map_right_iff]
  refine (originals_accepted _ _).imp (fun unit next accepted => ?_)
  obtain ⟨same,waits⟩ := acceptUnit_rest accepted
  refine ⟨same,fun parent => ?_⟩
  rw [among,waits,same]
  simp only [List.mem_filter,Bool.and_eq_true,decide_eq_true_eq]
  exact ⟨fun ⟨⟨listed,_⟩,there,other⟩ => ⟨listed,there,other⟩,fun ⟨listed,there,other⟩ => ⟨⟨listed,known _ there,other⟩,there,other⟩⟩

theorem kept_settled : (∀ unit ∈ kept casefold plan question context maxUnits, repairIntentForQuery casefold unit question = unit) ↔
    ∀ before unit after next, plan.units.take (max 1 (min maxUnits 6)).toNat = before ++ unit::after →
      acceptUnit casefold question (sessionTexts context) (plan.units.map (·.id)) unit = some next →
      identity casefold next ∉
        (before.filterMap (acceptUnit casefold question (sessionTexts context) (plan.units.map (·.id)))).map (identity casefold) →
      (cuesOf casefold question).Settled (asksNow casefold unit.question) unit
        (asksNow casefold (repairQueryAnchor casefold unit question (sessionTexts context)).question) := by
  have each : ∀ {unit next ids}, acceptUnit casefold question (sessionTexts context) (plan.units.map (·.id)) unit = some next →
      (repairIntentForQuery casefold (among ids next) question = among ids next ↔
        (cuesOf casefold question).Settled (asksNow casefold unit.question) unit
          (asksNow casefold (repairQueryAnchor casefold unit question (sessionTexts context)).question)) := by
    intro unit next ids accepted
    obtain ⟨⟨intent,memoryType,timeMode,evidenceMode,need⟩,-,asked,-,-⟩ := accepted_of_acceptUnit accepted
    have later : asksNow casefold (among ids next).question =
        asksNow casefold (repairQueryAnchor casefold unit question (sessionTexts context)).question := congrArg (asksNow casefold) asked
    rw [repairIntentForQuery_eq,later]
    exact repair_settled ⟨intent,memoryType,timeMode,evidenceMode,need⟩
  constructor
  · intro all before unit after next whole accepted new
    exact (each accepted).mp (all _ (mem_kept.mpr ⟨next,⟨before,unit,after,whole,accepted,new⟩,rfl⟩))
  · intro all unit member
    obtain ⟨next,⟨before,origin,after,whole,accepted,new⟩,made⟩ := mem_kept.mp member
    rw [made]
    exact (each accepted).mpr (all before origin after next whole accepted new)

theorem fallback_shown (text : String) : hasSupportedSpan casefold (fallbackUnit (clean text)) text (sessionTexts context) =
    !(compact casefold text).isEmpty := by
  simp [hasSupportedSpan,fallbackUnit,supported,sources,compact_clean]

theorem fallback_validated {p : AskPlan} (text : clean question ≠ "") (made : safeFallbackPlan question = .ok p)
    (shown : compact casefold question ≠ []) : Validated casefold question context maxUnits p := by
  obtain ⟨query,single⟩ := fallback_plan text made
  have free : among [(fallbackUnit (clean question)).id] (fallbackUnit (clean question)) = fallbackUnit (clean question) := rfl
  refine ⟨query,?_,?_,?_,?_,?_,?_,?_⟩ <;> rw [single]
  · rw [List.length_singleton]
    omega
  · rw [← free]
    exact usable_alone _
  · exact List.nodup_singleton _
  · exact List.forall_mem_singleton.mpr (fun parent waits => absurd waits List.not_mem_nil)
  · exact List.forall_mem_singleton.mpr rfl
  · refine List.forall_mem_singleton.mpr (fun anchor found => ?_)
    have listed : anchor ∈ [clean question] := List.mem_of_find?_eq_some found
    rw [List.mem_singleton.mp listed]
    exact own_pairs _
  · rw [List.forall_mem_singleton,fallback_shown]
    simpa using shown

theorem fallback_again {p : AskPlan} (text : clean question ≠ "") (made : safeFallbackPlan question = .ok p) :
    validateAskPlan casefold (some p) question context maxUnits = .ok p ↔ (compact casefold question ≠ [] → Wordless (cuesOf casefold question)) := by
  obtain ⟨-,single⟩ := fallback_plan text made
  by_cases shown : compact casefold question = []
  · refine iff_of_true ?_ (fun some_text => absurd shown some_text)
    have dropped : acceptUnit casefold question (sessionTexts context) [(fallbackUnit (clean question)).id] (fallbackUnit (clean question)) =
        none := by
      rw [Option.eq_none_iff_forall_not_mem]
      intro next accepted
      have accepted := accepted_of_acceptUnit accepted
      have supported := accepted.supported
      rw [hasSupportedSpan,accepted.spans,← hasSupportedSpan,fallback_shown,shown] at supported
      cases supported
    have nothing : kept casefold p question context maxUnits = [] := by
      have room : 1 ≤ (max 1 (min maxUnits 6)).toNat := by omega
      unfold kept
      dsimp only
      rw [single,List.take_of_length_le (by rw [List.length_singleton]; exact room),List.map_singleton,collect,dropped]
      rfl
    have useless : ¬Usable (kept casefold p question context maxUnits) := fun usable => usable.1 nothing
    simp only [validateAskPlan,if_neg useless,made]
  · rw [(fallback_validated text made shown).again,single,List.forall_mem_singleton,repairIntentForQuery_eq,fallback_settled]
    exact (imp_iff_right shown).symm

theorem fallback_wellFormed {p : AskPlan} (text : clean question ≠ "") (made : safeFallbackPlan question = .ok p) :
    WellFormed casefold question context maxUnits p := by
  obtain ⟨-,single⟩ := fallback_plan text made
  refine ⟨p.units_fit.1,?_,?_,?_,?_,?_,fun other => absurd made other⟩ <;> rw [single]
  · rw [List.length_singleton]
    omega
  · exact List.nodup_singleton _
  · exact List.forall_mem_singleton.mpr (fun parent waits => absurd waits List.not_mem_nil)
  · intro id cycle
    obtain ⟨parent,⟨unit,member,-,waits⟩,-⟩ := TransGen.head'_iff.mp cycle
    rw [List.mem_singleton.mp member] at waits
    exact List.not_mem_nil waits
  · exact List.forall_mem_singleton.mpr (fun type expected => absurd expected (by simp [fallbackUnit,intentMemoryType]))

theorem validated_steady (casefold : Char → List Char) (plan : AskPlan) (question : String) (context : List SessionValue) (maxUnits : Int)
    (text : blank question = false) (fits : question.length ≤ 2000) :
    (∃ p, validateAskPlan casefold (some plan) question context maxUnits = .ok p ∧ WellFormed casefold question context maxUnits p ∧
      validateAskPlan casefold (some p) question context maxUnits = .ok p) ↔ Steady casefold plan question context maxUnits := by
  have text := clean_ne_empty text
  unfold Steady
  by_cases usable : Usable (kept casefold plan question context maxUnits)
  · rw [if_pos usable,← kept_settled,hiddenCycle_trimmed originals_trimmed]
    obtain ⟨p,made,units,valid⟩ := validated_of_usable text fits usable
    rw [made,← units,← valid.wellFormed,← valid.again]
    constructor
    · rintro ⟨q,same,formed,again⟩
      obtain rfl := Except.ok.inj same
      exact ⟨again,formed⟩
    · exact fun ⟨again,formed⟩ => ⟨p,rfl,formed,again⟩
  · rw [if_neg usable,← fallback_exists text]
    simp only [validateAskPlan,if_neg usable]
    constructor
    · rintro ⟨p,made,-,again⟩
      exact ⟨⟨p,made⟩,(fallback_again text made).mp again⟩
    · rintro ⟨⟨p,made⟩,plain⟩
      exact ⟨p,made,fallback_wellFormed text made,(fallback_again text made).mpr plain⟩

end Twice

/-! ### Three teas, and a report -/

def lookupPlan (question : String) (fits : 1 ≤ question.length ∧ question.length ≤ 2000) : AskPlan :=
  ⟨question,[],[fallbackUnit question],.direct,fits,Nat.zero_le 8,⟨Nat.le_refl 1,Nat.le_add_left 1 15⟩⟩

def reportPlan : AskPlan := lookupPlan "之前什么时候提交报告" (by decide)

/-- The first two wait for each other, and the third has the id of the first. -/
def knottedPlan : AskPlan where
  originalQuery := "绿茶和红茶和白茶"
  context := []
  units := [
    { fallbackUnit "绿茶" with topic := some "绿茶",dependsOn := ["u2"] },
    { fallbackUnit "红茶" with id := "u2",topic := some "红茶",dependsOn := ["u1"] },
    { fallbackUnit "白茶" with topic := some "白茶" }]
  answerMode := .direct
  query_fits := by decide
  context_fits := Nat.zero_le 8
  units_fit := by decide

def intents (result : Except ValidationError AskPlan) : Option (List Intent) := result.toOption.map (fun p => p.units.map (·.intent))

def waiting (result : Except ValidationError AskPlan) : Option (List (String × List String)) :=
  result.toOption.map (fun p => p.units.map (fun unit => (unit.id,unit.dependsOn)))

/-- The search for a cycle sees only the last unit of an id, so two units that wait for each other are returned.
Of the report, when and to hand in make the lookup a task state, and before makes that a history. -/
theorem knotted_report_unstable :
    (¬∃ p, validateAskPlan (fun c => [c]) (some knottedPlan) "绿茶和红茶和白茶" [] 4 = .ok p ∧
      WellFormed (fun c => [c]) "绿茶和红茶和白茶" [] 4 p ∧
      validateAskPlan (fun c => [c]) (some p) "绿茶和红茶和白茶" [] 4 = .ok p) ∧
    ¬∃ p, validateAskPlan (fun c => [c]) (some reportPlan) "之前什么时候提交报告" [] 4 = .ok p ∧
      WellFormed (fun c => [c]) "之前什么时候提交报告" [] 4 p ∧
      validateAskPlan (fun c => [c]) (some p) "之前什么时候提交报告" [] 4 = .ok p := by
  constructor
  · rintro ⟨p,made,formed,-⟩
    have units : waiting (validateAskPlan (fun c => [c]) (some knottedPlan) "绿茶和红茶和白茶" [] 4) =
        some [("u1",["u2"]),("u2",["u1"]),("u1",[])] := by decide +kernel
    rw [made] at units
    have edge (child parent : String) (listed : (child,[parent]) ∈ [("u1",["u2"]),("u2",["u1"]),("u1",[])]) : Waits p.units child parent := by
      rw [← Option.some.inj units] at listed
      obtain ⟨unit,member,same⟩ := List.mem_map.mp listed
      obtain ⟨rfl,waits⟩ := Prod.mk.inj same
      exact ⟨unit,member,rfl,waits ▸ List.mem_singleton_self parent⟩
    exact formed.acyclic "u1" (.head (edge "u1" "u2" (by decide)) (.single (edge "u2" "u1" (by decide))))
  · rintro ⟨p,made,-,again⟩
    have first : intents (validateAskPlan (fun c => [c]) (some reportPlan) "之前什么时候提交报告" [] 4) = some [.taskState] := by
      decide +kernel
    have second : intents (validateAskPlan (fun c => [c]) (some reportPlan) "之前什么时候提交报告" [] 4 >>= fun p =>
        validateAskPlan (fun c => [c]) (some p) "之前什么时候提交报告" [] 4) = some [.memoryHistory] := by
      decide +kernel
    rw [made] at first second
    change intents (validateAskPlan (fun c => [c]) (some p) _ [] 4) = _ at second
    rw [again,first] at second
    cases second

def teaPlan : AskPlan := lookupPlan "绿茶" (by decide)

theorem tea_stable : ∃ p, validateAskPlan (fun c => [c]) (some teaPlan) "绿茶" [] 4 = .ok p ∧ WellFormed (fun c => [c]) "绿茶" [] 4 p ∧
    validateAskPlan (fun c => [c]) (some p) "绿茶" [] 4 = .ok p := by
  rw [validated_steady _ _ _ _ _ (by decide) (by decide)]
  have usable : Usable (kept (fun c => [c]) teaPlan "绿茶" [] 4) := by decide +kernel
  have single : (kept (fun c => [c]) teaPlan "绿茶" [] 4).map (·.id) = ["u1"] := by decide +kernel
  have timeless : (cuesOf (fun c => [c]) "绿茶").timeline = false := by decide +kernel
  have unlisted : (cuesOf (fun c => [c]) "绿茶").listed = false := by decide +kernel
  unfold Steady
  rw [if_pos usable]
  refine ⟨fun _ _ _ _ _ _ _ => .inr ⟨fun _ => unlisted,fun asked => ?_⟩,?_⟩
  · rw [timeless] at asked
    cases asked
  · rintro ⟨before,unit,after,whole,later,-⟩
    have long := congrArg List.length ((trimmed_ids originals_trimmed).symm.trans single)
    rw [whole] at long
    cases after with
    | nil => cases later
    | cons next after =>
      simp at long
      omega

end Suixinji.Ask
