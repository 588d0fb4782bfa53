import Suixinji.Facts.Cards

/-! Whether a derived card is more visible than its evidence: what the access check
reads of a scope, and what the merged scope of several facts shows of it. -/
namespace Suixinji.Facts
open Relational Checked Transition

def Scope.sensitivityText (lib : Library) (scope : Scope) : String := lib.casefold (orText (scope.get "sensitivity") "normal")

def Scope.accessText (lib : Library) (scope : Scope) : String :=
  lib.casefold (orText (scope.get "access_scope") (orText (scope.get "scope") "owner"))

def Scope.guarded (lib : Library) (scope : Scope) : Prop := scope.sensitivityText lib ∈ guardedSensitivities

def Scope.restricted (lib : Library) (scope : Scope) : Prop := scope.accessText lib ∈ ["restricted","private"]

def Scope.ownersOnly (lib : Library) (scope : Scope) : Prop := scope.accessText lib ∈ ["owner","owner_only"]

def Scope.owner (scope : Scope) (ctx : AccessContext) : String :=
  orText (scope.get "owner_id") (orText ctx.ownerId "owner")

section
variable {lib : Library} {scope : Scope} {context : Supplied}

theorem allowed_nil : memoryAccessAllowed lib [] context = true := by
  simp [memoryAccessAllowed,accessDecision]

theorem allowed_iff (named : scope ≠ []) : memoryAccessAllowed lib scope context ↔
    (scope.guarded lib → (AccessContext.fromValue context).allowSensitive) ∧
    (scope.restricted lib → (AccessContext.fromValue context).allowRestricted) ∧
    (scope.ownersOnly lib → orText (AccessContext.fromValue context).requester "owner" =
      scope.owner (AccessContext.fromValue context) ∨ (AccessContext.fromValue context).allowRestricted) := by
  simp only [memoryAccessAllowed,accessDecision,if_neg named,Scope.guarded,Scope.restricted,Scope.ownersOnly,Scope.owner,
    Scope.sensitivityText,Scope.accessText]
  split
  · rename_i denied
    simp only [Bool.false_eq_true,false_iff,not_and]
    exact fun allowed => absurd (allowed denied.1) denied.2
  split
  · rename_i denied
    simp only [Bool.false_eq_true,false_iff,not_and]
    exact fun _ allowed => absurd (allowed denied.1) denied.2
  split
  · rename_i denied
    simp only [Bool.false_eq_true,false_iff,not_and]
    intro _ _ allowed
    rcases allowed denied.1 with same | free
    · exact denied.2.1 same
    · exact denied.2.2 free
  · rename_i sensitive restricted owned
    simp only [true_iff]
    refine ⟨fun hit => ?_,fun hit => ?_,fun hit => ?_⟩
    · by_contra not
      exact sensitive ⟨hit,not⟩
    · by_contra not
      exact restricted ⟨hit,not⟩
    · by_contra not
      rw [not_or] at not
      exact owned ⟨hit,not.1,not.2⟩

end

theorem maxRanked_spec {ordered values : List String} {m : String} (max : maxRanked ordered values = some m) :
    m ∈ values ∧ ∀ v ∈ values, rank ordered v ≤ rank ordered m := by
  cases values with
  | nil => cases max
  | cons v values =>
    cases Option.some.inj max
    clear max
    induction values generalizing v with
    | nil => simp
    | cons x values ih =>
      rw [List.foldl_cons]
      split
      · rename_i higher
        obtain ⟨member,highest⟩ := ih x
        refine ⟨List.mem_cons_of_mem _ member,?_⟩
        intro y inside
        rcases List.mem_cons.mp inside with rfl | inside
        · exact (Nat.le_of_lt higher).trans (highest x (by simp))
        · exact highest y inside
      · rename_i lower
        obtain ⟨member,highest⟩ := ih v
        constructor
        · rcases List.mem_cons.mp member with same | later
          · exact List.mem_cons.mpr (.inl same)
          · exact List.mem_cons_of_mem _ (List.mem_cons_of_mem _ later)
        · intro y inside
          rcases List.mem_cons.mp inside with rfl | inside
          · exact highest y (by simp)
          rcases List.mem_cons.mp inside with rfl | inside
          · exact (Nat.le_of_not_lt lower).trans (highest v (by simp))
          · exact highest y (by simp [inside])

theorem maxRanked_isSome (ordered : List String) {values : List String} {v : String} (member : v ∈ values) :
    ∃ m, maxRanked ordered values = some m := by
  cases values with
  | nil => cases member
  | cons x values => exact ⟨_,rfl⟩

theorem mem_namedValues {name v : String} {scopes : List Scope} :
    v ∈ namedValues name scopes ↔ ∃ scope ∈ scopes, scope.truthy name = some v := List.mem_filterMap

structure Merged (scopes : List Scope) (merged : Scope) : Prop where
  owner : merged.get "owner_id" = (namedValues "owner_id" scopes).head?
  alone : ∀ v ∈ namedValues "owner_id" scopes, (namedValues "owner_id" scopes).head? = some v
  access : merged.get "access_scope" = maxRanked accessOrder (namedValues "access_scope" scopes)
  sensitivity : merged.get "sensitivity" = maxRanked sensitivityOrder (namedValues "sensitivity" scopes)
  place : merged.get "scope" = none
  empty : namedValues "owner_id" scopes = [] → namedValues "access_scope" scopes = [] →
    namedValues "sensitivity" scopes = [] → merged = []

theorem get_fields (owner access sensitivity : Option String) :
    let merged := scopeField "owner_id" owner ++ (scopeField "access_scope" access ++ scopeField "sensitivity" sensitivity)
    Scope.get merged "owner_id" = owner ∧ Scope.get merged "access_scope" = access ∧
      Scope.get merged "sensitivity" = sensitivity ∧ Scope.get merged "scope" = none := by
  cases owner <;> cases access <;> cases sensitivity <;> exact ⟨rfl,rfl,rfl,rfl⟩

theorem merged_of_ok {scopes : List Scope} {merged : Scope} (ok : mergeScopes scopes = .ok merged) :
    Merged scopes merged := by
  simp only [mergeScopes,bind_ok,require_ok,pure,Except.pure,Except.ok.injEq] at ok
  obtain ⟨_,few,rfl⟩ := ok
  have head : (namedValues "owner_id" scopes).eraseDups.head? = (namedValues "owner_id" scopes).head? := by
    cases namedValues "owner_id" scopes with
    | nil => rfl
    | cons v vs => rw [List.eraseDups_cons]; rfl
  obtain ⟨owner,access,sensitivity,place⟩ := get_fields (namedValues "owner_id" scopes).eraseDups.head?
    (maxRanked accessOrder (namedValues "access_scope" scopes))
    (maxRanked sensitivityOrder (namedValues "sensitivity" scopes))
  refine ⟨owner.trans head,?_,access,sensitivity,place,fun owners accesses sensitivities => ?_⟩
  rotate_left
  · rw [owners,accesses,sensitivities]
    rfl
  intro v member
  rw [← head]
  have kept : v ∈ (namedValues "owner_id" scopes).eraseDups := List.mem_eraseDups.mpr member
  generalize (namedValues "owner_id" scopes).eraseDups = owners at few kept
  match owners,few,kept with
  | [w],_,kept => rw [List.mem_singleton.mp kept]; rfl

/-- The library's case folding leaves the lower-case words of the two orders alone. -/
def Library.folds (lib : Library) : Prop := ∀ v ∈ accessOrder ++ sensitivityOrder, lib.casefold v = v

/-- Values that merge to one of the words `high` at the top of the order: one of them
is spelled so, or none is a word of the order above the lowest, and the first one folds
to such a word. -/
def Shows (lib : Library) (ordered high values : List String) : Prop :=
  (∃ v ∈ values, v ∈ high) ∨
    ((∀ v ∈ values, v ∉ ordered.tail) ∧ values.head?.any (fun v => lib.casefold v ∈ high))

def closedWords : List String := ["restricted","private"]

def ownedWords : List String := ["owner","owner_only","private","restricted"]

def ShowsOwned (lib : Library) (group : List Scope) : Prop :=
  Shows lib accessOrder ownedWords (namedValues "access_scope" group) ∨
    (namedValues "access_scope" group = [] ∧
      (namedValues "owner_id" group ≠ [] ∨ namedValues "sensitivity" group ≠ []))

/-- What the check reads of a scope, the scopes of the group show: a guarded
sensitivity, a restricted access, and an access for owners only, of the one owner that
the group names. -/
structure Covered (lib : Library) (group : List Scope) (scope : Scope) : Prop where
  guarded : scope.guarded lib → Shows lib sensitivityOrder guardedSensitivities (namedValues "sensitivity" group)
  restricted : scope.restricted lib → Shows lib accessOrder closedWords (namedValues "access_scope" group)
  ownersOnly : scope.ownersOnly lib → Shows lib accessOrder closedWords (namedValues "access_scope" group) ∨
    (ShowsOwned lib group ∧ (scope.truthy "owner_id" ≠ none ∨ namedValues "owner_id" group = []))

section
variable {lib : Library} {group : List Scope} {merged scope : Scope}

theorem orText_some {v b : String} (full : v ≠ "") : orText (some v) b = v := by
  simp [orText,Option.filter,full]

theorem truthy_ne {name v : String} (named : scope.truthy name = some v) : scope.get name = some v ∧ v ≠ "" := by
  obtain ⟨found,full⟩ := Option.filter_eq_some_iff.mp named
  exact ⟨found,by simpa using full⟩

theorem rank_outside {ordered : List String} {v : String} (outside : v ∉ ordered.tail) : rank ordered v = 0 := by
  unfold rank
  split
  · rename_i inside
    cases ordered with
    | nil => cases inside
    | cons w ordered =>
      obtain rfl : v = w := (List.mem_cons.mp inside).resolve_right outside
      exact List.idxOf_cons_self
  · rfl

theorem shows_iff {ordered high values : List String} {m : String} (low : Nat) (positive : 0 < low)
    (folds : ∀ v ∈ ordered, lib.casefold v = v) (above : ∀ v ∈ ordered.tail, 0 < rank ordered v)
    (ranks : ∀ v ∈ high, low ≤ rank ordered v) (highs : ∀ v ∈ ordered, low ≤ rank ordered v → v ∈ high)
    (max : maxRanked ordered values = some m) : lib.casefold m ∈ high ↔ Shows lib ordered high values := by
  obtain ⟨inside,highest⟩ := maxRanked_spec max
  have first (flat : ∀ v ∈ values, v ∉ ordered.tail) : values.head? = some m := by
    cases values with
    | nil => cases inside
    | cons v values =>
      have kept (rest : List String) (small : ∀ x ∈ rest, x ∉ ordered.tail) :
          rest.foldl (fun best x => if rank ordered best < rank ordered x then x else best) v = v := by
        induction rest with
        | nil => rfl
        | cons x rest ih =>
          rw [List.foldl_cons,if_neg (by rw [rank_outside (small x (by simp))]; omega)]
          exact ih (fun y later => small y (by simp [later]))
      rw [← max,maxRanked,kept values (fun x later => flat x (by simp [later]))]
      rfl
  constructor
  · intro folded
    by_cases word : m ∈ ordered.tail
    · rw [folds m (List.mem_of_mem_tail word)] at folded
      exact .inl ⟨m,inside,folded⟩
    · have flat : ∀ v ∈ values, v ∉ ordered.tail := by
        intro v member word'
        have less := highest v member
        rw [rank_outside word] at less
        exact absurd (above v word') (by omega)
      refine .inr ⟨flat,?_⟩
      rw [first flat]
      exact decide_eq_true folded
  · rintro (⟨v,member,spelled⟩ | ⟨flat,folded⟩)
    · have enough : low ≤ rank ordered m := (ranks v spelled).trans (highest v member)
      have word : m ∈ ordered := by
        by_contra outside
        simp only [rank,if_neg outside] at enough
        omega
      rw [folds m word]
      exact highs m word enough
    · rw [first flat] at folded
      exact of_decide_eq_true folded

theorem Shows.nonempty {ordered high values : List String} (shows : Shows lib ordered high values) : values ≠ [] := by
  rintro rfl
  rcases shows with ⟨v,member,_⟩ | ⟨_,folded⟩
  · cases member
  · cases folded

theorem ne_nil_of_get {name v : String} (found : scope.get name = some v) : scope ≠ [] := by
  rintro rfl
  cases found

theorem mem_named {name v : String} (member : scope ∈ group) (named : scope.truthy name = some v) :
    v ∈ namedValues name group := mem_namedValues.mpr ⟨scope,member,named⟩

theorem named_full {name v : String} (member : v ∈ namedValues name group) : v ≠ "" := by
  obtain ⟨_,_,named⟩ := mem_namedValues.mp member
  exact (truthy_ne named).2

theorem merged_value {ordered : List String} {name : String}
    (field : merged.get name = maxRanked ordered (namedValues name group)) :
    (namedValues name group = [] ∧ merged.get name = none) ∨
      ∃ m, maxRanked ordered (namedValues name group) = some m ∧ merged ≠ [] ∧ ∀ b, orText (merged.get name) b = m := by
  cases max : maxRanked ordered (namedValues name group) with
  | none =>
    refine .inl ⟨?_,field.trans max⟩
    cases named : namedValues name group with
    | nil => rfl
    | cons v values => rw [named] at max; cases max
  | some m =>
    have found := field.trans max
    refine .inr ⟨m,rfl,ne_nil_of_get found,fun b => ?_⟩
    rw [found,orText_some (named_full (maxRanked_spec max).1)]

theorem merged_guarded (folds : lib.folds) (fields : Merged group merged) : merged ≠ [] ∧ merged.guarded lib ↔
    Shows lib sensitivityOrder guardedSensitivities (namedValues "sensitivity" group) := by
  rcases merged_value fields.sensitivity with ⟨unnamed,none⟩ | ⟨m,max,some_,text⟩
  · constructor
    · rintro ⟨_,guarded⟩
      rw [Scope.guarded,Scope.sensitivityText,none] at guarded
      exact absurd guarded ((folds "normal" (by decide)).symm ▸ (by decide : "normal" ∉ guardedSensitivities))
    · exact fun shows => absurd unnamed shows.nonempty
  · rw [Scope.guarded,Scope.sensitivityText,text,and_iff_right some_]
    exact shows_iff 1 (by decide) (fun v word => folds v (List.mem_append_right _ word)) (by decide) (by decide) (by decide) max

theorem merged_access (high : List String) (low : Nat) (positive : 0 < low) (folds : lib.folds) (fields : Merged group merged)
    (ranks : ∀ v ∈ high, low ≤ rank accessOrder v) (highs : ∀ v ∈ accessOrder, low ≤ rank accessOrder v → v ∈ high) :
    merged ≠ [] ∧ merged.accessText lib ∈ high ↔ Shows lib accessOrder high (namedValues "access_scope" group) ∨
      (namedValues "access_scope" group = [] ∧ merged ≠ [] ∧ "owner" ∈ high) := by
  rcases merged_value fields.access with ⟨unnamed,none⟩ | ⟨m,max,some_,text⟩
  · have shown : merged.accessText lib = "owner" := by
      rw [Scope.accessText,none,fields.place]
      exact folds "owner" (by decide)
    rw [shown,unnamed]
    constructor
    · exact fun owned => .inr ⟨rfl,owned⟩
    · rintro (shows | ⟨_,owned⟩)
      · exact absurd rfl shows.nonempty
      · exact owned
  · have named : namedValues "access_scope" group ≠ [] := List.ne_nil_of_mem (maxRanked_spec max).1
    rw [Scope.accessText,text,and_iff_right some_,or_iff_left (fun unnamed => named unnamed.1)]
    exact shows_iff low positive (fun v word => folds v (List.mem_append_left _ word)) (by decide) ranks highs max

theorem merged_restricted (folds : lib.folds) (fields : Merged group merged) : merged ≠ [] ∧ merged.restricted lib ↔
    Shows lib accessOrder closedWords (namedValues "access_scope" group) := by
  have access := merged_access closedWords 4 (by decide) folds fields (by decide) (by decide)
  exact access.trans (or_iff_left (fun owned => absurd owned.2.2 (by decide)))

theorem merged_named (fields : Merged group merged) (unnamed : namedValues "access_scope" group = []) :
    merged ≠ [] ↔ namedValues "owner_id" group ≠ [] ∨ namedValues "sensitivity" group ≠ [] := by
  constructor
  · intro some_
    by_contra none
    rw [not_or,Classical.not_not,Classical.not_not] at none
    exact some_ (fields.empty none.1 unnamed none.2)
  · rintro (owners | sensitivities)
    · obtain ⟨v,vs,named⟩ := List.exists_cons_of_ne_nil owners
      exact ne_nil_of_get (fields.owner.trans (by rw [named]; rfl))
    · obtain ⟨v,vs,named⟩ := List.exists_cons_of_ne_nil sensitivities
      obtain ⟨m,max⟩ := maxRanked_isSome sensitivityOrder (named ▸ List.mem_cons_self : v ∈ namedValues "sensitivity" group)
      exact ne_nil_of_get (fields.sensitivity.trans max)

theorem merged_owned (folds : lib.folds) (fields : Merged group merged) :
    merged ≠ [] ∧ (merged.restricted lib ∨ merged.ownersOnly lib) ↔ ShowsOwned lib group := by
  have access := merged_access ownedWords 2 (by decide) folds fields (by decide) (by decide)
  have words : merged.accessText lib ∈ ownedWords ↔ merged.restricted lib ∨ merged.ownersOnly lib := by
    simp only [ownedWords,Scope.restricted,Scope.ownersOnly,List.mem_cons,List.not_mem_nil,or_false]
    tauto
  rw [← words,access,ShowsOwned]
  refine or_congr Iff.rfl (and_congr_right fun unnamed => ?_)
  rw [← merged_named fields unnamed]
  exact and_iff_left (by decide)

/-- The owner read of the merged scope is the one read of a scope of the group, in any
context, just when the scope names its owner or the group names none. -/
theorem merged_owner (fields : Merged group merged) (member : scope ∈ group) :
    (∀ ctx : AccessContext, merged.owner ctx = scope.owner ctx) ↔
      (scope.truthy "owner_id" ≠ none ∨ namedValues "owner_id" group = []) := by
  have absent (none : scope.truthy "owner_id" = none) (ctx : AccessContext) :
      scope.owner ctx = orText ctx.ownerId "owner" := by
    rw [Scope.owner]
    conv_lhs => rw [orText,show (scope.get "owner_id").filter (· ≠ "") = Option.none from none]
    rfl
  constructor
  · intro same
    by_contra bare
    rw [not_or,Classical.not_not] at bare
    obtain ⟨v,vs,named⟩ := List.exists_cons_of_ne_nil bare.2
    have full := named_full (named ▸ List.mem_cons_self : v ∈ namedValues "owner_id" group)
    have other : ∃ w : String, w ≠ "" ∧ w ≠ v := by
      by_cases owner : v = "owner"
      · exact ⟨"guest",by decide,owner ▸ by decide⟩
      · exact ⟨"owner",by decide,fun hit => owner hit.symm⟩
    obtain ⟨w,full',apart⟩ := other
    have clash := same { ownerId := some w }
    rw [absent bare.1,Scope.owner,fields.owner,named] at clash
    change orText (some v) _ = orText (some w) _ at clash
    rw [orText_some full,orText_some full'] at clash
    exact apart clash.symm
  · intro named ctx
    cases own : scope.truthy "owner_id" with
    | some v =>
      rw [Scope.owner,Scope.owner,fields.owner,fields.alone v (mem_named member own),(truthy_ne own).1]
    | none =>
      rw [absent own,Scope.owner,fields.owner,named.resolve_left (fun names => names own)]
      rfl

theorem orText_full (a : Option String) (b : String) (full : b ≠ "") : orText a b ≠ "" := by
  unfold orText
  cases chosen : a.filter (· ≠ "") with
  | none => exact full
  | some v =>
    have := (Option.filter_eq_some_iff.mp chosen).2
    simpa using this

end

section
variable {lib : Library} {group : List Scope} {merged scope : Scope}

theorem Covered.allowed (covered : Covered lib group scope) (folds : lib.folds) (fields : Merged group merged)
    (member : scope ∈ group) (context : Supplied) (allowed : memoryAccessAllowed lib merged context) :
    memoryAccessAllowed lib scope context := by
  by_cases empty : scope = []
  · rw [empty]
    exact allowed_nil
  rw [allowed_iff empty]
  refine ⟨fun guarded => ?_,fun restricted => ?_,fun only => ?_⟩
  · obtain ⟨some_,shown⟩ := (merged_guarded folds fields).mpr (covered.guarded guarded)
    exact ((allowed_iff some_).mp allowed).1 shown
  · obtain ⟨some_,shown⟩ := (merged_restricted folds fields).mpr (covered.restricted restricted)
    exact ((allowed_iff some_).mp allowed).2.1 shown
  · rcases covered.ownersOnly only with closed | ⟨owned,named⟩
    · obtain ⟨some_,shown⟩ := (merged_restricted folds fields).mpr closed
      exact .inr (((allowed_iff some_).mp allowed).2.1 shown)
    · obtain ⟨some_,restricted | owned⟩ := (merged_owned folds fields).mpr owned
      · exact .inr (((allowed_iff some_).mp allowed).2.1 restricted)
      · rw [← (merged_owner fields member).mpr named]
        exact ((allowed_iff some_).mp allowed).2.2 owned

theorem covered_of_allowed (folds : lib.folds) (fields : Merged group merged) (member : scope ∈ group) (some_ : scope ≠ [])
    (all : ∀ context, memoryAccessAllowed lib merged context → memoryAccessAllowed lib scope context) :
    Covered lib group scope := by
  -- a context that may read everything but what one right is missing for
  have reader (requester ownerId : Option String) (sensitive restricted : Bool)
      (mayRead : merged ≠ [] → (merged.guarded lib → sensitive) ∧ (merged.restricted lib → restricted) ∧
        (merged.ownersOnly lib → orText requester "owner" = merged.owner ⟨requester,ownerId,sensitive,restricted⟩ ∨
          restricted)) :
      (scope.guarded lib → sensitive) ∧ (scope.restricted lib → restricted) ∧
        (scope.ownersOnly lib → orText requester "owner" = scope.owner ⟨requester,ownerId,sensitive,restricted⟩ ∨
          restricted) := by
    refine (allowed_iff some_).mp (all (.context ⟨requester,ownerId,sensitive,restricted⟩) ?_)
    by_cases empty : merged = []
    · rw [empty]
      exact allowed_nil
    · exact (allowed_iff empty).mpr (mayRead empty)
  have owner_full (ctx : AccessContext) : merged.owner ctx ≠ "" :=
    orText_full _ _ (orText_full _ _ (by decide))
  refine ⟨fun guarded => ?_,fun restricted => ?_,fun only => ?_⟩
  · rw [← merged_guarded folds fields]
    by_contra hidden
    have read := reader none none false true
      (fun some_ => ⟨fun shown => absurd ⟨some_,shown⟩ hidden,fun _ => rfl,fun _ => .inr rfl⟩)
    exact absurd (read.1 guarded) (by decide)
  · rw [← merged_restricted folds fields]
    by_contra hidden
    have read := reader (some (merged.owner {})) none true false
      (fun some_ => ⟨fun _ => rfl,fun shown => absurd ⟨some_,shown⟩ hidden,
        fun _ => .inl (orText_some (owner_full _))⟩)
    exact absurd (read.2.1 restricted) (by decide)
  · rw [← merged_restricted folds fields,← merged_owned folds fields,← merged_owner fields member]
    by_contra hidden
    rw [not_or] at hidden
    obtain ⟨open_,apart⟩ := hidden
    by_cases owned : merged ≠ [] ∧ merged.ownersOnly lib
    · have differ : ¬∀ ctx : AccessContext, merged.owner ctx = scope.owner ctx :=
        fun same => apart ⟨⟨owned.1,.inr owned.2⟩,same⟩
      simp only [not_forall] at differ
      obtain ⟨ctx,differ⟩ := differ
      have read := reader (some (merged.owner ctx)) ctx.ownerId true false
        (fun some_ => ⟨fun _ => rfl,fun shown => absurd ⟨some_,shown⟩ open_,fun _ => .inl (orText_some (owner_full _))⟩)
      rcases read.2.2 only with same | never
      · rw [orText_some (owner_full ctx)] at same
        exact differ same
      · cases never
    · have stranger : ∃ w : String, w ≠ "" ∧ w ≠ scope.owner {} := by
        by_cases owner : scope.owner {} = "owner"
        · exact ⟨"guest",by decide,owner ▸ by decide⟩
        · exact ⟨"owner",by decide,fun hit => owner hit.symm⟩
      obtain ⟨w,full,other⟩ := stranger
      have read := reader (some w) none true false
        (fun some_ => ⟨fun _ => rfl,fun shown => absurd ⟨some_,shown⟩ open_,fun shown => absurd ⟨some_,shown⟩ owned⟩)
      rcases read.2.2 only with same | never
      · rw [orText_some full] at same
        exact other same
      · cases never

end

end Suixinji.Facts
