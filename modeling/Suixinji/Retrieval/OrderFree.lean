import Mathlib.Data.String.Basic
import Suixinji.Retrieval.Authority
import Suixinji.Retrieval.Fusion

/-! The two passes give the same scores and reasons for every order of the list exactly where
the relation between the tasks is as good as transitive. -/
namespace Suixinji.Retrieval
open Suixinji.Ranking Suixinji.Grouping

variable {F κ : Type} [LinearOrder κ]

def Chain (same : MemoryRecord F → MemoryRecord F → Bool) (ranked : List (Item F)) : Item F → Item F → Prop :=
  Linked (nearness same) (tasks ranked)

/-- Nothing linked to the task has more authority. -/
def Leads (p : Precedence F κ) (same : MemoryRecord F → MemoryRecord F → Bool) (ranked : List (Item F)) (i : Item F) : Prop :=
  ∀ j, Chain same ranked i j → p.key j.memory ≤ p.key i.memory

/-- Where two linked tasks do not pass for the same, the dispute is above both of them;
and no task is linked but unlike two that pass for the same. -/
structure Settled (p : Precedence F κ) (differ : Item F → Item F → Prop) (same : MemoryRecord F → MemoryRecord F → Bool)
    (ranked : List (Item F)) : Prop where
  disputed : ∀ i ∈ tasks ranked, ∀ j ∈ tasks ranked, Chain same ranked i j → i ≠ j → same i.memory j.memory = false →
    ¬Leads p same ranked i ∧ ¬Leads p same ranked j ∧ ∃ k l, Chain same ranked i k ∧ Chain same ranked i l ∧
      Leads p same ranked k ∧ Leads p same ranked l ∧ differ k l
  covered : ∀ a ∈ tasks ranked, ∀ c ∈ tasks ranked, ∀ d ∈ tasks ranked, Chain same ranked a c → Chain same ranked a d →
    a ≠ c → a ≠ d → c ≠ d → same c.memory d.memory → same c.memory a.memory ∨ same d.memory a.memory

def StatusDiffers (i j : Item F) : Prop := i.memory.taskStatus.getD "" ≠ j.memory.taskStatus.getD ""

theorem one_lt_length {α : Type} {xs : List α} {a b : α} (first : a ∈ xs) (second : b ∈ xs) (other : a ≠ b) :
    1 < xs.length := by
  rcases xs with _ | ⟨c,_ | ⟨d,xs⟩⟩
  · cases first
  · exact absurd ((List.mem_singleton.mp first).trans (List.mem_singleton.mp second).symm) other
  · simp

theorem one_lt_length_dedup {α β : Type} [DecidableEq β] (f : α → β) (xs : List α) :
    1 < (xs.map f).dedup.length ↔ ∃ a ∈ xs, ∃ b ∈ xs, f a ≠ f b := by
  constructor
  · intro long
    obtain ⟨x,y,rest,two⟩ : ∃ x y rest, (xs.map f).dedup = x :: y :: rest := by
      match h : (xs.map f).dedup with
      | [] | [_] => simp [h] at long
      | x :: y :: rest => exact ⟨x,y,rest,rfl⟩
    have once := (xs.map f).nodup_dedup
    rw [two] at once
    obtain ⟨a,first,rfl⟩ := List.mem_map.mp (List.mem_dedup.mp (two ▸ List.mem_cons_self : x ∈ (xs.map f).dedup))
    obtain ⟨b,second,rfl⟩ := List.mem_map.mp (List.mem_dedup.mp (two ▸ by simp : y ∈ (xs.map f).dedup))
    exact ⟨a,first,b,second,fun equal => (List.nodup_cons.mp once).1 (by simp [equal])⟩
  · rintro ⟨a,first,b,second,other⟩
    exact one_lt_length (List.mem_dedup.mpr (List.mem_map_of_mem first)) (List.mem_dedup.mpr (List.mem_map_of_mem second)) other

section

variable [LinearOrder F] [Zero F]

theorem lawful_current (r : Reading F) : Lawful (currentPrecedence r) StatusDiffers where
  contested leaders _ _ := by
    simp only [currentPrecedence,Bool.and_eq_true,decide_eq_true_eq,one_lt_length_dedup]
    refine ⟨And.right,fun apart => ⟨?_,apart⟩⟩
    obtain ⟨i,first,j,second,differs⟩ := apart
    exact one_lt_length first second (fun equal => differs (by rw [equal]))
  irrefl _ differs := differs rfl
  winner leaders some := by
    cases found : greatest (byThen Item.score (less (·.memory.id))) leaders with
    | none => exact absurd (greatest_eq_none.mp found) some
    | some w => exact ⟨w,greatest_mem found,found⟩
  perm leaders leaders' perm once _ := by
    refine greatest_eq_of_perm (m := fun i : Item F => toLex (i.score,i.memory.id)) (fun a b => ?_) perm ?_
    · simp only [byThen,less,Prod.Lex.toLex_lt_toLex,Bool.or_eq_true,Bool.and_eq_true,decide_eq_true_eq]
    · intro a first b second equal
      exact List.inj_on_of_nodup_map once first second (congrArg (fun k => (ofLex k).2) equal)
  text a b same := by cases a <;> cases b <;> first | rfl | simp [currentPrecedence] at same

theorem lawful_history (r : Reading F) : Lawful (historyPrecedence r) (· ≠ ·) where
  contested leaders once some := by
    simp only [historyPrecedence,decide_eq_true_eq]
    obtain ⟨i,rest,rfl⟩ := List.exists_cons_of_ne_nil some
    constructor
    · intro several
      obtain ⟨j,rest,rfl⟩ := List.exists_cons_of_ne_nil (l := rest) (by rintro rfl; exact several rfl)
      exact ⟨i,by simp,j,by simp,fun equal => (List.nodup_cons.mp once).1 (by simp [equal])⟩
    · rintro ⟨a,first,b,second,other⟩ single
      have long := one_lt_length first second other
      omega
  irrefl _ differs := differs rfl
  winner leaders some := by
    obtain ⟨w,rest,rfl⟩ := List.exists_cons_of_ne_nil some
    exact ⟨w,List.mem_cons_self,rfl⟩
  perm leaders leaders' perm _ single := by
    obtain ⟨w,rfl⟩ := List.length_eq_one_iff.mp (by simpa [historyPrecedence] using single : leaders.length = 1)
    rw [List.singleton_perm.mp perm]
  text a b same := by cases a <;> cases b <;> first | rfl | simp [historyPrecedence] at same

end

section Orders

variable {p : Precedence F κ} {differ : Item F → Item F → Prop}
  {same : MemoryRecord F → MemoryRecord F → Bool} {ranked other : List (Item F)} {g : List (Item F)} {i j : Item F}

theorem grouped_tasks (same : MemoryRecord F → MemoryRecord F → Bool) (perm : ranked.Perm other) :
    Grouped (nearness same) (taskInstanceGroups same other) (tasks ranked) :=
  (grouped_groupsOf _).of_perm (perm.filter _)

theorem tasks_once (once : (ranked.map (·.memory.id)).Nodup) : ((tasks ranked).map (·.memory.id)).Nodup :=
  once.sublist (List.filter_sublist.map _)

theorem group_once (once : (ranked.map (·.memory.id)).Nodup) (perm : ranked.Perm other)
    (member : g ∈ taskInstanceGroups same other) : (g.map (·.memory.id)).Nodup := by
  have whole := ((grouped_tasks same perm).perm.map (·.memory.id)).nodup_iff.mpr (tasks_once once)
  exact whole.sublist ((List.sublist_flatten_of_mem member).map _)

theorem exists_order (same : MemoryRecord F → MemoryRecord F → Bool) {ys : List (Item F)} (perm : (tasks ranked).Perm ys) :
    ∃ other, ranked.Perm other ∧ taskInstanceGroups same other = groupsOf (nearness same) ys := by
  refine ⟨ys ++ ranked.filter (fun i => !decide (i.memory.memoryType = "task")),?_,?_⟩
  · exact (List.filter_append_perm _ ranked).symm.trans (perm.append_right _)
  · have all : ys.filter (·.memory.memoryType = "task") = ys := by
      refine List.filter_eq_self.mpr (fun i held => ?_)
      exact (List.mem_filter.mp (perm.mem_iff.mpr held)).2
    have none : (ranked.filter (fun i => !decide (i.memory.memoryType = "task"))).filter (·.memory.memoryType = "task") = [] := by
      simp [List.filter_filter]
    rw [taskInstanceGroups,List.filter_append,all,none,List.append_nil]
    rfl

theorem Chain.task (chain : Chain same ranked i j) (task : i ∈ tasks ranked) : j ∈ tasks ranked := by
  cases chain with
  | refl => exact task
  | tail _ step => exact step.2.2

theorem Leads.of_le {k : Item F} (leads : Leads p same ranked k)
    (chain : Chain same ranked k i) (above : p.key k.memory ≤ p.key i.memory) : Leads p same ranked i :=
  fun j further => (leads j (chain.trans further)).trans above

theorem mem_leadersOf_of_leads (perm : ranked.Perm other) (symmetric : ∀ a b, same a b = same b a)
    (member : g ∈ taskInstanceGroups same other) (inside : i ∈ g) (leads : Leads p same ranked i) : i ∈ leadersOf p g :=
  mem_leadersOf.mpr ⟨inside,fun j held =>
    leads j ((grouped_tasks same perm).linked (fun a b => symmetric a.memory b.memory) member inside held)⟩

variable [LinearOrder F] [Zero F] [One F] [Add F] [Sub F] {r : Reading F}

def verdicts (r : Reading F) (p : Precedence F κ) (same : MemoryRecord F → MemoryRecord F → Bool) (ranked : List (Item F))
    (i : Item F) : List Verdict := (notesOf r p (taskInstanceGroups same ranked) i.memory.id).map Note.verdict

/-- For every order of the list every memory gets the same score and the same reasons,
and of linked tasks at most one is held to be right. -/
def OrderFree (r : Reading F) (p : Precedence F κ) (same : MemoryRecord F → MemoryRecord F → Bool) (ranked : List (Item F)) :
    Prop :=
  ∀ other, ranked.Perm other → (applyPrecedence r p same other).Perm (applyPrecedence r p same ranked) ∧
    ∀ i ∈ tasks ranked, ∀ j ∈ tasks ranked, Chain same ranked i j → .authoritative ∈ verdicts r p same other i →
      .authoritative ∈ verdicts r p same other j → i = j

theorem notes_eq (once : (ranked.map (·.memory.id)).Nodup) (perm : ranked.Perm other)
    (member : g ∈ taskInstanceGroups same other) (inside : i ∈ g) :
    notesOf r p (taskInstanceGroups same other) i.memory.id = (groupNotes r p g).filter (·.id = i.memory.id) :=
  notesOf_eq (((grouped_tasks same perm).perm.map (·.memory.id)).nodup_iff.mpr (tasks_once once)) member inside

theorem verdicts_eq (once : (ranked.map (·.memory.id)).Nodup) (perm : ranked.Perm other)
    (member : g ∈ taskInstanceGroups same other) (inside : i ∈ g) :
    verdicts r p same other i = groupVerdicts r p g i := by
  rw [verdicts,notes_eq once perm member inside]
  rfl

theorem notes_none (once : (ranked.map (·.memory.id)).Nodup) (perm : ranked.Perm other) (listed : i ∈ ranked)
    (unlike : i ∉ tasks ranked) : notesOf r p (taskInstanceGroups same other) i.memory.id = [] := by
  refine notesOf_free (fun j held own => unlike ?_)
  have task := (grouped_tasks same perm).perm.mem_iff.mp held
  rwa [← List.inj_on_of_nodup_map once (List.mem_of_mem_filter task) listed own]

section Enough

variable (lawful : Lawful p differ) (once : (ranked.map (·.memory.id)).Nodup) (symmetric : ∀ a b, same a b = same b a)
  (settled : Settled p differ same ranked) (perm : ranked.Perm other)

include settled in
omit [LinearOrder F] [Zero F] [One F] [Add F] [Sub F] in
theorem central_of_leads {k : Item F} (task : k ∈ tasks ranked) (leads : Leads p same ranked k) :
    Central (nearness same) (tasks ranked) k := by
  intro y chain different
  by_contra far
  have unlike : same k.memory y.memory = false := by simpa [nearness] using far
  exact (settled.disputed k task y (Chain.task chain task) chain different.symm unlike).1 leads

include lawful once symmetric settled perm in
theorem notes_of_dispute {k l : Item F} (toFirst : Chain same ranked i k) (toSecond : Chain same ranked i l)
    (first : Leads p same ranked k) (second : Leads p same ranked l) (apart : differ k l) (task : i ∈ tasks ranked) :
    (Leads p same ranked i → notesOf r p (taskInstanceGroups same other) i.memory.id = [⟨i.memory.id,none,.ambiguous⟩]) ∧
      (¬Leads p same ranked i → notesOf r p (taskInstanceGroups same other) i.memory.id = []) := by
  have turn : ∀ a b, nearness same a b = nearness same b a := fun a b => symmetric a.memory b.memory
  have grouped := grouped_tasks same perm
  have whole : (tasks ranked).Nodup := (tasks_once once).of_map
  have central := central_of_leads settled (toFirst.task task) first
  obtain ⟨h,memberh,here⟩ := grouped.exists_group (toFirst.task task)
  obtain ⟨h',memberh',there⟩ := grouped.exists_group (toSecond.task task)
  obtain rfl : h' = h := grouped.eq_of_central turn whole memberh memberh' here there ((toFirst.symm turn).trans toSecond)
    central (central_of_leads settled (toSecond.task task) second)
  have oneh := group_once once perm memberh
  have lead := mem_leadersOf_of_leads perm symmetric memberh here first
  have contested : p.contested (leadersOf p h') = true := by
    refine (lawful.contested _ (oneh.of_map.sublist List.filter_sublist) (List.ne_nil_of_mem lead)).mpr ⟨k,lead,l,?_,apart⟩
    exact mem_leadersOf_of_leads perm symmetric memberh there second
  have long : 1 < h'.length := one_lt_length here there (fun equal => lawful.irrefl k (equal ▸ apart))
  obtain ⟨g,member,inside⟩ := grouped.exists_group task
  constructor
  · intro leads
    obtain rfl : g = h' := grouped.eq_of_central turn whole memberh member here inside (toFirst.symm turn) central
      (central_of_leads settled task leads)
    rw [notes_eq once perm member inside]
    exact (filter_contested oneh long contested inside).1 (mem_leadersOf_of_leads perm symmetric member inside leads)
  · intro trails
    rw [notes_eq once perm member inside]
    by_cases short : g.length ≤ 1
    · rw [groupNotes_short short]
      rfl
    · obtain rfl : g = h' := by
        refine grouped.eq_of_long turn whole memberh member here inside (toFirst.symm turn) central (by omega) ?_
        intro a c d toA toC toD otherC otherD apart close
        have fromA := Linked.symm turn toA
        have known := toFirst.task task
        exact settled.covered a (Chain.task toA known) c (Chain.task toC known) d (Chain.task toD known) (fromA.trans toC)
          (fromA.trans toD) otherC.symm otherD.symm apart (by rw [symmetric]; exact close)
      refine (filter_contested oneh long contested inside).2 (fun leader => trails ?_)
      exact first.of_le (toFirst.symm turn) ((mem_leadersOf.mp leader).2 k here)

include lawful once symmetric settled perm in
theorem notes_settled (task : i ∈ tasks ranked) :
    notesOf r p (taskInstanceGroups same other) i.memory.id = notesOf r p (taskInstanceGroups same ranked) i.memory.id := by
  have turn : ∀ a b, nearness same a b = nearness same b a := fun a b => symmetric a.memory b.memory
  have whole : (tasks ranked).Nodup := (tasks_once once).of_map
  by_cases complete : ∀ a b, Chain same ranked i a → Chain same ranked i b → a ≠ b → nearness same a b
  · obtain ⟨g,member,inside⟩ := (grouped_tasks same perm).exists_group task
    obtain ⟨h,member',inside'⟩ := (grouped_tasks same (.refl ranked)).exists_group task
    have agree : g.Perm h := by
      rw [List.perm_ext_iff_of_nodup (group_once once perm member).of_map (group_once once (.refl _) member').of_map]
      intro y
      rw [(grouped_tasks same perm).mem_iff_of_complete turn whole member inside complete,
        (grouped_tasks same (.refl ranked)).mem_iff_of_complete turn whole member' inside' complete]
    rw [notes_eq once perm member inside,notes_eq once (.refl _) member' inside',
      groupNotes_eq_of_perm lawful (group_once once perm member) agree]
  · push Not at complete
    obtain ⟨a,b,toA,toB,apart,far⟩ := complete
    obtain ⟨_,_,k,l,toFirst,toSecond,first,second,differs⟩ := settled.disputed a (toA.task task) b (toB.task task)
      ((Linked.symm turn toA).trans toB) apart (by simpa [nearness] using far)
    have here := notes_of_dispute (r := r) lawful once symmetric settled perm (toA.trans toFirst) (toA.trans toSecond) first second
      differs task
    have there := notes_of_dispute (r := r) lawful once symmetric settled (.refl _) (toA.trans toFirst) (toA.trans toSecond) first
      second differs task
    by_cases leads : Leads p same ranked i
    · rw [here.1 leads,there.1 leads]
    · rw [here.2 leads,there.2 leads]

include lawful once symmetric settled perm in
theorem unique_of_settled (task : i ∈ tasks ranked) (chain : Chain same ranked i j)
    (first : .authoritative ∈ verdicts r p same other i) (second : .authoritative ∈ verdicts r p same other j) : i = j := by
  have turn : ∀ a b, nearness same a b = nearness same b a := fun a b => symmetric a.memory b.memory
  have whole : (tasks ranked).Nodup := (tasks_once once).of_map
  obtain ⟨g,member,inside⟩ := (grouped_tasks same perm).exists_group task
  by_cases complete : ∀ a b, Chain same ranked i a → Chain same ranked i b → a ≠ b → nearness same a b
  · have inside' := ((grouped_tasks same perm).mem_iff_of_complete turn whole member inside complete j).mpr chain
    rw [verdicts_eq once perm member inside] at first
    rw [verdicts_eq once perm member inside'] at second
    exact authoritative_unique lawful (group_once once perm member) inside inside' first second
  · push Not at complete
    obtain ⟨a,b,toA,toB,apart,far⟩ := complete
    obtain ⟨_,_,k,l,toFirst,toSecond,leads,leads',differs⟩ := settled.disputed a (toA.task task) b (toB.task task)
      ((Linked.symm turn toA).trans toB) apart (by simpa [nearness] using far)
    obtain ⟨marked,unmarked⟩ := notes_of_dispute (r := r) lawful once symmetric settled perm (toA.trans toFirst)
      (toA.trans toSecond) leads leads' differs task
    rw [verdicts] at first
    by_cases leader : Leads p same ranked i
    · simp [marked leader] at first
    · simp [unmarked leader] at first

include lawful once symmetric settled in
theorem orderFree_of_settled : OrderFree r p same ranked := by
  intro other perm
  refine ⟨?_,fun i task j _ chain => unique_of_settled lawful once symmetric settled perm task chain⟩
  refine (perm.symm.map _).trans (List.Perm.of_eq (List.map_congr_left (fun i listed => ?_)))
  by_cases task : i ∈ tasks ranked
  · rw [notes_settled lawful once symmetric settled perm task]
  · rw [notes_none once perm listed task,notes_none once (.refl _) listed task]

end Enough

section Needed

variable (lawful : Lawful p differ) (once : (ranked.map (·.memory.id)).Nodup) (symmetric : ∀ a b, same a b = same b a)
  (free : OrderFree r p same ranked)

include lawful once free in
theorem verdicts_free (perm : ranked.Perm other) (listed : i ∈ ranked) :
    verdicts r p same other i = verdicts r p same ranked i := by
  have given : settle r p (notesOf r p (taskInstanceGroups same other) i.memory.id) i ∈ applyPrecedence r p same ranked :=
    (free other perm).1.mem_iff.mp (List.mem_map_of_mem (perm.mem_iff.mp listed))
  obtain ⟨j,listed',equal⟩ := List.mem_map.mp given
  have own : j.memory = i.memory := (congrArg Item.memory equal :)
  obtain rfl : j = i := List.inj_on_of_nodup_map once listed' listed (congrArg MemoryRecord.id own)
  have reasons := congrArg (fun i : Item F => i.hit.reasons) equal
  have texts : (verdicts r p same ranked j).map p.text = (verdicts r p same other j).map p.text := by
    rw [verdicts,verdicts,List.map_map,List.map_map]
    exact List.append_cancel_left reasons
  exact (lawful.text.list_map texts).symm

include lawful once free in
theorem verdicts_of_groups {other' : List (Item F)} (perm : ranked.Perm other) (perm' : ranked.Perm other') {h : List (Item F)}
    (member : g ∈ taskInstanceGroups same other) (member' : h ∈ taskInstanceGroups same other') (inside : i ∈ g)
    (inside' : i ∈ h) : groupVerdicts r p g i = groupVerdicts r p h i := by
  have task := (grouped_tasks same perm).perm.mem_iff.mp (List.mem_flatten.mpr ⟨g,member,inside⟩)
  have listed : i ∈ ranked := List.mem_of_mem_filter task
  rw [← verdicts_eq once perm member inside,← verdicts_eq once perm' member' inside',
    verdicts_free lawful once free perm listed,verdicts_free lawful once free perm' listed]

include lawful once symmetric free in
/-- Where two linked tasks do not pass for the same, all that is linked to them, taken as
one group, is in dispute. -/
theorem exists_dispute (task : i ∈ tasks ranked) (chain : Chain same ranked i j) (different : i ≠ j)
    (unlike : same i.memory j.memory = false) :
    ∃ other, ranked.Perm other ∧ ∃ g ∈ taskInstanceGroups same other, (∀ y, y ∈ g ↔ Chain same ranked i y) ∧
      1 < g.length ∧ p.contested (leadersOf p g) = true := by
  have turn : ∀ a b, nearness same a b = nearness same b a := fun a b => symmetric a.memory b.memory
  obtain ⟨ys,perm,g,member,all⟩ := exists_component turn task
  obtain ⟨other,perm,groups⟩ := exists_order same perm
  rw [← groups] at member
  have inside : i ∈ g := (all i).mpr .refl
  have inside' : j ∈ g := (all j).mpr chain
  have long := one_lt_length inside inside' different
  refine ⟨other,perm,g,member,all,long,?_⟩
  by_contra settled
  rw [Bool.not_eq_true] at settled
  obtain ⟨w,leads,_,decided⟩ := groupNotes_decided (r := r) lawful (group_once once perm member) long settled
  -- a group with one of the two but without the winner gives other verdicts
  have lonely : ∀ other' h, ranked.Perm other' → h ∈ taskInstanceGroups same other' → (∃ z ∈ h, z ∈ g) → w ∉ h → False := by
    intro other' h perm' member' meets absent
    obtain ⟨z,held,known⟩ := meets
    by_cases short : h.length ≤ 1
    · have agree := verdicts_of_groups lawful once free perm perm' member member' known held
      rw [decided z known,groupVerdicts,groupNotes_short short] at agree
      cases agree
    · obtain ⟨v,held',marked⟩ := exists_marked r lawful (group_once once perm' member') (by omega)
      have known' : v ∈ g :=
        (all v).mpr (((all z).mp known).trans ((grouped_tasks same perm').linked turn member' held held'))
      rw [← verdicts_of_groups lawful once free perm perm' member member' known' held',decided v known',
        if_neg (fun won : v = w => absent (won ▸ held'))] at marked
      rcases marked with marked | marked <;> cases marked
  have far : nearness same j i = false := by rw [turn]; exact unlike
  obtain ⟨ys,perm',h,h',gs,split,first,second⟩ :=
    exists_apart task (Chain.task chain task) different far
  obtain ⟨other',perm',groups'⟩ := exists_order same perm'
  rw [← groups'] at split
  have disjoint : h.Disjoint h' := by
    have whole := (grouped_tasks same perm').perm.nodup_iff.mpr (tasks_once once).of_map
    rw [split,List.nodup_flatten,List.pairwise_cons] at whole
    exact whole.2.1 h' List.mem_cons_self
  by_cases held : w ∈ h
  · exact lonely other' h' perm' (by rw [split]; simp) ⟨j,second,inside'⟩ (fun also => disjoint held also)
  · exact lonely other' h perm' (by rw [split]; simp) ⟨i,first,inside⟩ held

include lawful once symmetric free in
/-- Of two linked tasks that do not pass for the same, neither has the most authority: some order
leaves a group with one leader only. -/
theorem not_leads (task : i ∈ tasks ranked) (chain : Chain same ranked i j) (different : i ≠ j)
    (unlike : same i.memory j.memory = false) : ¬Leads p same ranked i := by
  intro leads
  have turn : ∀ a b, nearness same a b = nearness same b a := fun a b => symmetric a.memory b.memory
  obtain ⟨other,perm,g,member,all,long,contested⟩ := exists_dispute lawful once symmetric free task chain different unlike
  have back := Linked.symm turn chain
  obtain ⟨ys,perm',h,member',l,inside,reached,lead,single⟩ :=
    exists_alone turn (tasks_once once).of_map (Chain.task chain task) back different unlike (p := Leads p same ranked) leads
  obtain ⟨other',perm',groups⟩ := exists_order same perm'
  rw [← groups] at member'
  have known : l ∈ g := (all l).mpr (chain.trans reached)
  have agree := verdicts_of_groups lawful once free perm perm' member member' known inside
  have marked := (groupVerdicts_contested (r := r) (group_once once perm member) long contested known).1
    (mem_leadersOf_of_leads perm symmetric member known lead)
  rw [marked] at agree
  have once' := group_once once perm' member'
  have alone : ∀ k ∈ leadersOf p h, k = l := by
    intro k leader
    have linked := (grouped_tasks same perm').linked turn member' inside (mem_leadersOf.mp leader).1
    exact single k (mem_leadersOf.mp leader).1 (lead.of_le linked ((mem_leadersOf.mp leader).2 l inside))
  by_cases short : h.length ≤ 1
  · rw [groupVerdicts,groupNotes_short short] at agree
    cases agree
  · cases contested' : p.contested (leadersOf p h) with
    | true =>
      have some := List.ne_nil_of_mem (mem_leadersOf_of_leads perm' symmetric member' inside lead)
      obtain ⟨k,first,k',second,differs⟩ :=
        (lawful.contested _ (once'.of_map.sublist List.filter_sublist) some).mp contested'
      rw [alone k first,alone k' second] at differs
      exact lawful.irrefl l differs
    | false =>
      obtain ⟨w,leader,_,decided⟩ := groupNotes_decided (r := r) lawful once' (by omega) contested'
      rw [decided l inside,alone w leader,if_pos rfl] at agree
      cases agree

include lawful once symmetric free in
theorem settled_of_orderFree : Settled p differ same ranked := by
  have turn : ∀ a b, nearness same a b = nearness same b a := fun a b => symmetric a.memory b.memory
  constructor
  · intro i task j task' chain different unlike
    refine ⟨not_leads lawful once symmetric free task chain different unlike,?_,?_⟩
    · exact not_leads lawful once symmetric free task' (Linked.symm turn chain) different.symm (by rwa [symmetric])
    obtain ⟨other,perm,g,member,all,long,contested⟩ := exists_dispute lawful once symmetric free task chain different unlike
    have first : ∀ k ∈ leadersOf p g, Chain same ranked i k ∧ Leads p same ranked k := by
      intro k leader
      obtain ⟨held,best⟩ := mem_leadersOf.mp leader
      have reached := (all k).mp held
      exact ⟨reached,fun y further => best y ((all y).mpr (reached.trans further))⟩
    have some : leadersOf p g ≠ [] := leadersOf_ne_nil (fun none => by simp [none] at long)
    obtain ⟨k,leader,l,leader',differs⟩ :=
      (lawful.contested _ ((group_once once perm member).of_map.sublist List.filter_sublist) some).mp contested
    exact ⟨k,l,(first k leader).1,(first l leader').1,(first k leader).2,(first l leader').2,differs⟩
  · intro a taska c taskc d taskd toC toD otherC otherD apart close
    by_contra unlike
    rw [not_or,Bool.not_eq_true,Bool.not_eq_true] at unlike
    obtain ⟨farC,farD⟩ := unlike
    obtain ⟨other,perm,g,member,all,long,contested⟩ :=
      exists_dispute lawful once symmetric free taska toC otherC (by rwa [symmetric])
    -- with the first task ahead, the two others are left without any leader
    obtain ⟨ys,perm',h,member',heldC,heldD,free'⟩ := exists_pair (nearness same) (by simp [taska,taskc,taskd] : ∀ x ∈ [a,c,d], x ∈ tasks ranked)
      (by simp [otherC,otherD,apart]) (tasks_once once).of_map farC farD (by rw [turn]; exact close)
    obtain ⟨other',perm',groups⟩ := exists_order same perm'
    rw [← groups] at member'
    obtain ⟨v,held,marked⟩ :=
      exists_marked r lawful (group_once once perm' member') (one_lt_length heldC heldD apart)
    obtain ⟨otherV,farV⟩ := free' v held
    have toV := toC.trans ((grouped_tasks same perm').linked turn member' heldC held)
    have trails : ¬Leads p same ranked v := not_leads lawful once symmetric free (Chain.task toV taska)
      (Linked.symm turn toV) otherV farV
    have known : v ∈ g := (all v).mpr toV
    have unmarked := (groupVerdicts_contested (r := r) (group_once once perm member) long contested known).2
      (fun leader => trails (fun y further => (mem_leadersOf.mp leader).2 y ((all y).mpr (toV.trans further))))
    rw [← verdicts_of_groups lawful once free perm perm' member member' known held,unmarked] at marked
    rcases marked with marked | marked <;> cases marked

end Needed

end Orders

variable [LinearOrder F] [Zero F] [One F] [Add F] [Sub F]

/-- The scores and reasons do not depend on the order of the list, and linked tasks are not both
held to be right, exactly where all linked tasks pass for the same, or else the dispute is above
those that do not and no task is unlike two that do. -/
theorem task_precedence_order_free (r : Reading F) (same : MemoryRecord F → MemoryRecord F → Bool)
    (symmetric : ∀ a b, same a b = same b a) (ranked : List (Item F)) (once : (ranked.map (·.memory.id)).Nodup) :
    (OrderFree r (currentPrecedence r) same ranked ∧ OrderFree r (historyPrecedence r) same ranked) ↔
      (Settled (currentPrecedence r) StatusDiffers same ranked ∧ Settled (historyPrecedence r) (· ≠ ·) same ranked) :=
  and_congr
    ⟨settled_of_orderFree (lawful_current r) once symmetric,orderFree_of_settled (lawful_current r) once symmetric⟩
    ⟨settled_of_orderFree (lawful_history r) once symmetric,orderFree_of_settled (lawful_history r) once symmetric⟩

/-- Exact numbers, and a clock at 100. -/
def exact : Reading ℚ := ⟨id,some 100,1/50,roundTo 4⟩

def task (id : String) (version : ℤ) (score : ℚ) : Item ℚ :=
  ⟨{ id,currentVersion := version,updatedAt := some 1 },score,{ finalScore := score }⟩

theorem task_precedence_order_free_twins :
    OrderFree exact (currentPrecedence exact) (fun _ _ => true) [task "a" 2 (1/2),task "b" 1 (3/4)] ∧
      OrderFree exact (historyPrecedence exact) (fun _ _ => true) [task "a" 2 (1/2),task "b" 1 (3/4)] :=
  (task_precedence_order_free exact _ (fun _ _ => rfl) _ (by decide)).mpr
    ⟨⟨fun _ _ _ _ _ _ unlike => absurd unlike (by simp),fun _ _ _ _ _ _ _ _ _ _ _ _ => .inl rfl⟩,
      ⟨fun _ _ _ _ _ _ unlike => absurd unlike (by simp),fun _ _ _ _ _ _ _ _ _ _ _ _ => .inl rfl⟩⟩

/-- Four tasks, each like the next: taken in order they are one group, and from the two ends
they are two, each with a winner. -/
def ladder : List (Item ℚ) := [task "a" 4 (1/2),task "b" 2 (1/2),task "c" 1 (1/2),task "d" 3 (1/2)]

def ladderFromEnds : List (Item ℚ) := [task "a" 4 (1/2),task "d" 3 (1/2),task "c" 1 (1/2),task "b" 2 (1/2)]

def consecutive (m n : MemoryRecord ℚ) : Bool :=
  [("a","b"),("b","a"),("b","c"),("c","b"),("c","d"),("d","c")].contains (m.id,n.id)

theorem ladder_order_matters :
    (¬OrderFree exact (currentPrecedence exact) consecutive ladder ∧
      ∀ i ∈ [task "a" 4 (1/2),task "d" 3 (1/2)], .authoritative ∈ verdicts exact (currentPrecedence exact) consecutive ladderFromEnds i) ∧
    ¬OrderFree exact (historyPrecedence exact) consecutive ladder ∧
      ∀ i ∈ [task "a" 4 (1/2),task "d" 3 (1/2)], .authoritative ∈ verdicts exact (historyPrecedence exact) consecutive ladderFromEnds i := by
  have perm : ladder.Perm ladderFromEnds := by decide +kernel
  refine ⟨⟨fun free => ?_,by decide +kernel⟩,fun free => ?_,by decide +kernel⟩
  · exact absurd (free ladderFromEnds perm).1 (by decide +kernel)
  · exact absurd (free ladderFromEnds perm).1 (by decide +kernel)

end Suixinji.Retrieval
