import Mathlib.Algebra.GroupWithZero.Nat
import Mathlib.Algebra.BigOperators.Group.List.Basic
import Mathlib.Data.List.Infix

/-! A text in pieces: elements that are still there, and parts that are gone with a mark in the
place of each. Marks are fenced, so that what is on the sides of a mark is read apart. -/
namespace Suixinji.Redact

variable {α β : Type}

/-- The fences of marks, and what can stand beside them inside of a mark. -/
structure Fence (α : Type) where
  opening : α
  closing : α
  first : List α
  last : List α
  opens : opening ∈ first
  closes : closing ∈ last

variable {e : Fence α}

/-- A mark is something between the fences. -/
structure Fence.Marks (e : Fence α) (m : List α) : Prop where
  fenced : ∃ mid, m = e.opening::(mid ++ [e.closing]) ∧ (∃ a ∈ mid.head?, a ∈ e.first) ∧ ∃ b ∈ mid.getLast?, b ∈ e.last

theorem Fence.Marks.ne_nil {m : List α} (marks : e.Marks m) : m ≠ [] := by
  obtain ⟨_,rfl,_⟩ := marks.fenced
  exact List.cons_ne_nil _ _

section
variable [DecidableEq α]

/-- Whether each opening is before something that no mark begins with, and each closing behind
something that no mark ends with; `prev` is what stands before the pattern. -/
def Fence.apart (e : Fence α) : Option α → List α → Bool
  | _,[] => true
  | prev,a::rest =>
    (a ≠ e.opening || rest.head?.any (· ∉ e.first)) && (a ≠ e.closing || prev.any (· ∉ e.last)) && e.apart (some a) rest

/-- A pattern of which no occurrence reaches over the fence of a mark. -/
def Fence.Clear (e : Fence α) (p : List α) : Prop := p ≠ [] ∧ e.apart none p

instance {p : List α} : Decidable (e.Clear p) := inferInstanceAs (Decidable (_ ∧ _))

theorem apart_opening {prev : Option α} {before after : List α} (apart : e.apart prev (before ++ e.opening::after)) :
    ∃ a ∈ after.head?, a ∉ e.first := by
  induction before generalizing prev with
  | nil =>
    simp only [List.nil_append,Fence.apart,Bool.and_eq_true,Bool.or_eq_true,decide_eq_true_eq,ne_eq,not_true_eq_false,false_or] at apart
    obtain ⟨⟨next,-⟩,-⟩ := apart
    cases head : after.head? with
    | none => simp [head] at next
    | some a => exact ⟨a,rfl,by simpa [head] using next⟩
  | cons b before ih => exact ih (Bool.and_eq_true_iff.mp apart).2

theorem apart_closing {prev : Option α} {before after : List α} (apart : e.apart prev (before ++ e.closing::after)) :
    ∃ b ∈ before.getLast?.or prev, b ∉ e.last := by
  induction before generalizing prev with
  | nil =>
    simp only [List.nil_append,Fence.apart,Bool.and_eq_true,Bool.or_eq_true,decide_eq_true_eq,ne_eq,not_true_eq_false,false_or] at apart
    obtain ⟨⟨-,before⟩,-⟩ := apart
    cases last : prev with
    | none => simp [last] at before
    | some b => exact ⟨b,rfl,by simpa [last] using before⟩
  | cons c before ih =>
    obtain ⟨b,there,other⟩ := ih (Bool.and_eq_true_iff.mp apart).2
    refine ⟨b,?_,other⟩
    cases before with
    | nil => exact there
    | cons d before =>
      rw [List.getLast?_cons_cons]
      cases last : (d::before).getLast? with
      | none => exact absurd (List.getLast?_eq_none_iff.mp last) (List.cons_ne_nil d before)
      | some f => rwa [last] at there

/-- No occurrence of a clear pattern reaches over the end of a mark. -/
theorem prefix_append_closing {p k tail : List α} (clear : e.Clear p) (ends : ∀ b ∈ k.getLast?, b ∈ e.last) :
    p <+: k ++ e.closing::tail ↔ p <+: k := by
  refine ⟨fun there => ?_,fun there => there.trans (List.prefix_append _ _)⟩
  rcases List.prefix_or_prefix_of_prefix there (List.prefix_append k (e.closing::tail)) with short | ⟨rest,rfl⟩
  · exact short
  · cases rest with
    | nil => rw [List.append_nil]
    | cons b rest =>
      obtain rfl := (List.cons_prefix_cons.mp ((List.prefix_append_right_inj k).mp there)).1
      obtain ⟨c,last,other⟩ := apart_closing clear.2
      rw [Option.or_none] at last
      exact absurd (ends c last) other

/-! ### Replacement -/

/-- From left to right, what starts with the pattern by the mark, among elements that are read as `f` says. The number is
of the elements that are left out as part of the occurrence before. -/
def replaceBy (f : β → α) (p : List α) (m : List β) : Nat → List β → List β
  | _,[] => []
  | k+1,_::rest => replaceBy f p m k rest
  | 0,b::rest => if p <+: (b::rest).map f then m ++ replaceBy f p m (p.length - 1) rest else b::replaceBy f p m 0 rest

/-- `text.replace(p, m)` of a pattern that is not empty. -/
def replaceAll (p m text : List α) : List α := replaceBy id p m 0 text

section
variable {f : β → α} {p : List α} {m : List β}

theorem replaceBy_map {γ : Type} {g : γ → β} {m text : List γ} {k : Nat} :
    replaceBy f p (m.map g) k (text.map g) = (replaceBy (f ∘ g) p m k text).map g := by
  induction text generalizing k with
  | nil => cases k <;> rfl
  | cons c rest ih => cases k with
    | succ k => exact ih
    | zero =>
      rw [List.map_cons,replaceBy,replaceBy,← List.map_cons,List.map_map]
      split
      · rw [List.map_append,ih]
      · rw [List.map_cons,ih]

/-- What is read of the result is the result of what is read. -/
theorem map_replaceBy {k : Nat} {text : List β} : (replaceBy f p m k text).map f = replaceBy id p (m.map f) k (text.map f) :=
  (replaceBy_map (f := id)).symm

theorem mem_replaceBy {k : Nat} {text : List β} {b : β} (there : b ∈ replaceBy f p m k text) : b ∈ m ∨ b ∈ text := by
  induction text generalizing k with
  | nil => cases k <;> cases there
  | cons c rest ih => cases k with
    | succ k => exact (ih there).imp_right (List.mem_cons_of_mem c)
    | zero =>
      rw [replaceBy] at there
      split at there
      · exact (List.mem_append.mp there).elim .inl (fun there => (ih there).imp_right (List.mem_cons_of_mem c))
      · rcases List.mem_cons.mp there with rfl | there
        · exact .inr List.mem_cons_self
        · exact (ih there).imp_right (List.mem_cons_of_mem c)

/-- What a mark has none of is kept in its order. -/
theorem filter_replaceBy {keep : β → Bool} (none : ∀ b ∈ m, ¬keep b) {k : Nat} {text : List β} :
    List.Sublist ((replaceBy f p m k text).filter keep) (text.filter keep) := by
  induction text generalizing k with
  | nil => cases k <;> exact List.Sublist.refl _
  | cons c rest ih =>
    have fewer : List.Sublist (rest.filter keep) ((c::rest).filter keep) := (List.sublist_cons_self c rest).filter keep
    cases k with
    | succ k => exact ih.trans fewer
    | zero =>
      rw [replaceBy]
      split
      · rw [List.filter_append,List.filter_eq_nil_iff.mpr none]
        exact ih.trans fewer
      · rw [List.filter_cons,List.filter_cons]
        split
        · exact ih.cons_cons c
        · exact ih

theorem replaceBy_eq_self {text : List β} (absent : ¬p <:+: text.map f) : replaceBy f p m 0 text = text := by
  induction text with
  | nil => rfl
  | cons c rest ih =>
    rw [List.map_cons] at absent
    rw [replaceBy,if_neg (fun there => absent (by simpa using there.isInfix)),ih (fun there => absent (there.trans (List.suffix_cons _ _).isInfix))]

/-- A pattern that occurs leaves its mark. -/
theorem infix_replaceBy {text : List β} (there : p <:+: text.map f) (some_text : p ≠ []) : m <:+: replaceBy f p m 0 text := by
  induction text with
  | nil => exact absurd (List.infix_nil.mp there) some_text
  | cons c rest ih =>
    rw [replaceBy]
    split
    · exact (List.prefix_append m _).isInfix
    · rename_i miss
      have further : p <:+: rest.map f := (List.infix_cons_iff.mp there).resolve_left miss
      exact (ih further).trans (List.suffix_cons _ _).isInfix

theorem replaceBy_append_closing {k tail : List β} {c : β} (closing : f c = e.closing) (clear : e.Clear p)
    (ends : ∀ b ∈ k.getLast?, f b ∈ e.last) {j : Nat} (inside : j ≤ k.length) :
    replaceBy f p m j (k ++ c::tail) = replaceBy f p m j k ++ c::replaceBy f p m 0 tail := by
  induction k generalizing j with
  | nil =>
    obtain rfl : j = 0 := Nat.le_zero.mp inside
    have none : ¬p <+: (c::tail).map f := fun there => by
      rw [List.map_cons,closing] at there
      exact clear.1 (List.prefix_nil.mp ((prefix_append_closing (k := []) clear (fun _ h => nomatch h)).mp there))
    change (if p <+: (c::tail).map f then _ else _) = _
    rw [if_neg none]
    rfl
  | cons a k ih =>
    have ends' : ∀ b ∈ k.getLast?, f b ∈ e.last := by
      intro b last
      cases k with
      | nil => cases last
      | cons d k => exact ends b (by rwa [List.getLast?_cons_cons])
    cases j with
    | succ j => exact ih ends' (Nat.le_of_succ_le_succ inside)
    | zero =>
      have here : p <+: (a::(k ++ c::tail)).map f ↔ p <+: (a::k).map f := by
        have apart : (a::(k ++ c::tail)).map f = (a::k).map f ++ e.closing::tail.map f := by
          rw [← List.cons_append,List.map_append,List.map_cons (l := tail),closing]
        rw [apart]
        refine prefix_append_closing clear (fun b last => ?_)
        rw [List.getLast?_map] at last
        obtain ⟨b,there,rfl⟩ := Option.map_eq_some_iff.mp last
        exact ends b there
      rw [List.cons_append,replaceBy,replaceBy]
      by_cases hit : p <+: (a::k).map f
      · have short : p.length - 1 ≤ k.length := by
          have := hit.length_le
          rw [List.length_map,List.length_cons] at this
          omega
        rw [if_pos (here.mpr hit),if_pos hit,ih ends' short,List.append_assoc]
      · rw [if_neg (mt here.mp hit),if_neg hit,ih ends' (Nat.zero_le _),List.cons_append]

theorem getLast?_replaceBy {j : Nat} {k : List β} {b : β} (some_mark : m ≠ []) (last : b ∈ (replaceBy f p m j k).getLast?) :
    b ∈ k.getLast? ∨ b ∈ m.getLast? := by
  induction k generalizing j with
  | nil => cases j <;> cases last
  | cons a k ih =>
    have further {j : Nat} (last : b ∈ (replaceBy f p m j k).getLast?) : b ∈ (a::k).getLast? ∨ b ∈ m.getLast? := by
      refine (ih last).imp_left (fun last => ?_)
      cases k with
      | nil => cases last
      | cons d k => rwa [List.getLast?_cons_cons]
    cases j with
    | succ j => exact further last
    | zero =>
      rw [replaceBy] at last
      split at last
      · rw [List.getLast?_append,Option.mem_def,Option.or_eq_some_iff] at last
        exact last.elim further (fun none => .inr none.2)
      · cases rest : replaceBy f p m 0 k with
        | nil =>
          cases k with
          | nil =>
            rw [rest] at last
            exact .inl last
          | cons d k =>
            rw [replaceBy] at rest
            split at rest
            · exact absurd (List.append_eq_nil_iff.mp rest).1 some_mark
            · cases rest
        | cons d more =>
          rw [rest,List.getLast?_cons_cons,← rest] at last
          exact further last

end

/-- A mark in which a pattern is replaced is still one. -/
theorem Fence.Marks.replaceAll {p m k : List α} (clear : e.Clear p) (marks : e.Marks m) (mark : e.Marks k) :
    e.Marks (replaceAll p m k) := by
  obtain ⟨mid,rfl,⟨a,head,first⟩,⟨b,last,ends⟩⟩ := mark.fenced
  obtain ⟨more,rfl⟩ : ∃ more, mid = a::more := by
    cases mid with
    | nil => cases head
    | cons a' more => exact ⟨more,congrArg (·::more) (Option.some.inj head)⟩
  have none : ¬p <+: (e.opening::(a::more ++ [e.closing])).map id := by
    rw [List.map_id]
    intro there
    rcases List.prefix_cons_iff.mp there with rfl | ⟨rest,rfl,further⟩
    · exact clear.1 rfl
    · have apart : e.apart none ([] ++ e.opening::rest) := clear.2
      obtain ⟨d,next,other⟩ := apart_opening apart
      cases rest with
      | nil => cases next
      | cons d' rest =>
        have : d' = d := Option.some.inj next
        exact other (this ▸ (List.cons_prefix_cons.mp further).1 ▸ first)
  have ends' : ∀ c ∈ (a::more).getLast?, id c ∈ e.last := fun c there => by
    obtain rfl := Option.some.inj (there.symm.trans last)
    exact ends
  obtain ⟨opening,tail,rfl⟩ := List.exists_cons_of_ne_nil marks.ne_nil
  have starts : ∃ c rest, replaceBy id p (opening::tail) 0 (a::more) = c::rest ∧ c ∈ e.first := by
    rw [replaceBy]
    split
    · obtain ⟨_,same,_⟩ := marks.fenced
      exact ⟨opening,_,rfl,(List.cons.inj same).1 ▸ e.opens⟩
    · exact ⟨a,_,rfl,first⟩
  obtain ⟨c,rest,same,begins⟩ := starts
  refine ⟨c::rest,?_,⟨c,rfl,begins⟩,?_⟩
  · rw [Redact.replaceAll,replaceBy,if_neg none,replaceBy_append_closing (f := id) rfl clear ends' (Nat.zero_le _),same]
    rfl
  · obtain ⟨d,there⟩ := Option.isSome_iff_exists.mp (List.getLast?_isSome.mpr (List.cons_ne_nil c rest))
    refine ⟨d,there,?_⟩
    rcases getLast?_replaceBy marks.ne_nil (same ▸ there : d ∈ (replaceBy id p (opening::tail) 0 (a::more)).getLast?) with old | new
    · exact ends' d old
    · obtain ⟨mid',same,_⟩ := marks.fenced
      rw [same,← List.cons_append,List.getLast?_concat] at new
      exact Option.some.inj new ▸ e.closes

end

/-! ### Pieces -/

/-- An element of the text, or some of it that is gone with what is shown in its place. -/
inductive Piece (α : Type) where
  | char (a : α)
  | gone (orig shown : List α)

/-- What is shown, each element of the text with its place in it. -/
abbrev Cells (α : Type) := List (α × Option Nat)

def placed (text : List α) (start : Nat) : Cells α := (text.zipIdx start).map (fun a => (a.1,some a.2))

def unplaced (m : List α) : Cells α := m.map (·,none)

/-- Where something of the text is gone, and what is shown in its place. -/
structure Hole (α : Type) where
  start : Nat
  length : Nat
  shown : List α
  deriving DecidableEq

def Inside (holes : List (Hole α)) (i : Nat) : Prop := ∃ h ∈ holes, h.start ≤ i ∧ i < h.start + h.length

instance {holes : List (Hole α)} {i : Nat} : Decidable (Inside holes i) :=
  inferInstanceAs (Decidable (∃ h ∈ holes, h.start ≤ i ∧ i < h.start + h.length))

/-- Where the place of the text is in what is shown. -/
def shift (holes : List (Hole α)) (i : Nat) : Nat :=
  i + ((holes.filter (·.start < i)).map (·.shown.length)).sum - ((holes.filter (·.start < i)).map (·.length)).sum

theorem Inside.perm {holes holes' : List (Hole α)} {i : Nat} (same : holes.Perm holes') : Inside holes i ↔ Inside holes' i :=
  exists_congr (fun _ => and_congr_left' same.mem_iff)

theorem shift_perm {holes holes' : List (Hole α)} {i : Nat} (same : holes.Perm holes') : shift holes i = shift holes' i := by
  unfold shift
  rw [((same.filter _).map _).sum_eq,((same.filter _).map _).sum_eq]

theorem inside_cons {h : Hole α} {holes : List (Hole α)} {i : Nat} :
    Inside (h::holes) i ↔ h.start ≤ i ∧ i < h.start + h.length ∨ Inside holes i := by
  simp only [Inside,List.mem_cons,exists_eq_or_imp]

namespace Piece

def text : List (Piece α) → List α
  | [] => []
  | .char a::rest => a::text rest
  | .gone o _::rest => o ++ text rest

/-- What is shown of the pieces, the first of which is at the place. -/
def cells : Nat → List (Piece α) → Cells α
  | _,[] => []
  | i,.char a::rest => (a,some i)::cells (i + 1) rest
  | i,.gone o k::rest => unplaced k ++ cells (i + o.length) rest

def holes : Nat → List (Piece α) → List (Hole α)
  | _,[] => []
  | i,.char _::rest => holes (i + 1) rest
  | i,.gone o k::rest => ⟨i,o.length,k⟩::holes (i + o.length) rest

/-- The elements before anything is gone. -/
def run : List (Piece α) → List α
  | .char a::rest => a::run rest
  | _ => []

/-- The element at the place is still there. -/
def Stays : List (Piece α) → Nat → Prop
  | [],_ => False
  | .char _::_,0 => True
  | .char _::rest,i+1 => Stays rest i
  | .gone o _::rest,i => o.length ≤ i ∧ Stays rest (i - o.length)

/-- How much is shown before the place. -/
def ahead : List (Piece α) → Nat → Nat
  | [],_ => 0
  | .char _::_,0 => 0
  | .char _::rest,i+1 => ahead rest i + 1
  | .gone o k::rest,i => k.length + ahead rest (i - o.length)

/-- What is gone was something, and what is shown in its place is a mark. -/
def Bound (e : Fence α) (ps : List (Piece α)) : Prop := ∀ o k, gone o k ∈ ps → o ≠ [] ∧ e.Marks k

/-- No occurrence of the pattern in what is shown reaches into what is gone. -/
def Legible [DecidableEq α] (e : Fence α) (p : List α) (ps : List (Piece α)) : Prop := p ≠ [] ∧ ((∃ o k, gone o k ∈ ps) → e.Clear p)

section
variable {p : List α} {ps rest : List (Piece α)} {i j : Nat}

theorem Bound.tail {x : Piece α} (bound : Bound e (x::rest)) : Bound e rest :=
  fun o k there => bound o k (List.mem_cons_of_mem _ there)

theorem Legible.tail [DecidableEq α] {x : Piece α} (legible : Legible e p (x::rest)) : Legible e p rest :=
  ⟨legible.1,fun ⟨o,k,there⟩ => legible.2 ⟨o,k,List.mem_cons_of_mem _ there⟩⟩

theorem run_prefix_text : run ps <+: text ps := by
  induction ps with
  | nil => exact List.nil_prefix
  | cons x rest ih => cases x with
    | char a => exact List.cons_prefix_cons.mpr ⟨rfl,ih⟩
    | gone o k => exact List.nil_prefix

theorem run_eq_text (none : ∀ o k, gone o k ∉ ps) : run ps = text ps := by
  induction ps with
  | nil => rfl
  | cons x rest ih => cases x with
    | char a => exact congrArg (a::·) (ih (fun o k there => none o k (List.mem_cons_of_mem _ there)))
    | gone o k => exact absurd List.mem_cons_self (none o k)

theorem run_prefix_cells : run ps <+: (cells i ps).map Prod.fst := by
  induction ps generalizing i with
  | nil => exact List.nil_prefix
  | cons x rest ih => cases x with
    | char a => exact List.cons_prefix_cons.mpr ⟨rfl,ih⟩
    | gone o k => exact List.nil_prefix

/-- What starts apart from openings starts with what is still there. -/
theorem prefix_cells [DecidableEq α] {prev : Option α} (bound : Bound e ps) (apart : (∃ o k, gone o k ∈ ps) → e.apart prev p) :
    p <+: (cells i ps).map Prod.fst ↔ p <+: run ps := by
  refine ⟨fun there => ?_,fun there => there.trans run_prefix_cells⟩
  induction ps generalizing i prev p with
  | nil => exact there
  | cons x rest ih => cases p with
    | nil => exact List.nil_prefix
    | cons b p => cases x with
      | char a =>
        obtain ⟨same,further⟩ := List.cons_prefix_cons.mp there
        have behind : (∃ o k, gone o k ∈ rest) → e.apart (some b) p :=
          fun ⟨o,k,inside⟩ => (Bool.and_eq_true_iff.mp (apart ⟨o,k,List.mem_cons_of_mem _ inside⟩)).2
        exact List.cons_prefix_cons.mpr ⟨same,ih bound.tail behind further⟩
      | gone o k =>
        obtain ⟨mid,rfl,⟨a,head,first⟩,-⟩ := (bound o k List.mem_cons_self).2.fenced
        obtain ⟨opens,further⟩ := List.cons_prefix_cons.mp there
        obtain rfl : b = e.opening := opens
        have starts : e.apart prev ([] ++ e.opening::p) := apart ⟨o,_,List.mem_cons_self⟩
        obtain ⟨c,next,other⟩ := apart_opening starts
        cases p with
        | nil => cases next
        | cons c' p => cases mid with
          | nil => cases head
          | cons a' mid =>
            have second : c' = a' := (List.cons_prefix_cons.mp further).1
            have same : c = a := (Option.some.inj next).symm.trans (second.trans (Option.some.inj head))
            exact absurd first (same ▸ other)

/-- As far as everything stays, nothing is gone. -/
theorem le_run {n : Nat} (some_text : ∀ o k, gone o k ∈ ps → o ≠ []) (stays : ∀ i < n, Stays ps i) : n ≤ (run ps).length := by
  induction ps generalizing n with
  | nil => cases n with
    | zero => exact Nat.le_refl 0
    | succ n => exact (stays 0 (Nat.succ_pos n)).elim
  | cons x rest ih => cases n with
    | zero => exact Nat.zero_le _
    | succ n => cases x with
      | char a =>
        exact Nat.succ_le_succ (ih (fun o k there => some_text o k (List.mem_cons_of_mem _ there))
          (fun i before => stays (i + 1) (Nat.succ_lt_succ before)))
      | gone o k =>
        obtain ⟨none,-⟩ := stays 0 (Nat.succ_pos n)
        exact absurd (List.length_eq_zero_iff.mp (Nat.le_zero.mp none)) (some_text o k List.mem_cons_self)

theorem Stays.lt (stays : Stays ps i) : i < (text ps).length := by
  induction ps generalizing i with
  | nil => exact stays.elim
  | cons x rest ih => cases x with
    | char a => cases i with
      | zero => exact Nat.succ_pos _
      | succ i => exact Nat.succ_lt_succ (ih stays)
    | gone o k =>
      obtain ⟨after,stays⟩ := stays
      have := ih stays
      rw [text,List.length_append]
      omega

theorem stays_of_run (inside : i < (run ps).length) : Stays ps i := by
  induction ps generalizing i with
  | nil => exact absurd inside (Nat.not_lt_zero i)
  | cons x rest ih => cases x with
    | char a => cases i with
      | zero => trivial
      | succ i => exact ih (Nat.lt_of_succ_lt_succ inside)
    | gone o k => exact absurd inside (Nat.not_lt_zero i)

/-- What is shown in the first so many cells is what stays and has fewer ahead of it. -/
theorem mem_take_cells {n : Nat} : some j ∈ ((cells i ps).take n).map Prod.snd ↔ i ≤ j ∧ Stays ps (j - i) ∧ ahead ps (j - i) < n := by
  induction ps generalizing i n with
  | nil => exact ⟨fun there => absurd there (by simp [cells]),fun stays => stays.2.1.elim⟩
  | cons x rest ih => cases x with
    | char a => cases n with
      | zero => exact ⟨fun there => absurd there (by simp),fun h => absurd h.2.2 (Nat.not_lt_zero _)⟩
      | succ n =>
        rw [cells,List.take_succ_cons,List.map_cons,List.mem_cons,ih,Option.some.injEq]
        constructor
        · rintro (rfl | ⟨after,stays,short⟩)
          · rw [Nat.sub_self]
            exact ⟨Nat.le_refl j,trivial,Nat.succ_pos n⟩
          · rw [show j - i = (j - (i + 1)) + 1 by omega]
            exact ⟨by omega,stays,Nat.succ_lt_succ short⟩
        · rintro ⟨after,stays,short⟩
          rcases Nat.eq_or_lt_of_le after with same | later
          · exact .inl same.symm
          · rw [show j - i = (j - (i + 1)) + 1 by omega] at stays short
            exact .inr ⟨later,stays,Nat.lt_of_succ_lt_succ short⟩
    | gone o k =>
      have none : some j ∉ ((unplaced k).take n).map Prod.snd := fun there => by
        obtain ⟨c,among,same⟩ := List.mem_map.mp there
        obtain ⟨_,-,rfl⟩ := List.mem_map.mp (List.mem_of_mem_take among)
        cases same
      have length : (unplaced k).length = k.length := List.length_map _
      rw [cells,List.take_append,List.map_append,List.mem_append,or_iff_right none,ih,length,Nat.sub_add_eq]
      exact ⟨fun ⟨after,stays,short⟩ => ⟨by omega,⟨by omega,stays⟩,show k.length + _ < n by omega⟩,
        fun ⟨after,⟨further,stays⟩,(short : k.length + _ < n)⟩ => ⟨by omega,stays,by omega⟩⟩

theorem mem_cells : some j ∈ (cells i ps).map Prod.snd ↔ i ≤ j ∧ Stays ps (j - i) := by
  constructor
  · intro there
    rw [← List.take_length (l := cells i ps)] at there
    obtain ⟨after,stays,-⟩ := mem_take_cells.mp there
    exact ⟨after,stays⟩
  · intro ⟨after,stays⟩
    exact List.map_subset _ (List.take_subset _ _) (mem_take_cells.mpr ⟨after,stays,Nat.lt_succ_self _⟩)

/-! ### Holes -/

theorem le_start {h : Hole α} (there : h ∈ holes i ps) : i + (run ps).length ≤ h.start := by
  induction ps generalizing i with
  | nil => cases there
  | cons x rest ih => cases x with
    | char a =>
      have := ih there
      rw [run,List.length_cons]
      omega
    | gone o k =>
      change i ≤ h.start
      rcases List.mem_cons.mp there with rfl | there
      · exact Nat.le_refl i
      · have := ih there
        omega

theorem exists_hole {o k : List α} (there : gone o k ∈ ps) : ∃ h ∈ holes i ps, h.start = i + (run ps).length := by
  induction ps generalizing i with
  | nil => cases there
  | cons x rest ih => cases x with
    | char a =>
      obtain ⟨h,member,start⟩ := ih (i := i + 1) ((List.mem_cons.mp there).resolve_left (fun same => nomatch same))
      exact ⟨h,member,by rw [start,run,List.length_cons]; omega⟩
    | gone o' k' => exact ⟨_,List.mem_cons_self,rfl⟩

theorem hole_of_gone {o k : List α} (there : gone o k ∈ ps) : ∃ h ∈ holes i ps, h.shown = k := by
  induction ps generalizing i with
  | nil => cases there
  | cons x rest ih => cases x with
    | char a => exact ih ((List.mem_cons.mp there).resolve_left (fun same => nomatch same))
    | gone o' k' =>
      rcases List.mem_cons.mp there with same | there
      · obtain ⟨rfl,rfl⟩ := gone.inj same
        exact ⟨_,List.mem_cons_self,rfl⟩
      · obtain ⟨h,member,shown⟩ := ih there
        exact ⟨h,List.mem_cons_of_mem _ member,shown⟩

theorem holes_eq_nil (none : ∀ o k, gone o k ∉ ps) : holes i ps = [] := by
  induction ps generalizing i with
  | nil => rfl
  | cons x rest ih => cases x with
    | char a => exact ih (fun o k there => none o k (List.mem_cons_of_mem _ there))
    | gone o k => exact absurd List.mem_cons_self (none o k)

theorem stays_iff (inside : j < (text ps).length) : Stays ps j ↔ ¬Inside (holes i ps) (i + j) := by
  induction ps generalizing i j with
  | nil => exact absurd inside (Nat.not_lt_zero j)
  | cons x rest ih => cases x with
    | char a => cases j with
      | zero =>
        refine iff_of_true trivial (fun ⟨h,there,before,_⟩ => ?_)
        have : i + 1 + (run rest).length ≤ h.start := le_start there
        omega
      | succ j =>
        rw [show i + (j + 1) = (i + 1) + j by omega]
        exact ih (Nat.lt_of_succ_lt_succ inside)
    | gone o k =>
      rw [text,List.length_append] at inside
      rw [holes,inside_cons]
      dsimp only
      constructor
      · rintro ⟨after,stays⟩ (⟨-,within⟩ | further)
        · omega
        · refine (ih (i := i + o.length) (by omega)).mp stays ?_
          rwa [show i + o.length + (j - o.length) = i + j by omega]
      · intro outside
        rw [not_or] at outside
        have after : o.length ≤ j := by omega
        refine ⟨after,(ih (i := i + o.length) (by omega)).mpr ?_⟩
        rw [show i + o.length + (j - o.length) = i + j by omega]
        exact outside.2

theorem ahead_holes (some_text : ∀ o k, gone o k ∈ ps → o ≠ []) (stays : Stays ps j) :
    ahead ps j + (((holes i ps).filter (·.start < i + j)).map (·.length)).sum =
      j + (((holes i ps).filter (·.start < i + j)).map (·.shown.length)).sum := by
  induction ps generalizing i j with
  | nil => exact stays.elim
  | cons x rest ih => cases x with
    | char a => cases j with
      | zero =>
        have none : (holes i (char a::rest)).filter (·.start < i + 0) = [] := by
          rw [List.filter_eq_nil_iff]
          intro h there
          have := le_start there
          simp only [decide_eq_true_eq]
          omega
        rw [none]
        rfl
      | succ j =>
        have := ih (i := i + 1) (fun o k there => some_text o k (List.mem_cons_of_mem _ there)) stays
        rw [show i + 1 + j = i + (j + 1) by omega] at this
        simp only [ahead,holes]
        omega
    | gone o k =>
      obtain ⟨after,stays⟩ := stays
      have some_length := List.length_pos_of_ne_nil (some_text o k List.mem_cons_self)
      have := ih (i := i + o.length) (fun o k there => some_text o k (List.mem_cons_of_mem _ there)) stays
      rw [show i + o.length + (j - o.length) = i + j by omega] at this
      have here : i < i + j := by omega
      simp only [holes,ahead,List.filter_cons,decide_eq_true here,if_true,List.map_cons,List.sum_cons]
      omega

theorem ahead_eq_shift (some_text : ∀ o k, gone o k ∈ ps → o ≠ []) (stays : Stays ps j) : ahead ps j = shift (holes 0 ps) j := by
  have := ahead_holes (i := 0) some_text stays
  rw [Nat.zero_add] at this
  unfold shift
  omega

/-- What is shown goes on with a mark behind what is still there. -/
theorem shown_run : (∀ o k, gone o k ∉ ps) ∧ (cells i ps).map Prod.fst = run ps ∨
    ∃ o k more, gone o k ∈ ps ∧ (cells i ps).map Prod.fst = run ps ++ (k ++ more) := by
  induction ps generalizing i with
  | nil => exact .inl ⟨fun _ _ => List.not_mem_nil,rfl⟩
  | cons x rest ih => cases x with
    | char a =>
      rcases ih (i := i + 1) with ⟨none,same⟩ | ⟨o,k,more,there,same⟩
      · refine .inl ⟨fun o k there => ?_,congrArg (a::·) same⟩
        exact (List.mem_cons.mp there).elim (fun same => nomatch same) (none o k)
      · exact .inr ⟨o,k,more,List.mem_cons_of_mem _ there,congrArg (a::·) same⟩
    | gone o k =>
      refine .inr ⟨o,k,(cells (i + o.length) rest).map Prod.fst,List.mem_cons_self,?_⟩
      have shown : (unplaced k).map Prod.fst = k := by simp [unplaced,Function.comp_def]
      rw [cells,List.map_append,shown]
      rfl

theorem skip_le {a : α} (hit : p <+: a::run rest) : p.length - 1 ≤ (run rest).length := by
  have := hit.length_le
  rw [List.length_cons] at this
  omega

theorem hit_text {a : α} (hit : p <+: a::run rest) : p <+: text (.char a::rest) :=
  hit.trans (run_prefix_text : run (.char a::rest) <+: text (.char a::rest))

/-! ### A text of which nothing is gone -/

variable {whole : List α}

theorem text_map_char : text (whole.map char) = whole := by
  induction whole with
  | nil => rfl
  | cons a rest ih => exact congrArg (a::·) ih

theorem cells_map_char : cells i (whole.map char) = placed whole i := by
  induction whole generalizing i with
  | nil => rfl
  | cons a rest ih => exact congrArg ((a,some i)::·) ih

theorem gone_map_char {o k : List α} : gone o k ∉ whole.map char := by
  intro there
  obtain ⟨a,-,same⟩ := List.mem_map.mp there
  exact nomatch same

theorem bound_map_char : Bound e (whole.map char) := fun _ _ there => (gone_map_char there).elim

end
end Piece
end Suixinji.Redact
