import Mathlib.Data.List.Induction
import Mathlib.Data.List.Nodup
import Mathlib.Data.List.Pairwise
import Mathlib.Data.List.Perm.Subperm
import Mathlib.Logic.Relation

/-! Greedy grouping: an element joins the first group that holds something near to it, or starts
a group of its own. Groups are never joined, so what comes out depends on the order. -/
namespace Suixinji.Grouping
open Relation (ReflTransGen)

variable {α : Type} (near : α → α → Bool)

def place (x : α) : List (List α) → List (List α)
  | [] => [[x]]
  | g :: gs => if g.any (near x) then (g ++ [x]) :: gs else g :: place x gs

def groupsOf (xs : List α) : List (List α) := xs.foldl (fun gs x => place near x gs) []

/-- A list each of whose elements, after the first, is near to one before it. -/
inductive Chained : List α → Prop
  | single (x : α) : Chained [x]
  | snoc {g : List α} {x y : α} (chained : Chained g) (member : y ∈ g) (close : near x y) : Chained (g ++ [x])

/-- Linked by a chain of near elements of a list. -/
def Linked (xs : List α) : α → α → Prop := ReflTransGen (fun a b => near a b ∧ a ∈ xs ∧ b ∈ xs)

/-- What the groups of a list have in common, whatever its order: a group is a chain,
and nothing in a later group is near to the first of an earlier one. -/
structure Grouped (gs : List (List α)) (xs : List α) : Prop where
  perm : gs.flatten.Perm xs
  chained : ∀ g ∈ gs, Chained near g
  apart : gs.Pairwise (fun g h => ∀ a ∈ g.head?, ∀ x ∈ h, near x a = false)

variable {near} {xs : List α}

theorem place_cases (near : α → α → Bool) (x : α) (gs : List (List α)) :
    (∃ before g after, gs = before ++ g :: after ∧ (∀ h ∈ before, ∀ y ∈ h, near x y = false) ∧
      (∃ y ∈ g, near x y) ∧ place near x gs = before ++ (g ++ [x]) :: after) ∨
    ((∀ h ∈ gs, ∀ y ∈ h, near x y = false) ∧ place near x gs = gs ++ [[x]]) := by
  induction gs with
  | nil => exact .inr ⟨by simp,rfl⟩
  | cons g gs ih =>
    by_cases here : g.any (near x) = true
    · exact .inl ⟨[],g,gs,rfl,by simp,List.any_eq_true.mp here,by simp [place,here]⟩
    · have none : ∀ y ∈ g, near x y = false := by simpa using here
      have later : place near x (g :: gs) = g :: place near x gs := by simp [place,here]
      rcases ih with ⟨before,h,after,rfl,free,close,placed⟩ | ⟨free,placed⟩
      · exact .inl ⟨g :: before,h,after,rfl,List.forall_mem_cons.mpr ⟨none,free⟩,close,by rw [later,placed]; rfl⟩
      · exact .inr ⟨List.forall_mem_cons.mpr ⟨none,free⟩,by rw [later,placed]; rfl⟩

theorem Chained.ne_nil {g : List α} (chained : Chained near g) : g ≠ [] := by
  cases chained <;> simp

theorem Grouped.place {gs : List (List α)} (grouped : Grouped near gs xs) (x : α) :
    Grouped near (place near x gs) (xs ++ [x]) := by
  obtain ⟨before,g,after,rfl,free,⟨y,member,close⟩,placed⟩ | ⟨free,placed⟩ := place_cases near x gs
  · rw [placed]
    have nonempty := (grouped.chained g (by simp)).ne_nil
    constructor
    · have moved : (before ++ (g ++ [x]) :: after).flatten.Perm ((before ++ g :: after).flatten ++ [x]) := by
        simp only [List.flatten_append,List.flatten_cons,List.append_assoc]
        exact ((List.perm_append_comm).append_left g).append_left _
      exact moved.trans (grouped.perm.append_right [x])
    · intro h inside
      rcases List.mem_append.mp inside with early | late
      · exact grouped.chained h (by simp [early])
      · rcases List.mem_cons.mp late with rfl | late
        · exact .snoc (grouped.chained g (by simp)) member close
        · exact grouped.chained h (by simp [late])
    · have apart := grouped.apart
      rw [List.pairwise_append,List.pairwise_cons] at apart ⊢
      obtain ⟨earlier,⟨here,later⟩,across⟩ := apart
      refine ⟨earlier,⟨?_,later⟩,?_⟩
      · rw [List.head?_append_of_ne_nil _ nonempty]
        exact here
      · intro h inside k inside' a head z held
        rcases List.mem_cons.mp inside' with rfl | late
        · rcases List.mem_append.mp held with old | last
          · exact across h inside g List.mem_cons_self a head z old
          · rw [List.mem_singleton.mp last]
            exact free h inside a (List.mem_of_mem_head? head)
        · exact across h inside k (List.mem_cons_of_mem _ late) a head z held
  · rw [placed]
    constructor
    · rw [List.flatten_append]
      exact grouped.perm.append_right _
    · intro h inside
      rcases List.mem_append.mp inside with old | last
      · exact grouped.chained h old
      · rw [List.mem_singleton.mp last]
        exact .single x
    · refine List.pairwise_append.mpr ⟨grouped.apart,List.pairwise_singleton _ _,?_⟩
      intro h inside k last a head z held
      rw [List.mem_singleton.mp last,List.mem_singleton] at held
      rw [held]
      exact free h inside a (List.mem_of_mem_head? head)

theorem grouped_groupsOf (xs : List α) : Grouped near (groupsOf near xs) xs := by
  have run : ∀ (rest done : List α) (gs : List (List α)), Grouped near gs done →
      Grouped near (rest.foldl (fun gs x => Grouping.place near x gs) gs) (done ++ rest) := by
    intro rest
    induction rest with
    | nil => simp
    | cons x rest ih =>
      intro done gs grouped
      simpa using ih _ _ (grouped.place x)
  exact run xs [] [] ⟨.refl _,by simp,.nil⟩

theorem Linked.symm (symmetric : ∀ a b, near a b = near b a) {a b : α} (linked : Linked near xs a b) :
    Linked near xs b a := by
  refine ReflTransGen.mono (fun x y step => ?_) _ _ linked.swap
  exact ⟨by rw [symmetric,step.1],step.2.2,step.2.1⟩

theorem Linked.perm {ys : List α} (perm : xs.Perm ys) {a b : α} (linked : Linked near xs a b) : Linked near ys a b :=
  ReflTransGen.mono (fun _ _ step => ⟨step.1,perm.mem_iff.mp step.2.1,perm.mem_iff.mp step.2.2⟩) _ _ linked

theorem Chained.linked (symmetric : ∀ a b, near a b = near b a) {g : List α} (chained : Chained near g)
    (inside : ∀ x ∈ g, x ∈ xs) {a b : α} (first : a ∈ g) (second : b ∈ g) : Linked near xs a b := by
  induction chained generalizing a b with
  | single x =>
    rw [List.mem_singleton.mp first,List.mem_singleton.mp second]
    exact .refl
  | @snoc g x y chained member close ih =>
    have inner : ∀ x ∈ g, x ∈ xs := fun z held => inside z (List.mem_append_left _ held)
    have last : Linked near xs y x :=
      .single ⟨by rw [symmetric,close],inner y member,inside x (by simp)⟩
    have toLast : ∀ z ∈ g, Linked near xs z x := fun z held => (ih inner held member).trans last
    rcases List.mem_append.mp first with old | new <;> rcases List.mem_append.mp second with old' | new'
    · exact ih inner old old'
    · rw [List.mem_singleton.mp new']
      exact toLast a old
    · rw [List.mem_singleton.mp new]
      exact (toLast b old').symm symmetric
    · rw [List.mem_singleton.mp new,List.mem_singleton.mp new']
      exact .refl

theorem Grouped.linked (symmetric : ∀ a b, near a b = near b a) {gs : List (List α)} (grouped : Grouped near gs xs)
    {g : List α} (member : g ∈ gs) {a b : α} (first : a ∈ g) (second : b ∈ g) : Linked near xs a b :=
  (grouped.chained g member).linked symmetric
    (fun _ held => grouped.perm.mem_iff.mp (List.mem_flatten.mpr ⟨g,member,held⟩)) first second

theorem Grouped.of_perm {gs : List (List α)} {ys : List α} (grouped : Grouped near gs ys) (perm : xs.Perm ys) :
    Grouped near gs xs := ⟨grouped.perm.trans perm.symm,grouped.chained,grouped.apart⟩

theorem Grouped.exists_group {gs : List (List α)} (grouped : Grouped near gs xs) {x : α} (member : x ∈ xs) :
    ∃ g ∈ gs, x ∈ g := List.mem_flatten.mp (grouped.perm.mem_iff.mpr member)

theorem Grouped.nodup {gs : List (List α)} (grouped : Grouped near gs xs) (whole : xs.Nodup) {g : List α}
    (member : g ∈ gs) : g.Nodup := (List.nodup_flatten.mp (grouped.perm.nodup_iff.mpr whole)).1 g member

/-- Of two groups, one begins with an element to which nothing in the other is near. -/
theorem Grouped.far_of_ne {gs : List (List α)} (grouped : Grouped near gs xs) (whole : xs.Nodup) {g h : List α}
    (member : g ∈ gs) (member' : h ∈ gs) (other : g ≠ h) :
    (∃ a ∈ g, ∀ x ∈ h, x ≠ a ∧ near x a = false) ∨ ∃ a ∈ h, ∀ x ∈ g, x ≠ a ∧ near x a = false := by
  let R := fun g h : List α => (∀ a ∈ g.head?, ∀ x ∈ h, near x a = false) ∧ g.Disjoint h
  have pairwise : gs.Pairwise (fun g h => R g h ∨ R h g) :=
    (grouped.apart.and (List.nodup_flatten.mp (grouped.perm.nodup_iff.mpr whole)).2).imp .inl
  have first : ∀ g ∈ gs, ∀ h : List α, R g h → ∃ a ∈ g, ∀ x ∈ h, x ≠ a ∧ near x a = false := by
    intro g member h apart
    obtain ⟨a,rest,rfl⟩ := List.exists_cons_of_ne_nil (grouped.chained g member).ne_nil
    refine ⟨a,List.mem_cons_self,fun x held => ⟨?_,apart.1 a rfl x held⟩⟩
    rintro rfl
    exact apart.2 List.mem_cons_self held
  have : Std.Symm (fun g h => R g h ∨ R h g) := ⟨fun _ _ => Or.symm⟩
  exact (pairwise.forall member member' other).imp (first g member h) (first h member' g)

theorem Grouped.mem_iff_of_complete (symmetric : ∀ a b, near a b = near b a) {gs : List (List α)}
    (grouped : Grouped near gs xs) (whole : xs.Nodup) {g : List α} (member : g ∈ gs) {x : α} (here : x ∈ g)
    (complete : ∀ a b, Linked near xs x a → Linked near xs x b → a ≠ b → near a b) (y : α) :
    y ∈ g ↔ Linked near xs x y := by
  refine ⟨grouped.linked symmetric member here,fun linked => ?_⟩
  have listed : y ∈ xs := by
    cases linked with
    | refl => exact grouped.perm.mem_iff.mp (List.mem_flatten.mpr ⟨g,member,here⟩)
    | tail _ step => exact step.2.2
  obtain ⟨h,member',there⟩ := grouped.exists_group listed
  by_cases same : g = h
  · rwa [same]
  · rcases grouped.far_of_ne whole member member' same with ⟨a,held,far⟩ | ⟨a,held,far⟩
    · have close := complete y a linked (grouped.linked symmetric member here held) (far y there).1
      exact absurd close (by simp [(far y there).2])
    · have close := complete x a .refl (linked.trans (grouped.linked symmetric member' there held)) (far x here).1
      exact absurd close (by simp [(far x here).2])

/-- An element near to all that are linked to it. -/
def Central (near : α → α → Bool) (xs : List α) (l : α) : Prop := ∀ y, Linked near xs l y → y ≠ l → near l y = true

theorem Chained.exists_near {g : List α} (chained : Chained near g) (long : 1 < g.length) (once : g.Nodup) :
    ∃ c ∈ g, ∃ d ∈ g, c ≠ d ∧ near d c := by
  cases chained with
  | single => simp at long
  | @snoc g x y _ member close =>
    refine ⟨y,List.mem_append_left _ member,x,by simp,?_,close⟩
    exact (List.nodup_append.mp once).2.2 y member x (by simp)

theorem Grouped.eq_of_central (symmetric : ∀ a b, near a b = near b a) {gs : List (List α)}
    (grouped : Grouped near gs xs) (whole : xs.Nodup) {g h : List α} (member : g ∈ gs) (member' : h ∈ gs) {l l' : α}
    (here : l ∈ g) (there : l' ∈ h) (linked : Linked near xs l l') (central : Central near xs l)
    (central' : Central near xs l') : h = g := by
  by_contra other
  rcases grouped.far_of_ne whole member' member other with ⟨a,held,far⟩ | ⟨a,held,far⟩
  · have close := central a (linked.trans (grouped.linked symmetric member' there held)) (far l here).1.symm
    exact absurd close (by simp [(far l here).2])
  · have close := central' a ((linked.symm symmetric).trans (grouped.linked symmetric member here held)) (far l' there).1.symm
    exact absurd close (by simp [(far l' there).2])

/-- A group of more than one, linked to a central element, is that of the central element,
where nothing linked is far from two near elements. -/
theorem Grouped.eq_of_long (symmetric : ∀ a b, near a b = near b a) {gs : List (List α)}
    (grouped : Grouped near gs xs) (whole : xs.Nodup) {g h : List α} (member : g ∈ gs) (member' : h ∈ gs) {l x : α}
    (here : l ∈ g) (there : x ∈ h) (linked : Linked near xs l x) (central : Central near xs l) (long : 1 < h.length)
    (covered : ∀ a c d, Linked near xs l a → Linked near xs l c → Linked near xs l d → c ≠ a → d ≠ a → c ≠ d →
      near d c → near c a ∨ near d a) : h = g := by
  by_contra other
  have reached : ∀ z ∈ h, Linked near xs l z := fun z held => linked.trans (grouped.linked symmetric member' there held)
  rcases grouped.far_of_ne whole member' member other with ⟨a,held,far⟩ | ⟨a,held,far⟩
  · have close := central a (reached a held) (far l here).1.symm
    exact absurd close (by simp [(far l here).2])
  · obtain ⟨c,heldc,d,heldd,apart,close⟩ := (grouped.chained h member').exists_near long (grouped.nodup whole member')
    obtain ⟨otherc,farc⟩ := far c heldc
    obtain ⟨otherd,fard⟩ := far d heldd
    rcases covered a c d (grouped.linked symmetric member here held) (reached c heldc) (reached d heldd) otherc otherd
      apart close with one | two
    · exact absurd one (by simp [farc])
    · exact absurd two (by simp [fard])

/-- The first group takes what is near to it, as it grows, and the other groups are formed
of what it leaves. -/
theorem foldl_place_cons (near : α → α → Bool) (rest g : List α) (gs : List (List α)) :
    ∃ caught missed, (caught ++ missed).Perm rest ∧
      rest.foldl (fun gs x => place near x gs) (g :: gs) = (g ++ caught) :: missed.foldl (fun gs x => place near x gs) gs ∧
      ∀ x ∈ missed, ∀ y ∈ g, near x y = false := by
  induction rest generalizing g gs with
  | nil => exact ⟨[],[],.refl _,by simp,by simp⟩
  | cons x rest ih =>
    rw [List.foldl_cons,place]
    split
    · obtain ⟨caught,missed,perm,folded,free⟩ := ih (g ++ [x]) gs
      refine ⟨x :: caught,missed,perm.cons x,by simpa using folded,?_⟩
      exact fun z left y member => free z left y (List.mem_append_left _ member)
    · rename_i far
      obtain ⟨caught,missed,perm,folded,free⟩ := ih g (place near x gs)
      refine ⟨caught,x :: missed,List.perm_middle.trans (perm.cons x),by simpa using folded,?_⟩
      exact List.forall_mem_cons.mpr ⟨by simpa using far,free⟩

theorem Chained.of_snoc {g : List α} {x : α} (chained : Chained near (g ++ [x])) (some : g ≠ []) :
    Chained near g ∧ ∃ y ∈ g, near x y := by
  generalize whole : g ++ [x] = h at chained
  cases chained with
  | single z =>
    cases g with
    | nil => exact absurd rfl some
    | cons => simp at whole
  | snoc chained member close =>
    obtain ⟨rfl,same⟩ := List.append_inj' whole rfl
    cases same
    exact ⟨chained,_,member,close⟩

theorem Chained.before {g rest : List α} (chained : Chained near (g ++ rest)) (some : g ≠ []) : Chained near g := by
  induction rest using List.reverseRecOn with
  | nil => simpa using chained
  | append_singleton rest x ih =>
    rw [← List.append_assoc] at chained
    exact ih (chained.of_snoc (by simp [some])).1

theorem foldl_place_chained {g rest : List α} (chained : Chained near (g ++ rest)) (some : g ≠ []) (gs : List (List α)) :
    rest.foldl (fun gs x => place near x gs) (g :: gs) = (g ++ rest) :: gs := by
  induction rest using List.reverseRecOn with
  | nil => simp
  | append_singleton rest x ih =>
    rw [← List.append_assoc] at chained
    obtain ⟨chained,y,member,close⟩ := chained.of_snoc (by simp [some])
    have taken : (g ++ rest).any (near x) = true := List.any_eq_true.mpr ⟨y,member,close⟩
    rw [List.foldl_append,ih chained,List.foldl_cons,List.foldl_nil,place,if_pos taken,List.append_assoc]

theorem exists_whole {g : List α} (chained : Chained near g) (once : g.Nodup) (inside : ∀ x ∈ g, x ∈ xs) :
    ∃ more, Chained near (g ++ more) ∧ (g ++ more).Nodup ∧ (∀ x ∈ g ++ more, x ∈ xs) ∧
      ∀ x ∈ xs, x ∉ g ++ more → ∀ y ∈ g ++ more, near x y = false := by
  induction left : xs.length - g.length using Nat.strongRecOn generalizing g with
  | ind n ih =>
    by_cases open_ : ∃ x ∈ xs, x ∉ g ∧ ∃ y ∈ g, near x y
    · obtain ⟨x,member,new,y,held,close⟩ := open_
      have once' : (g ++ [x]).Nodup := List.nodup_append.mpr ⟨once,List.nodup_singleton x,by
        intro a old b last
        rw [List.mem_singleton.mp last]
        exact fun same => new (same ▸ old)⟩
      have inside' : ∀ z ∈ g ++ [x], z ∈ xs := by
        intro z held
        rcases List.mem_append.mp held with old | last
        · exact inside z old
        · rwa [List.mem_singleton.mp last]
      have room : (g ++ [x]).length ≤ xs.length := (List.subperm_of_subset once' inside').length_le
      have smaller : xs.length - (g ++ [x]).length < n := by
        rw [List.length_append,List.length_singleton] at room ⊢
        omega
      obtain ⟨more,chained,once,inside,closed⟩ := ih _ smaller (chained.snoc held close) once' inside' rfl
      rw [List.append_assoc] at chained once inside closed
      exact ⟨[x] ++ more,chained,once,inside,closed⟩
    · refine ⟨[],by simpa using chained,by simpa using once,by simpa using inside,?_⟩
      intro x member new y held
      rw [List.append_nil] at new held
      by_contra close
      exact open_ ⟨x,member,new,y,held,by simpa using close⟩

/-- A chain to which nothing more is near holds all that is linked to it. -/
theorem Linked.mem_of_closed {g : List α} (symmetric : ∀ a b, near a b = near b a)
    (closed : ∀ x ∈ xs, x ∉ g → ∀ y ∈ g, near x y = false) {a b : α} (linked : Linked near xs a b) (first : a ∈ g) :
    b ∈ g := by
  induction linked with
  | refl => exact first
  | tail _ step ih =>
    by_contra outside
    have far := closed _ step.2.2 outside _ ih
    rw [symmetric,step.1] at far
    cases far

theorem exists_rest {g : List α} (once : g.Nodup) (inside : ∀ x ∈ g, x ∈ xs) : ∃ rest, xs.Perm (g ++ rest) := by
  obtain ⟨g',perm,sub⟩ := List.subperm_of_subset once inside
  obtain ⟨rest,all⟩ := sub.exists_perm_append
  exact ⟨rest,all.trans (perm.append_right rest)⟩

/-- In some order, what is linked to an element is one group. -/
theorem exists_component (symmetric : ∀ a b, near a b = near b a) {x : α} (member : x ∈ xs) :
    ∃ ys, xs.Perm ys ∧ ∃ g ∈ groupsOf near ys, ∀ y, y ∈ g ↔ Linked near xs x y := by
  obtain ⟨more,chained,once,inside,closed⟩ :=
    exists_whole (.single x : Chained near [x]) (List.nodup_singleton x) (by simpa using member)
  obtain ⟨rest,perm⟩ := exists_rest once inside
  have folded : groupsOf near ([x] ++ more ++ rest) =
      rest.foldl (fun gs x => place near x gs) (more.foldl (fun gs x => place near x gs) [[x]]) := by
    simp [groupsOf,place]
  rw [foldl_place_chained chained (by simp)] at folded
  obtain ⟨caught,missed,_,grown,_⟩ := foldl_place_cons near rest ([x] ++ more) []
  have first : [x] ++ more ++ caught ∈ groupsOf near ([x] ++ more ++ rest) := by
    rw [folded,grown]
    exact List.mem_cons_self
  refine ⟨_,perm,_,first,fun y => ⟨fun held => ?_,fun linked => ?_⟩⟩
  · exact ((grouped_groupsOf _).linked symmetric first (by simp) held).perm perm.symm
  · exact List.mem_append_left _ (linked.mem_of_closed symmetric closed (by simp))

/-- Two groups stay two, and what joins the second is not near to the first. -/
theorem foldl_place_two (near : α → α → Bool) (rest g h : List α) :
    ∃ caught caught' gs, rest.foldl (fun gs x => place near x gs) [g,h] = (g ++ caught) :: (h ++ caught') :: gs ∧
      ∀ x ∈ caught', x ∈ rest ∧ ∀ y ∈ g, near x y = false := by
  obtain ⟨caught,missed,perm,folded,free⟩ := foldl_place_cons near rest g [h]
  obtain ⟨caught',missed',perm',folded',_⟩ := foldl_place_cons near missed h []
  refine ⟨caught,caught',_,by rw [folded,folded'],fun x held => ?_⟩
  have left : x ∈ missed := perm'.mem_iff.mp (List.mem_append_left _ held)
  exact ⟨perm.mem_iff.mp (List.mem_append_right _ left),free x left⟩

/-- In some order, two elements that are not near to each other are in different groups. -/
theorem exists_apart {x y : α} (first : x ∈ xs) (second : y ∈ xs) (other : x ≠ y)
    (far : near y x = false) : ∃ ys, xs.Perm ys ∧ ∃ g h gs, groupsOf near ys = g :: h :: gs ∧ x ∈ g ∧ y ∈ h := by
  have inside : ∀ z ∈ [x,y], z ∈ xs := by simp [first,second]
  obtain ⟨rest,perm⟩ := exists_rest (by simpa using other) inside
  obtain ⟨caught,caught',gs,folded,_⟩ := foldl_place_two near rest [x] [y]
  refine ⟨_,perm,[x] ++ caught,[y] ++ caught',gs,?_,by simp,by simp⟩
  rw [← folded]
  simp [groupsOf,place,far]

/-- In some order, two elements are in one group to which a third, near to neither, is not near. -/
theorem exists_pair (near : α → α → Bool) {a c d : α} (inside : ∀ x ∈ [a,c,d], x ∈ xs) (once : [a,c,d].Nodup) (whole : xs.Nodup)
    (far : near c a = false) (far' : near d a = false) (close : near d c = true) :
    ∃ ys, xs.Perm ys ∧ ∃ g ∈ groupsOf near ys, c ∈ g ∧ d ∈ g ∧ ∀ x ∈ g, x ≠ a ∧ near x a = false := by
  obtain ⟨rest,perm⟩ := exists_rest once inside
  obtain ⟨caught,caught',gs,folded,free⟩ := foldl_place_two near rest [a] [c,d]
  refine ⟨_,perm,[c,d] ++ caught',?_,by simp,by simp,?_⟩
  · have start : groupsOf near ([a,c,d] ++ rest) = rest.foldl (fun gs x => place near x gs) [[a],[c,d]] := by
      simp [groupsOf,place,far,far',close]
    rw [start,folded]
    simp
  · have distinct := perm.nodup_iff.mp whole
    rw [List.nodup_append] at distinct
    intro x held
    rcases List.mem_append.mp held with pair | later
    · rcases List.mem_pair.mp pair with rfl | rfl
      · exact ⟨fun same => (List.nodup_cons.mp once).1 (by simp [same]),far⟩
      · exact ⟨fun same => (List.nodup_cons.mp once).1 (by simp [same]),far'⟩
    · obtain ⟨left,free⟩ := free x later
      exact ⟨fun same => distinct.2.2 a (by simp) x left same.symm,free a (by simp)⟩

theorem exists_last {p : α → Prop} (some : ∃ x ∈ xs, p x) :
    ∃ before x after, xs = before ++ x :: after ∧ p x ∧ ∀ z ∈ after, ¬p z := by
  induction xs with
  | nil => simp at some
  | cons y ys ih =>
    by_cases later : ∃ x ∈ ys, p x
    · obtain ⟨before,x,after,rfl,holds,none⟩ := ih later
      exact ⟨y :: before,x,after,rfl,holds,none⟩
    · obtain ⟨x,member,holds⟩ := some
      rcases List.mem_cons.mp member with rfl | member
      · exact ⟨[],x,ys,rfl,holds,fun z held holds => later ⟨z,held,holds⟩⟩
      · exact absurd ⟨x,member,holds⟩ later

theorem chained_star {y : α} {zs : List α} (close : ∀ z ∈ zs, near z y) : Chained near ([y] ++ zs) := by
  induction zs using List.reverseRecOn with
  | nil => exact .single y
  | append_singleton zs z ih =>
    rw [← List.append_assoc]
    exact (ih (fun x member => close x (List.mem_append_left _ member))).snoc (by simp) (close z (by simp))

/-- In some order, what comes to stand with an element leaves out a chain that begins with
something the element is not near to. -/
theorem exists_cut (whole : xs.Nodup) {y l : α} {front : List α} (chained : Chained near ([y] ++ front))
    (once : ([y,l] ++ front).Nodup) (inside : ∀ z ∈ [y,l] ++ front, z ∈ xs) (far : near l y = false) :
    ∃ ys, xs.Perm ys ∧ ∃ g ∈ groupsOf near ys, l ∈ g ∧ ∀ z ∈ g, z ∉ [y] ++ front := by
  obtain ⟨rest,perm⟩ := exists_rest once inside
  obtain ⟨caught,caught',gs,folded,free⟩ := foldl_place_two near rest ([y] ++ front) [l]
  have start : groupsOf near ([y,l] ++ front ++ rest) =
      rest.foldl (fun gs x => place near x gs) (front.foldl (fun gs x => place near x gs) [[y],[l]]) := by
    simp [groupsOf,place,far]
  rw [foldl_place_chained chained (by simp),folded] at start
  have distinct := perm.nodup_iff.mp whole
  rw [List.nodup_append] at distinct
  refine ⟨_,perm,[l] ++ caught',by rw [start]; simp,by simp,?_⟩
  intro z held behind
  rcases List.mem_cons.mp held with rfl | later
  · simp only [List.cons_append,List.nil_append,List.nodup_cons,List.mem_cons] at once behind
    exact behind.elim (fun same => once.1 (.inl same.symm)) once.2.1
  · refine distinct.2.2 z ?_ z (free z later).1 rfl
    simp only [List.cons_append,List.nil_append,List.mem_cons] at behind ⊢
    exact behind.imp id .inr

/-- If an element with a property is linked but not near to another element, then some order leaves
a group with one such element: the other element and all that is near to it come to stand
in an earlier group, and so does everything on the way to the last such element. -/
theorem exists_alone (symmetric : ∀ a b, near a b = near b a) (whole : xs.Nodup) {p : α → Prop} {x y : α}
    (member : y ∈ xs) (linked : Linked near xs y x) (other : x ≠ y) (far : near x y = false) (holds : p x) :
    ∃ ys, xs.Perm ys ∧ ∃ g ∈ groupsOf near ys, ∃ l ∈ g, Linked near xs y l ∧ p l ∧ ∀ z ∈ g, p z → z = l := by
  classical
  let around := xs.filter (fun z => z ≠ y ∧ near z y)
  have mem_around : ∀ z, z ∈ around ↔ z ∈ xs ∧ z ≠ y ∧ near z y := by simp [around]
  have star : Chained near ([y] ++ around) := chained_star (fun z held => ((mem_around z).mp held).2.2)
  have once : ([y] ++ around).Nodup :=
    List.nodup_cons.mpr ⟨fun held => ((mem_around y).mp held).2.1 rfl,whole.filter _⟩
  have inside : ∀ z ∈ [y] ++ around, z ∈ xs :=
    List.forall_mem_cons.mpr ⟨member,fun z held => ((mem_around z).mp held).1⟩
  obtain ⟨more,chained,once,inside,closed⟩ := exists_whole star once inside
  have reached : ∀ z, Linked near xs y z → z ∈ [y] ++ around ++ more :=
    fun z linked => linked.mem_of_closed symmetric closed (by simp)
  have late : x ∈ more := by
    rcases List.mem_append.mp (reached x linked) with early | late
    · rcases List.mem_cons.mp early with same | held
      · exact absurd same other
      · exact absurd ((mem_around x).mp held).2.2 (by simp [far])
    · exact late
  obtain ⟨before,l,after,rfl,lead,none⟩ := exists_last ⟨x,late,holds⟩
  -- the chain up to the last such element, which the order moves to the second place
  have split : [y] ++ around ++ (before ++ l :: after) = [y] ++ (around ++ before) ++ l :: after := by simp
  rw [split] at chained once inside reached
  have moved : ([y] ++ (around ++ before) ++ [l]).Perm ([y,l] ++ (around ++ before)) := by
    have back : (around ++ before ++ [l]).Perm ([l] ++ (around ++ before)) := List.perm_append_comm
    exact back.cons y
  have sub : ([y] ++ (around ++ before) ++ [l]).Sublist ([y] ++ (around ++ before) ++ l :: after) := by simp
  have distinct := moved.nodup_iff.mp (once.sublist sub)
  have known : ∀ z ∈ [y,l] ++ (around ++ before), z ∈ xs :=
    fun z held => inside z (sub.subset (moved.mem_iff.mpr held))
  have apart : near l y = false := by
    by_contra close
    simp only [List.cons_append,List.nil_append,List.nodup_cons,List.mem_cons] at distinct
    have held : l ∈ around := (mem_around l).mpr ⟨known l (by simp),fun same => distinct.1 (.inl same.symm),by simpa using close⟩
    exact distinct.2.1 (List.mem_append_left _ held)
  obtain ⟨ys,perm,g,member,here,free⟩ := exists_cut whole (chained.before (by simp)) distinct known apart
  have toLast : Linked near xs y l := by
    refine chained.linked symmetric inside (by simp) ?_
    simp
  refine ⟨ys,perm,g,member,l,here,toLast,lead,fun z held holds => ?_⟩
  have linked := toLast.trans (((grouped_groupsOf ys).linked symmetric member here held).perm perm.symm)
  rcases List.mem_append.mp (reached z linked) with early | late
  · exact absurd early (free z held)
  · rcases List.mem_cons.mp late with same | later
    · exact same
    · exact absurd holds (none z later)

end Suixinji.Grouping
