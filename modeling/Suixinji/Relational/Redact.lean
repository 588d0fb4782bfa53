import Suixinji.Relational.Pieces

/-! Patterns replaced in a text by marks, one pattern after another: which of their occurrences
are taken, which places of the text are left, and where they are shown. -/
namespace Suixinji.Redact

variable {α : Type} [DecidableEq α]

/-- Patterns by their marks, in the order of the list. -/
def traceEach (steps : List (List α × List α)) (cells : Cells α) : Cells α :=
  steps.foldl (fun cells step => replaceBy Prod.fst step.1 (unplaced step.2) 0 cells) cells

/-! ### Occurrences -/

/-- Where a pattern occurs in the text. -/
def places (p text : List α) : List Nat := (List.range text.length).filter (fun q => p <+: text.drop q)

/-- A place inside an occurrence of one of the patterns. -/
def Covered (patterns : List (List α)) (text : List α) (i : Nat) : Prop :=
  ∃ p ∈ patterns, ∃ q ∈ places p text, q ≤ i ∧ i < q + p.length

instance {patterns : List (List α)} {text : List α} {i : Nat} : Decidable (Covered patterns text i) :=
  inferInstanceAs (Decidable (∃ p ∈ patterns, ∃ q ∈ places p text, q ≤ i ∧ i < q + p.length))

theorem Covered.lt {patterns : List (List α)} {text : List α} {i : Nat} (covered : Covered patterns text i) : i < text.length := by
  obtain ⟨p,-,q,there,-,within⟩ := covered
  obtain ⟨start,occurs⟩ := List.mem_filter.mp there
  have length := (of_decide_eq_true occurs).length_le
  rw [List.length_drop] at length
  rw [List.mem_range] at start
  omega

/-- From the place on, the occurrences of the pattern that have nothing in common with those that
were taken before. -/
def taken (p m : List α) : Nat → List α → List (Hole α) → List (Hole α)
  | _,[],_ => []
  | q,a::rest,before =>
    if p <+: a::rest ∧ ∀ j < p.length, ¬Inside before (q + j)
    then ⟨q,p.length,m⟩::taken p m (q + 1) rest (⟨q,p.length,m⟩::before)
    else taken p m (q + 1) rest before

def Hole.marked (p m : List α) (h : Hole α) : Hole α := { h with shown := replaceAll p m h.shown }

/-- One more pattern, which is replaced in the marks that are there as well. -/
def takeStep (text : List α) (before : List (Hole α)) (step : List α × List α) : List (Hole α) :=
  taken step.1 step.2 0 text before ++ before.map (·.marked step.1 step.2)

/-- The occurrences that are taken, pattern by pattern and from left to right: each that has
nothing in common with one taken before it. -/
def takenEach (steps : List (List α × List α)) (text : List α) : List (Hole α) := steps.foldl (takeStep text) []

/-- The text before anything of it is gone. -/
def untouched (text : List α) (holes : List (Hole α)) : List α := text.take ((holes.map (·.start)).foldl min text.length)

/-- No pattern is empty, and from the first that occurs in the text on each is clear. -/
def LegibleEach (e : Fence α) (text : List α) : List (List α) → Prop
  | [] => True
  | p::rest => p ≠ [] ∧ if p <:+: text then ∀ p' ∈ rest, e.Clear p' else LegibleEach e text rest

instance decidableLegibleEach {e : Fence α} {text : List α} : (patterns : List (List α)) → Decidable (LegibleEach e text patterns)
  | [] => inferInstanceAs (Decidable True)
  | p::rest =>
    have : Decidable (LegibleEach e text rest) := decidableLegibleEach rest
    inferInstanceAs (Decidable (p ≠ [] ∧ if p <:+: text then ∀ p' ∈ rest, e.Clear p' else LegibleEach e text rest))

section
variable {p m : List α} {before : List (Hole α)}

theorem taken_inside (some_text : p ≠ []) {o text : List α} {q : Nat} (inside : ∀ j < o.length, Inside before (q + j)) :
    taken p m q (o ++ text) before = taken p m (q + o.length) text before := by
  induction o generalizing q with
  | nil => rfl
  | cons a o ih =>
    have here : Inside before (q + 0) := inside 0 (Nat.succ_pos _)
    rw [List.cons_append,taken,if_neg (fun free => free.2 0 (List.length_pos_of_ne_nil some_text) here),ih,List.length_cons]
    · congr 1
      omega
    · intro j short
      rw [show q + 1 + j = q + (j + 1) by omega]
      exact inside (j + 1) (Nat.succ_lt_succ short)

theorem shown_taken {q : Nat} {text : List α} {h : Hole α} (there : h ∈ taken p m q text before) : h.shown = m := by
  induction text generalizing q before with
  | nil => cases there
  | cons a rest ih =>
    rw [taken] at there
    split at there
    · rcases List.mem_cons.mp there with rfl | there
      · rfl
      · exact ih there
    · exact ih there

/-- What the marks and the replacement in them keep holds of all that is shown. -/
theorem takenEach_marks {Q : List α → Prop} {steps : List (List α × List α)} {text : List α} (given : ∀ step ∈ steps, Q step.2)
    (kept : ∀ step ∈ steps, ∀ k, Q k → Q (replaceAll step.1 step.2 k)) : ∀ h ∈ takenEach steps text, Q h.shown := by
  have each (before : List (Hole α)) (old : ∀ h ∈ before, Q h.shown) : ∀ h ∈ steps.foldl (takeStep text) before, Q h.shown := by
    induction steps generalizing before with
    | nil => exact old
    | cons step steps ih =>
      obtain ⟨here,given⟩ := List.forall_mem_cons.mp given
      obtain ⟨keeps,kept⟩ := List.forall_mem_cons.mp kept
      refine ih given kept _ (fun h there => ?_)
      rcases List.mem_append.mp there with new | again
      · exact shown_taken new ▸ here
      · obtain ⟨old_one,member,rfl⟩ := List.mem_map.mp again
        exact keeps _ (old old_one member)
  exact each [] (fun h there => nomatch there)

theorem foldl_min {n bound : Nat} {starts : List Nat} (le : ∀ a ∈ starts, n ≤ a) (le_bound : n ≤ bound) (reached : n ∈ starts ∨ n = bound) :
    starts.foldl min bound = n := by
  induction starts generalizing bound with
  | nil => exact (reached.resolve_left List.not_mem_nil).symm
  | cons a starts ih =>
    obtain ⟨here,le⟩ := List.forall_mem_cons.mp le
    refine ih le (Nat.le_min.mpr ⟨le_bound,here⟩) ?_
    rcases reached with there | rfl
    · rcases List.mem_cons.mp there with rfl | there
      · exact .inr (Nat.min_eq_right le_bound).symm
      · exact .inl there
    · exact .inr (Nat.min_eq_left here).symm

end

namespace Piece

/-- The pieces after a pattern is replaced, which may change what is shown of a mark. -/
def redact (p m : List α) : Nat → List (Piece α) → List (Piece α)
  | _,[] => []
  | k+1,_::rest => redact p m k rest
  | 0,.char a::rest =>
    if p <+: a::run rest then .gone p m::redact p m (p.length - 1) rest else .char a::redact p m 0 rest
  | 0,.gone o k::rest => .gone o (replaceAll p m k)::redact p m 0 rest

section
variable {e : Fence α} {p m : List α} {ps rest : List (Piece α)} {k : Nat}

theorem replaceBy_mark {k : List α} (clear : e.Clear p) (mark : e.Marks k) {tail : Cells α} :
    replaceBy Prod.fst p (unplaced m) 0 (unplaced k ++ tail) =
      unplaced (replaceAll p m k) ++ replaceBy Prod.fst p (unplaced m) 0 tail := by
  obtain ⟨mid,rfl,⟨a,head,-⟩,⟨b,last,ends⟩⟩ := mark.fenced
  have ends' : ∀ c ∈ (unplaced (e.opening::mid)).getLast?, c.1 ∈ e.last := by
    intro c there
    obtain ⟨more,rfl⟩ : ∃ more, mid = a::more := by
      cases mid with
      | nil => cases head
      | cons a' more => exact ⟨more,congrArg (·::more) (Option.some.inj head)⟩
    rw [unplaced,List.getLast?_map,List.getLast?_cons_cons,Option.mem_def.mp last] at there
    obtain rfl := Option.some.inj there
    exact ends
  have apart (tail : Cells α) : replaceBy Prod.fst p (unplaced m) 0 (unplaced (e.opening::mid) ++ (e.closing,none)::tail) =
      replaceBy Prod.fst p (unplaced m) 0 (unplaced (e.opening::mid)) ++ (e.closing,none)::replaceBy Prod.fst p (unplaced m) 0 tail :=
    replaceBy_append_closing (f := Prod.fst) rfl clear ends' (Nat.zero_le _)
  have split : unplaced (e.opening::(mid ++ [e.closing])) = unplaced (e.opening::mid) ++ [(e.closing,none)] := by
    rw [← List.cons_append,unplaced,List.map_append]
    rfl
  have alone : unplaced (replaceAll p m (e.opening::(mid ++ [e.closing]))) =
      replaceBy Prod.fst p (unplaced m) 0 (unplaced (e.opening::(mid ++ [e.closing]))) :=
    (replaceBy_map (f := Prod.fst) (g := fun a : α => (a,(none : Option Nat)))).symm
  rw [alone,split,List.append_assoc,List.singleton_append,apart,apart []]
  simp [replaceBy]

theorem cells_redact (legible : Legible e p ps) (bound : Bound e ps) {b : Nat} (inside : k ≤ (run ps).length) :
    cells (b + k) (redact p m k ps) = replaceBy Prod.fst p (unplaced m) k (cells b ps) := by
  induction ps generalizing k b with
  | nil => cases k <;> rfl
  | cons x rest ih => cases x with
    | char a => cases k with
      | succ k =>
        rw [show b + (k + 1) = b + 1 + k by omega]
        exact ih legible.tail bound.tail (Nat.le_of_succ_le_succ inside)
      | zero =>
        have here : p <+: (cells b (.char a::rest)).map Prod.fst ↔ p <+: run (.char a::rest) :=
          prefix_cells bound (fun some => (legible.2 some).2)
        rw [cells,run] at here
        rw [redact,cells,replaceBy]
        by_cases hit : p <+: a::run rest
        · have some_length := List.length_pos_of_ne_nil legible.1
          rw [if_pos hit,if_pos (here.mpr hit),cells,← ih legible.tail bound.tail (skip_le hit)]
          rw [show b + 0 + p.length = b + 1 + (p.length - 1) by omega]
        · rw [if_neg hit,if_neg (mt here.mp hit),cells,← ih legible.tail bound.tail (Nat.zero_le _)]
          rfl
    | gone o k' => cases k with
      | succ k => exact absurd inside (Nat.not_succ_le_zero k)
      | zero =>
        have clear := legible.2 ⟨o,k',List.mem_cons_self⟩
        rw [redact,cells,cells,replaceBy_mark clear (bound o k' List.mem_cons_self).2,
          ← ih legible.tail bound.tail (Nat.zero_le _)]
        rfl

theorem text_redact (some_text : p ≠ []) (inside : k ≤ (run ps).length) : text (redact p m k ps) = (text ps).drop k := by
  induction ps generalizing k with
  | nil => cases k <;> rfl
  | cons x rest ih => cases x with
    | char a => cases k with
      | succ k => exact ih (Nat.le_of_succ_le_succ inside)
      | zero =>
        by_cases hit : p <+: a::run rest
        · obtain ⟨b,p,rfl⟩ := List.exists_cons_of_ne_nil some_text
          simp only [redact,if_pos hit,text,ih (skip_le hit)]
          exact List.prefix_iff_eq_append.mp (hit_text hit)
        · rw [redact,if_neg hit,text,ih (Nat.zero_le _)]
          rfl
    | gone o k' => cases k with
      | succ k => exact absurd inside (Nat.not_succ_le_zero k)
      | zero =>
        rw [redact,text,ih (Nat.zero_le _)]
        rfl

/-- What is gone afterwards is the pattern with its mark, or was gone before. -/
theorem gone_redact {o shown : List α} (there : gone o shown ∈ redact p m k ps) :
    o = p ∧ shown = m ∨ ∃ old, gone o old ∈ ps ∧ shown = replaceAll p m old := by
  induction ps generalizing k with
  | nil => cases k <;> cases there
  | cons x rest ih =>
    have further {k : Nat} (there : gone o shown ∈ redact p m k rest) :
        o = p ∧ shown = m ∨ ∃ old, gone o old ∈ x::rest ∧ shown = replaceAll p m old :=
      (ih there).imp_right (fun ⟨old,member,same⟩ => ⟨old,List.mem_cons_of_mem _ member,same⟩)
    cases k with
    | succ k => exact further there
    | zero => cases x with
      | char a =>
        rw [redact] at there
        split at there
        · rcases List.mem_cons.mp there with same | there
          · exact .inl (gone.inj same)
          · exact further there
        · rcases List.mem_cons.mp there with same | there
          · exact nomatch same
          · exact further there
      | gone o' old =>
        rcases List.mem_cons.mp there with same | there
        · obtain ⟨rfl,rfl⟩ := gone.inj same
          exact .inr ⟨old,List.mem_cons_self,rfl⟩
        · exact further there

theorem Bound.redact (legible : Legible e p ps) (mark : e.Marks m) (bound : Bound e ps) : Bound e (redact p m k ps) := by
  intro o shown there
  rcases gone_redact there with ⟨rfl,rfl⟩ | ⟨old,member,rfl⟩
  · exact ⟨legible.1,mark⟩
  · obtain ⟨some_text,old_mark⟩ := bound o old member
    exact ⟨some_text,mark.replaceAll (legible.2 ⟨o,old,member⟩) old_mark⟩

theorem redact_eq_self {whole : List α} (absent : ¬p <:+: whole) : redact p m 0 (whole.map char) = whole.map char := by
  induction whole with
  | nil => rfl
  | cons a rest ih =>
    have run_char (whole : List α) : run (whole.map char) = whole := by
      induction whole with
      | nil => rfl
      | cons a rest ih => exact congrArg (a::·) ih
    rw [List.map_cons,redact,run_char,if_neg (fun there => absent there.isInfix),
      ih (fun there => absent (there.trans (List.suffix_cons _ _).isInfix))]

/-- What the pieces lose to a pattern are the occurrences that are taken: those of which
everything stayed. -/
theorem holes_redact {before : List (Hole α)} {q : Nat} (some_text : p ≠ []) (each : ∀ o k, gone o k ∈ ps → o ≠ [])
    (inside : k ≤ (run ps).length) (skipped : ∀ j < k, Inside before (q + j))
    (same : ∀ j, k ≤ j → j < (text ps).length → (Stays ps j ↔ ¬Inside before (q + j))) :
    (holes (q + k) (redact p m k ps)).Perm (taken p m q (text ps) before ++ (holes q ps).map (·.marked p m)) := by
  induction ps generalizing k q before with
  | nil => cases k <;> exact .refl _
  | cons x rest ih =>
    have each' : ∀ o k, gone o k ∈ rest → o ≠ [] := fun o k there => each o k (List.mem_cons_of_mem _ there)
    cases x with
    | char a => cases k with
      | succ k =>
        have here : taken p m q (text (.char a::rest)) before = taken p m (q + 1) (text rest) before :=
          taken_inside (o := [a]) some_text (fun j short => skipped j (by rw [List.length_singleton] at short; omega))
        rw [here,show q + (k + 1) = q + 1 + k by omega]
        refine ih each' (Nat.le_of_succ_le_succ inside) (fun j short => ?_) (fun j after short => ?_)
        · rw [show q + 1 + j = q + (j + 1) by omega]
          exact skipped (j + 1) (Nat.succ_lt_succ short)
        · rw [show q + 1 + j = q + (j + 1) by omega]
          exact same (j + 1) (Nat.succ_le_succ after) (Nat.succ_lt_succ short)
      | zero =>
        have shifted : ∀ j, j < (text rest).length → (Stays rest j ↔ ¬Inside before (q + 1 + j)) := by
          intro j short
          rw [show q + 1 + j = q + (j + 1) by omega]
          exact same (j + 1) (Nat.zero_le _) (Nat.succ_lt_succ short)
        have free : (p <+: a::text rest ∧ ∀ j < p.length, ¬Inside before (q + j)) ↔ p <+: a::run rest := by
          constructor
          · rintro ⟨there,outside⟩
            have starts : run (.char a::rest) <+: text (.char a::rest) := run_prefix_text
            refine List.prefix_of_prefix_length_le there starts (le_run each (fun j short => ?_))
            exact (same j (Nat.zero_le j) (Nat.lt_of_lt_of_le short there.length_le)).mpr (outside j short)
          · intro hit
            refine ⟨hit_text hit,fun j short => ?_⟩
            have within : j < (run (.char a::rest)).length := Nat.lt_of_lt_of_le short hit.length_le
            exact (same j (Nat.zero_le j) (Nat.lt_of_lt_of_le within run_prefix_text.length_le)).mp (stays_of_run within)
        rw [redact,text,taken]
        by_cases hit : p <+: a::run rest
        · have some_length := List.length_pos_of_ne_nil some_text
          rw [if_pos hit,if_pos (free.mpr hit),holes,holes]
          refine .cons _ ?_
          rw [show q + 0 + p.length = q + 1 + (p.length - 1) by omega]
          refine ih each' (skip_le hit) (fun j short => inside_cons.mpr (.inl ?_)) (fun j after short => ?_)
          · dsimp only
            omega
          · rw [shifted j short,inside_cons,or_iff_right]
            dsimp only
            omega
        · rw [if_neg hit,if_neg (mt free.mp hit),holes,holes]
          exact ih each' (Nat.zero_le _) (fun j none => absurd none (Nat.not_lt_zero j)) (fun j _ => shifted j)
    | gone o k' => cases k with
      | succ k => exact absurd inside (Nat.not_succ_le_zero k)
      | zero =>
        have lost : ∀ j < o.length, Inside before (q + j) := fun j short => by
          by_contra outside
          have := (same j (Nat.zero_le j) (by rw [text,List.length_append]; omega)).mpr outside
          exact absurd this.1 (Nat.not_le.mpr short)
        rw [Nat.add_zero,redact,text,holes,holes,taken_inside some_text lost,List.map_cons]
        refine (List.Perm.cons _ ?_).trans List.perm_middle.symm
        refine ih (q := q + o.length) each' (Nat.zero_le _) (fun j none => absurd none (Nat.not_lt_zero j)) (fun j _ short => ?_)
        have whole := same (o.length + j) (Nat.zero_le _) (by rw [text,List.length_append]; omega)
        rw [← Nat.add_assoc] at whole
        rw [← whole]
        constructor
        · intro stays
          exact ⟨Nat.le_add_right _ _,by rwa [Nat.add_sub_cancel_left]⟩
        · rintro ⟨-,stays⟩
          rwa [Nat.add_sub_cancel_left] at stays

end
end Piece

/-! ### Pattern after pattern -/

/-- The cells are what is shown of pieces of the text, of which the holes are gone. -/
structure Traced (e : Fence α) (text : List α) (cells : Cells α) (holes : List (Hole α)) (ps : List (Piece α)) : Prop where
  whole : Piece.text ps = text
  shown : Piece.cells 0 ps = cells
  bound : Piece.Bound e ps
  holes : (Piece.holes 0 ps).Perm holes

/-- Each pattern is legible when its turn comes. -/
def Readable (e : Fence α) : List (List α × List α) → List (Piece α) → Prop
  | [],_ => True
  | step::steps,ps => Piece.Legible e step.1 ps ∧ Readable e steps (Piece.redact step.1 step.2 0 ps)

section
variable {e : Fence α} {text : List α} {cells : Cells α} {holes : List (Hole α)} {ps : List (Piece α)}
variable {steps : List (List α × List α)}

theorem Readable.of_clear (clear : ∀ step ∈ steps, e.Clear step.1) : Readable e steps ps := by
  induction steps generalizing ps with
  | nil => trivial
  | cons step steps ih =>
    obtain ⟨here,clear⟩ := List.forall_mem_cons.mp clear
    exact ⟨⟨here.1,fun _ => here⟩,ih clear⟩

theorem Readable.of_legible (legible : LegibleEach e text (steps.map Prod.fst)) : Readable e steps (text.map .char) := by
  induction steps with
  | nil => trivial
  | cons step steps ih =>
    obtain ⟨some_text,after⟩ := legible
    refine ⟨⟨some_text,fun ⟨o,k,there⟩ => (Piece.gone_map_char there).elim⟩,?_⟩
    split at after
    · exact .of_clear (fun step there => after _ (List.mem_map_of_mem there))
    · rename_i absent
      rw [Piece.redact_eq_self absent]
      exact ih after

omit [DecidableEq α] in
theorem Traced.whole_text : Traced e text (placed text 0) [] (text.map .char) where
  whole := Piece.text_map_char
  shown := Piece.cells_map_char
  bound := Piece.bound_map_char
  holes := by rw [Piece.holes_eq_nil (fun _ _ => Piece.gone_map_char)]

omit [DecidableEq α] in
theorem Traced.stays_iff (traced : Traced e text cells holes ps) {i : Nat} (short : i < text.length) :
    Piece.Stays ps i ↔ ¬Inside holes i := by
  rw [← traced.whole] at short
  rw [Piece.stays_iff (i := 0) short,Nat.zero_add,Inside.perm traced.holes]

theorem Traced.step {p m : List α} (legible : Piece.Legible e p ps) (mark : e.Marks m) (traced : Traced e text cells holes ps) :
    Traced e text (replaceBy Prod.fst p (unplaced m) 0 cells) (takeStep text holes (p,m)) (Piece.redact p m 0 ps) where
  whole := (Piece.text_redact legible.1 (Nat.zero_le _)).trans traced.whole
  shown := by
    rw [← traced.shown]
    exact Piece.cells_redact legible traced.bound (Nat.zero_le _)
  bound := traced.bound.redact legible mark
  holes := by
    have each : (Piece.holes (0 + 0) (Piece.redact p m 0 ps)).Perm
        (taken p m 0 (Piece.text ps) holes ++ (Piece.holes 0 ps).map (·.marked p m)) := by
      refine Piece.holes_redact legible.1 (fun o k there => (traced.bound o k there).1) (Nat.zero_le _)
        (fun j none => absurd none (Nat.not_lt_zero j)) (fun j _ short => ?_)
      rw [Nat.zero_add]
      exact traced.stays_iff (traced.whole ▸ short)
    rw [traced.whole] at each
    exact each.trans (.append_left _ (traced.holes.map _))

theorem Traced.each {more : List (List α × List α)} (readable : Readable e (steps ++ more) ps) (marks : ∀ step ∈ steps, e.Marks step.2)
    (traced : Traced e text cells holes ps) :
    ∃ ps', Traced e text (traceEach steps cells) (steps.foldl (takeStep text) holes) ps' ∧ Readable e more ps' := by
  induction steps generalizing cells holes ps with
  | nil => exact ⟨ps,traced,readable⟩
  | cons step steps ih =>
    obtain ⟨here,marks⟩ := List.forall_mem_cons.mp marks
    exact ih readable.2 marks (traced.step readable.1 here)

omit [DecidableEq α] in
theorem Traced.untouched (traced : Traced e text cells holes ps) : untouched text holes = Piece.run ps := by
  have within : Piece.run ps <+: text := traced.whole ▸ Piece.run_prefix_text
  have reaches : (holes.map (·.start)).foldl min text.length = (Piece.run ps).length := by
    refine foldl_min (fun a there => ?_) within.length_le ?_
    · obtain ⟨h,member,rfl⟩ := List.mem_map.mp there
      have := Piece.le_start (traced.holes.mem_iff.mpr member)
      omega
    · rcases (Piece.shown_run : (∀ o k, .gone o k ∉ ps) ∧ (Piece.cells 0 ps).map Prod.fst = _ ∨ _) with ⟨none,-⟩ | ⟨o,k,-,there,-⟩
      · exact .inr (by rw [Piece.run_eq_text none,traced.whole])
      · obtain ⟨h,member,start⟩ := Piece.exists_hole (i := 0) there
        exact .inl (List.mem_map.mpr ⟨h,traced.holes.mem_iff.mp member,by rw [start,Nat.zero_add]⟩)
  rw [Redact.untouched,reaches]
  exact (List.prefix_iff_eq_take.mp within).symm

omit [DecidableEq α] in
/-- The places that are shown are those that no hole has. -/
theorem Traced.mem_cells (traced : Traced e text cells holes ps) {i : Nat} :
    some i ∈ cells.map Prod.snd ↔ i < text.length ∧ ¬Inside holes i := by
  rw [← traced.shown,Piece.mem_cells,Nat.sub_zero,and_iff_right (Nat.zero_le i)]
  constructor
  · intro stays
    have short := traced.whole ▸ stays.lt
    exact ⟨short,(traced.stays_iff short).mp stays⟩
  · exact fun ⟨short,outside⟩ => (traced.stays_iff short).mpr outside

omit [DecidableEq α] in
theorem Traced.mem_take_cells (traced : Traced e text cells holes ps) {i n : Nat} :
    some i ∈ (cells.take n).map Prod.snd ↔ i < text.length ∧ ¬Inside holes i ∧ shift holes i < n := by
  have each : ∀ o k, Piece.gone o k ∈ ps → o ≠ [] := fun o k there => (traced.bound o k there).1
  rw [← traced.shown,Piece.mem_take_cells,Nat.sub_zero,and_iff_right (Nat.zero_le i)]
  constructor
  · intro ⟨stays,ahead⟩
    have short := traced.whole ▸ stays.lt
    rw [Piece.ahead_eq_shift each stays,shift_perm traced.holes] at ahead
    exact ⟨short,(traced.stays_iff short).mp stays,ahead⟩
  · intro ⟨short,outside,ahead⟩
    have stays := (traced.stays_iff short).mpr outside
    rw [Piece.ahead_eq_shift each stays,shift_perm traced.holes]
    exact ⟨stays,ahead⟩

end
end Suixinji.Redact
