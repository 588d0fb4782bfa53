import Mathlib.Logic.Basic
import Mathlib.Tactic.Choose

/-! Labelled transition systems: runs, runs under a condition on every step, and
the induction that carries an invariant along them. -/
namespace Suixinji.Transition

variable {σ α : Type}

inductive Run (Step : σ → α → σ → Prop) : σ → List α → σ → Prop
  | nil (s) : Run Step s [] s
  | cons {s a t as u} (head : Step s a t) (tail : Run Step t as u) : Run Step s (a::as) u

/-- The steps of a system that meet a condition on the state before them. -/
def Guarded (ok : σ → α → Prop) (Step : σ → α → σ → Prop) : σ → α → σ → Prop :=
  fun s a t => ok s a ∧ Step s a t

def Reachable (Step : σ → α → σ → Prop) (start s : σ) : Prop := ∃ as, Run Step start as s

variable {Step : σ → α → σ → Prop}

theorem Run.append {s t u : σ} {as bs : List α} (first : Run Step s as t) (second : Run Step t bs u) :
    Run Step s (as ++ bs) u := by
  induction first with
  | nil => exact second
  | cons head _ ih => exact .cons head (ih second)

theorem Run.single {s t : σ} {a : α} (step : Step s a t) : Run Step s [a] t := .cons step (.nil t)

theorem Run.split {s u : σ} {as bs : List α} (run : Run Step s (as ++ bs) u) :
    ∃ t, Run Step s as t ∧ Run Step t bs u := by
  induction as generalizing s with
  | nil => exact ⟨s,.nil s,run⟩
  | cons a as ih =>
    cases run with
    | cons head tail =>
      obtain ⟨t,before,after⟩ := ih tail
      exact ⟨t,.cons head before,after⟩

theorem Run.invariant (P : σ → Prop) (preserved : ∀ s a t, P s → Step s a t → P t)
    {s t : σ} {as : List α} (run : Run Step s as t) (initial : P s) : P t := by
  induction run with
  | nil => exact initial
  | cons head _ ih => exact ih (preserved _ _ _ initial head)

theorem Run.imp {Step' : σ → α → σ → Prop} (weaker : ∀ s a t, Step s a t → Step' s a t)
    {s t : σ} {as : List α} (run : Run Step s as t) : Run Step' s as t := by
  induction run with
  | nil s => exact .nil s
  | cons head _ ih => exact .cons (weaker _ _ _ head) ih

/-- The steps of a run are under a condition that all of its labels meet. -/
theorem Run.listed {P : α → Prop} {s t : σ} {as : List α} (run : Run Step s as t) (all : ∀ a ∈ as, P a) :
    Run (Guarded (fun _ a => P a) Step) s as t := by
  induction run with
  | nil s => exact .nil s
  | cons head _ ih => exact .cons ⟨all _ List.mem_cons_self,head⟩ (ih (fun a member => all a (List.mem_cons_of_mem _ member)))

theorem Run.of_foldlM {next : σ → α → Option σ} {s t : σ} {as : List α} (computed : as.foldlM next s = some t) :
    Run (fun s a t => next s a = some t) s as t := by
  induction as generalizing s with
  | nil =>
    cases Option.some.inj computed
    exact .nil _
  | cons a as ih =>
    obtain ⟨u,head,tail⟩ := Option.bind_eq_some_iff.mp computed
    exact .cons head (ih tail)

theorem Run.of_isSome {next : σ → α → Option σ} {s : σ} {as : List α} (passes : (as.foldlM next s).isSome) :
    Run (fun s a t => next s a = some t) s as ((as.foldlM next s).getD s) := by
  obtain ⟨t,computed⟩ := Option.isSome_iff_exists.mp passes
  rw [computed]
  exact .of_foldlM computed

/-- The step function computes every run of it. -/
theorem Run.foldlM {next : σ → α → Option σ} {s t : σ} {as : List α} (run : Run (fun s a t => next s a = some t) s as t) :
    as.foldlM next s = some t := by
  induction run with
  | nil => rfl
  | cons head _ ih => exact Option.bind_eq_some_iff.mpr ⟨_,head,ih⟩

/-- The run under a condition that is checked before every step. -/
theorem Run.of_guarded_foldlM {next : σ → α → Option σ} {ok : σ → α → Prop} [∀ s a, Decidable (ok s a)] {s t : σ} {as : List α}
    (computed : as.foldlM (fun s a => if ok s a then next s a else none) s = some t) :
    Run (Guarded ok (fun s a t => next s a = some t)) s as t := by
  refine (Run.of_foldlM computed).imp (fun s a t step => ?_)
  split at step
  · rename_i allowed
    exact ⟨allowed,step⟩
  · cases step

/-- The run ends where the step function leads. -/
theorem Run.of_guarded {next : σ → α → Option σ} {ok : σ → α → Prop} [∀ s a, Decidable (ok s a)] {s : σ} {as : List α}
    (passes : (as.foldlM (fun s a => if ok s a then next s a else none) s).isSome) :
    Run (Guarded ok (fun s a t => next s a = some t)) s as ((as.foldlM next s).getD s) := by
  obtain ⟨t,computed⟩ := Option.isSome_iff_exists.mp passes
  have run := Run.of_guarded_foldlM computed
  rwa [Run.foldlM (run.imp (fun _ _ _ step => step.2))]

/-- The same, of a step function that can fail with an error. -/
theorem Run.of_checked {ε : Type} {next : σ → α → Except ε σ} {s t : σ} {as : List α}
    (computed : as.foldlM next s = .ok t) : Run (fun s a t => next s a = .ok t) s as t := by
  induction as generalizing s with
  | nil =>
    cases computed
    exact .nil _
  | cons a as ih =>
    rw [List.foldlM_cons] at computed
    cases head : next s a with
    | error e =>
      rw [head] at computed
      cases computed
    | ok u =>
      rw [head] at computed
      exact .cons head (ih computed)

theorem Reachable.refl (s : σ) : Reachable Step s s := ⟨[],.nil s⟩

theorem Reachable.tail {start s t : σ} {a : α} (reached : Reachable Step start s) (step : Step s a t) :
    Reachable Step start t := by
  obtain ⟨as,run⟩ := reached
  exact ⟨as ++ [a],run.append (.single step)⟩

theorem Reachable.invariant (P : σ → Prop) (preserved : ∀ s a t, P s → Step s a t → P t)
    {start s : σ} (reached : Reachable Step start s) (initial : P start) : P s := by
  obtain ⟨as,run⟩ := reached
  exact run.invariant P preserved initial

def Endless (R : σ → σ → Prop) (s : σ) : Prop := ∃ f : Nat → σ, f 0 = s ∧ ∀ n, R (f n) (f (n + 1))

variable {R : σ → σ → Prop}

/-- From a state with the property one step leads to another such state. -/
theorem Endless.of_again (P : σ → Prop) (again : ∀ s, P s → ∃ t, R s t ∧ P t) {s : σ} (holds : P s) : Endless R s := by
  choose next related kept using again
  let f : Nat → {s // P s} := fun n => n.rec ⟨s,holds⟩ (fun _ s => ⟨next s.1 s.2,kept s.1 s.2⟩)
  exact ⟨fun n => (f n).1,rfl,fun n => related (f n).1 (f n).2⟩

theorem Endless.cons {s t : σ} (head : R s t) (tail : Endless R t) : Endless R s := by
  obtain ⟨f,first,related⟩ := tail
  refine ⟨fun n => n.casesOn s f,rfl,?_⟩
  intro n
  cases n with
  | zero =>
    change R s (f 0)
    rwa [first]
  | succ n => exact related n

end Suixinji.Transition
