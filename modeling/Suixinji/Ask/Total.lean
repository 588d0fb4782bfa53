import Suixinji.Ask.Rounds

/-! When a plan is executed in full: over every order in which its futures finish,
exactly when its units have ids of their own and what the tools return can be shown. -/
namespace Suixinji.Ask
open Suixinji.Checked

section Places

variable {plan : AskPlan}

theorem future_eq {f g : Future} (there : f ∈ plan.units.zipIdx) (there' : g ∈ plan.units.zipIdx) (same : f.2 = g.2) : f = g := by
  rw [List.mem_zipIdx_iff_getElem?] at there there'
  rw [same,there'] at there
  exact Prod.ext (Option.some.inj there).symm same

theorem futures_nodup : plan.units.zipIdx.Nodup := by
  apply List.Nodup.of_map Prod.snd
  rw [List.zipIdx_map_snd]
  exact List.nodup_range' ..

theorem futures_ids : plan.units.zipIdx.map (·.1.id) = plan.units.map (·.id) := by
  have firsts : plan.units.zipIdx.map Prod.fst = plan.units := List.zipIdx_map_fst 0 plan.units
  calc plan.units.zipIdx.map (·.1.id) = (plan.units.zipIdx.map Prod.fst).map (·.id) := (List.map_map ..).symm
    _ = plan.units.map (·.id) := by rw [firsts]

theorem mem_readyUnits {completed : Finset String} {f : Future} : f ∈ readyUnits plan completed ↔
    f ∈ plan.units.zipIdx ∧ f.1.id ∉ completed ∧ ∀ parent ∈ f.1.dependsOn, parent ∈ completed := by
  simp [readyUnits]

end Places

section Loop

variable {lib : Library} {plan : AskPlan} {tools : Nat → Outcome} {timing : Timing}

/-- These futures have been run, in this order, and nothing else has happened. -/
structure Ran (lib : Library) (plan : AskPlan) (tools : Nat → Outcome) (timing : Timing) (run : List Future) (s : Progress) : Prop where
  bundles : s.bundles = run.map (bundleOf lib tools timing)
  completed : s.completed = (run.map (·.1.id)).toFinset
  inside : run ⊆ plan.units.zipIdx
  nodup : run.Nodup
  started : ∀ start ∈ s.started, ∀ parent ∈ start.unit.dependsOn, parent ∈ start.answered
  first : ∀ f ∈ run, timing.yielded = [f.2] → ∃ pre post, run = pre ++ f::post ∧ ∀ g ∈ pre, g.1.id ≠ f.1.id

theorem Ran.initial (timing : Timing) : Ran lib plan tools timing [] {} :=
  ⟨rfl,rfl,List.nil_subset _,List.nodup_nil,fun _ member => (List.not_mem_nil member).elim,fun _ member => (List.not_mem_nil member).elim⟩

theorem Ran.mem_completed {run : List Future} {s : Progress} (ran : Ran lib plan tools timing run s) {id : String} :
    id ∈ s.completed ↔ ∃ f ∈ run, f.1.id = id := by
  rw [ran.completed,List.mem_toFinset,List.mem_map]

theorem roundOrder_alone {completed : Finset String} {f : Future} (member : f ∈ readyUnits plan completed)
    (alone : timing.yielded = [f.2]) : ∃ rest, roundOrder timing (readyUnits plan completed) = f::rest := by
  have found : (readyUnits plan completed).find? (fun g => g.2 = f.2) = some f := by
    have some_future : ((readyUnits plan completed).find? (fun g => g.2 = f.2)).isSome :=
      List.find?_isSome.mpr ⟨f,member,decide_eq_true rfl⟩
    obtain ⟨g,found⟩ := Option.isSome_iff_exists.mp some_future
    have there := mem_readyUnits.mp (List.mem_of_find?_eq_some found)
    rw [found,future_eq there.1 (mem_readyUnits.mp member).1 (found_place found)]
  refine ⟨(readyUnits plan completed).filter (· ∉ yieldedOf timing (readyUnits plan completed)),?_⟩
  rw [roundOrder]
  simp [yieldedOf,alone,found]

theorem Ran.round {run : List Future} {s s' : Progress} (ran : Ran lib plan tools timing run s)
    (step : runRound lib tools timing (readyUnits plan s.completed) s = .ok s') :
    Ran lib plan tools timing (run ++ roundOrder timing (readyUnits plan s.completed)) s' := by
  have adds := runRound_adds step
  have perm := roundOrder_perm timing (futures_nodup.filter _ : (readyUnits plan s.completed).Nodup)
  have ready : ∀ f ∈ roundOrder timing (readyUnits plan s.completed),
      f ∈ plan.units.zipIdx ∧ f.1.id ∉ s.completed ∧ ∀ parent ∈ f.1.dependsOn, parent ∈ s.completed :=
    fun f member => mem_readyUnits.mp (perm.mem_iff.mp member)
  -- what was run before has its id completed, and a ready unit has not
  have apart : ∀ f ∈ run, ∀ g ∈ roundOrder timing (readyUnits plan s.completed), f.1.id ≠ g.1.id :=
    fun f before g member same => (ready g member).2.1 (ran.mem_completed.mpr ⟨f,before,same⟩)
  refine ⟨?_,?_,?_,?_,?_,?_⟩
  · rw [adds.bundles,List.map_append,← ran.bundles]
    rfl
  · rw [adds.completed,List.map_append,List.toFinset_append,← ran.completed]
    rfl
  · intro f member
    rcases List.mem_append.mp member with before | member
    · exact ran.inside before
    · exact (ready f member).1
  · apply List.Nodup.append ran.nodup (perm.nodup_iff.mpr (futures_nodup.filter _))
    intro f before member
    exact apart f before f member rfl
  · intro st member
    rw [adds.started] at member
    rcases List.mem_append.mp member with before | member
    · exact ran.started st before
    · obtain ⟨f,there,rfl⟩ := List.mem_map.mp member
      intro parent waits
      obtain ⟨g,before,named⟩ := ran.mem_completed.mp ((mem_readyUnits.mp there).2.2 parent waits)
      rw [ran.bundles,List.map_map]
      exact List.mem_map.mpr ⟨g,before,(bundleOf_unitId g).trans named⟩
  · intro f member alone
    rcases List.mem_append.mp member with before | member
    · obtain ⟨pre,post,split,others⟩ := ran.first f before alone
      exact ⟨pre,post ++ roundOrder timing (readyUnits plan s.completed),by rw [split]; simp,others⟩
    · obtain ⟨rest,order⟩ := roundOrder_alone (perm.mem_iff.mp member) alone
      exact ⟨run,rest,by rw [order],fun g before => apart g before f member⟩

theorem Ran.card_lt {run : List Future} {s s' : Progress} (ran : Ran lib plan tools timing run s)
    (step : runRound lib tools timing (readyUnits plan s.completed) s = .ok s') (some_ready : readyUnits plan s.completed ≠ []) :
    s.completed.card < s'.completed.card := by
  obtain ⟨f,member⟩ := List.exists_mem_of_ne_nil _ some_ready
  have perm := roundOrder_perm timing (futures_nodup.filter _ : (readyUnits plan s.completed).Nodup)
  have after := ran.round step
  apply Finset.card_lt_card
  refine ⟨fun id before => ?_,fun back => ?_⟩
  · obtain ⟨g,there,named⟩ := ran.mem_completed.mp before
    exact after.mem_completed.mpr ⟨g,List.mem_append_left _ there,named⟩
  · exact (mem_readyUnits.mp member).2.1
      (back (after.mem_completed.mpr ⟨f,List.mem_append_right _ (perm.mem_iff.mpr member),rfl⟩))

theorem Ran.completed_subset {run : List Future} {s : Progress} (ran : Ran lib plan tools timing run s) :
    s.completed ⊆ (plan.units.map (·.id)).toFinset := by
  intro id member
  obtain ⟨f,there,rfl⟩ := ran.mem_completed.mp member
  rw [List.mem_toFinset,← futures_ids]
  exact List.mem_map_of_mem (ran.inside there)

theorem rounds_total (distinct : (plan.units.map (·.id)).Nodup)
    (next : ∀ completed : String → Prop, (∃ unit ∈ plan.units, ¬completed unit.id) →
      ∃ unit ∈ plan.units, ¬completed unit.id ∧ ∀ parent ∈ unit.dependsOn, completed parent)
    (owned : ∀ f ∈ plan.units.zipIdx, Owned lib tools timing f) {n : Nat} :
    ∀ {run : List Future} {s : Progress}, Ran lib plan tools timing run s → plan.units.length ≤ n + s.completed.card →
      ∃ run' s', rounds lib plan tools timing n s = .ok s' ∧ Ran lib plan tools timing run' s' ∧ plan.units.zipIdx ⊆ run' := by
  have ids_card : (plan.units.map (·.id)).toFinset.card = plan.units.length := by
    rw [List.toFinset_card_of_nodup distinct,List.length_map]
  have all_run : ∀ {run : List Future} {s : Progress}, Ran lib plan tools timing run s → plan.units.length ≤ s.completed.card →
      plan.units.zipIdx ⊆ run := by
    intro run s ran full f there
    have all := Finset.eq_of_subset_of_card_le ran.completed_subset (by rw [ids_card]; exact full)
    have done : f.1.id ∈ s.completed := by
      rw [all,List.mem_toFinset,← futures_ids]
      exact List.mem_map_of_mem there
    obtain ⟨g,member,same⟩ := ran.mem_completed.mp done
    rw [← futures_ids] at distinct
    rwa [List.inj_on_of_nodup_map distinct there (ran.inside member) same.symm]
  induction n with
  | zero =>
    intro run s ran enough
    exact ⟨run,s,rfl,ran,all_run ran (by omega)⟩
  | succ n ih =>
    intro run s ran enough
    rw [rounds]
    by_cases unfinished : s.completed.card < plan.units.length
    · have open_unit : ∃ unit ∈ plan.units, unit.id ∉ s.completed := by
        by_contra closed
        simp only [not_exists,not_and,not_not] at closed
        have all : (plan.units.map (·.id)).toFinset ⊆ s.completed := by
          intro id member
          obtain ⟨unit,there,rfl⟩ := List.mem_map.mp (List.mem_toFinset.mp member)
          exact closed unit there
        have := Finset.card_le_card all
        omega
      obtain ⟨unit,there,waits,parents_done⟩ := next (· ∈ s.completed) open_unit
      obtain ⟨place,there⟩ := List.mem_iff_getElem?.mp there
      have member : (unit,place) ∈ readyUnits plan s.completed :=
        mem_readyUnits.mpr ⟨List.mem_zipIdx_iff_getElem?.mpr there,waits,parents_done⟩
      have some_ready : readyUnits plan s.completed ≠ [] := List.ne_nil_of_mem member
      obtain ⟨s',step⟩ := runRound_of_owned
        (fun f (ready : f ∈ readyUnits plan s.completed) => owned f (mem_readyUnits.mp ready).1) s
      rw [if_pos unfinished,if_neg some_ready,step]
      have further := ran.card_lt step some_ready
      exact ih (ran.round step) (by omega)
    · rw [if_neg unfinished]
      exact ⟨run,s,rfl,ran,all_run ran (Nat.not_lt.mp unfinished)⟩

theorem leaveUnresolved_bundles : ∀ (units : List QueryUnit) (s : Progress),
    ∃ left : List QueryUnit, (leaveUnresolved units s).bundles =
      s.bundles ++ left.map (fun unit => emptyBundle unit .partly .unresolvedDependency) := by
  intro units
  induction units with
  | nil => exact fun s => ⟨[],by simp [leaveUnresolved]⟩
  | cons unit rest ih =>
    intro s
    rw [leaveUnresolved]
    by_cases done : unit.id ∈ s.completed
    · rw [if_pos done]
      exact ih s
    · rw [if_neg done]
      obtain ⟨left,bundles⟩ := ih { s with
        bundles := s.bundles ++ [emptyBundle unit .partly .unresolvedDependency]
        completed := insert unit.id s.completed }
      exact ⟨unit::left,by rw [bundles]; simp⟩

theorem rounds_bundles {n : Nat} : ∀ {run : List Future} {s s' : Progress}, Ran lib plan tools timing run s →
    rounds lib plan tools timing n s = .ok s' → ∃ (run' : List Future) (t : Progress) (left : List QueryUnit), Ran lib plan tools timing run' t ∧
      s'.bundles = run'.map (bundleOf lib tools timing) ++ left.map (fun unit => emptyBundle unit .partly .unresolvedDependency) := by
  induction n with
  | zero =>
    intro run s s' ran result
    cases result
    exact ⟨run,s,[],ran,by simp [ran.bundles]⟩
  | succ n ih =>
    intro run s s' ran result
    rw [rounds] at result
    split at result
    · split at result
      · cases result
        obtain ⟨left,bundles⟩ := leaveUnresolved_bundles plan.units s
        exact ⟨run,s,left,ran,by rw [bundles,ran.bundles]⟩
      · obtain ⟨middle,step,result⟩ := bind_ok.mp result
        exact ih (ran.round step) result
    · cases result
      exact ⟨run,s,[],ran,by simp [ran.bundles]⟩

end Loop

end Suixinji.Ask
