import Suixinji.Ask.Execute

/-! What a round adds: the own bundle of each of its futures, those yielded first.
It raises when one of the futures that are done cannot be made a bundle. -/
namespace Suixinji.Ask
open Suixinji.Checked

section Round

variable {lib : Library} {tools : Nat → Outcome} {timing : Timing}

def Owned (lib : Library) (tools : Nat → Outcome) (timing : Timing) (f : Future) : Prop := ∃ b, ownBundle lib tools timing f = .ok b

def bundleOf (lib : Library) (tools : Nat → Outcome) (timing : Timing) (f : Future) : UnitEvidenceBundle :=
  (ownBundle lib tools timing f).toOption.getD (emptyBundle f.1 .partly .unresolvedDependency)

theorem Owned.bundle {f : Future} (owned : Owned lib tools timing f) : ownBundle lib tools timing f = .ok (bundleOf lib tools timing f) := by
  obtain ⟨b,own⟩ := owned
  rw [bundleOf,own]
  rfl

theorem bundleOf_unitId (f : Future) : (bundleOf lib tools timing f).unitId = f.1.id := by
  unfold bundleOf ownBundle
  split
  · cases ran : lib.resolve f.1 (tools f.2).result.1 (tools f.2).result.2 with
    | error e => rfl
    | ok b => exact (resolve_bundle ran).1
  · rfl

/-- These futures, in this order, and nothing else were given their bundles. -/
structure Adds (lib : Library) (tools : Nat → Outcome) (timing : Timing) (fs : List Future) (s s' : Progress) : Prop where
  owned : ∀ f ∈ fs, Owned lib tools timing f
  bundles : s'.bundles = s.bundles ++ fs.map (bundleOf lib tools timing)
  completed : s'.completed = s.completed ∪ (fs.map (·.1.id)).toFinset
  started : s'.started = s.started

theorem Adds.refl (s : Progress) : Adds lib tools timing [] s s :=
  ⟨fun _ member => (List.not_mem_nil member).elim,by simp,by simp,rfl⟩

theorem Adds.trans {fs gs : List Future} {s t u : Progress} (first : Adds lib tools timing fs s t) (second : Adds lib tools timing gs t u) :
    Adds lib tools timing (fs ++ gs) s u where
  owned := List.forall_mem_append.mpr ⟨first.owned,second.owned⟩
  bundles := by rw [second.bundles,first.bundles,List.map_append,List.append_assoc]
  completed := by rw [second.completed,first.completed,List.map_append,List.toFinset_append,Finset.union_assoc]
  started := second.started.trans first.started

theorem consume_ok {f : Future} {s s' : Progress} (done : timing.done f.2) (ran : consume lib tools f s = .ok s') :
    Adds lib tools timing [f] s s' := by
  obtain ⟨bundle,resolved,ran⟩ := bind_ok.mp ran
  have own : ownBundle lib tools timing f = .ok bundle := by rw [ownBundle,if_pos done]; exact resolved
  have same : bundleOf lib tools timing f = bundle := by rw [bundleOf,own]; rfl
  cases ran
  exact ⟨by simpa [Owned] using ⟨bundle,own⟩,by simp [same],by simp,rfl⟩

theorem consume_of_owned {f : Future} (done : timing.done f.2) (owned : Owned lib tools timing f) (s : Progress) :
    ∃ s', consume lib tools f s = .ok s' := by
  obtain ⟨b,own⟩ := owned
  rw [ownBundle,if_pos done] at own
  exact ⟨_,bind_ok.mpr ⟨b,own,rfl⟩⟩

theorem timeOut_adds {f : Future} (late : ¬timing.done f.2) (s : Progress) : Adds lib tools timing [f] s (timeOut f s) := by
  have own : ownBundle lib tools timing f = .ok (emptyBundle f.1 .partly .executorTimeout) := by rw [ownBundle,if_neg late]
  have same : bundleOf lib tools timing f = emptyBundle f.1 .partly .executorTimeout := by rw [bundleOf,own]; rfl
  exact ⟨by simpa [Owned] using ⟨_,own⟩,by simp [same,timeOut],by simp [timeOut],rfl⟩

theorem consumeYielded_adds (lib : Library) (tools : Nat → Outcome) : ∀ {fs : List Future} {s : Progress}, (∀ f ∈ fs, timing.done f.2) →
    Adds lib tools timing (consumeYielded lib tools fs s).1 s (consumeYielded lib tools fs s).2.1 ∧
      ((consumeYielded lib tools fs s).2.2 = none → (consumeYielded lib tools fs s).1 = fs) := by
  intro fs
  induction fs with
  | nil => exact fun _ => ⟨Adds.refl _,fun _ => rfl⟩
  | cons f rest ih =>
    intro s done
    obtain ⟨head,tail⟩ := List.forall_mem_cons.mp done
    rw [consumeYielded]
    cases ran : consume lib tools f s with
    | error e => exact ⟨Adds.refl s,nofun⟩
    | ok middle =>
      obtain ⟨adds,all⟩ := ih (s := middle) tail
      exact ⟨(consume_ok head ran).trans adds,fun quiet => congrArg (f::·) (all quiet)⟩

theorem consumeYielded_all (timing : Timing) : ∀ {fs : List Future} {s : Progress}, (∀ f ∈ fs, timing.done f.2 ∧ Owned lib tools timing f) →
    (consumeYielded lib tools fs s).2.2 = none := by
  intro fs
  induction fs with
  | nil => exact fun _ => rfl
  | cons f rest ih =>
    intro s fine
    obtain ⟨head,tail⟩ := List.forall_mem_cons.mp fine
    obtain ⟨middle,ran⟩ := consume_of_owned head.1 head.2 s
    simp only [consumeYielded,ran]
    exact ih tail

theorem settle_adds {f : Future} {s s' : Progress} (ran : settle lib tools timing f s = .ok s') : Adds lib tools timing [f] s s' := by
  unfold settle at ran
  by_cases done : timing.done f.2
  · rw [if_pos done] at ran
    exact consume_ok done ran
  · rw [if_neg done] at ran
    cases ran
    exact timeOut_adds done s

theorem settle_of_owned {f : Future} (owned : Owned lib tools timing f) (s : Progress) : ∃ s', settle lib tools timing f s = .ok s' := by
  unfold settle
  by_cases done : timing.done f.2
  · rw [if_pos done]
    exact consume_of_owned done owned s
  · exact ⟨_,if_neg done⟩

theorem sweep_adds : ∀ {fs : List Future} {s s' : Progress}, sweep lib tools timing fs s = .ok s' → Adds lib tools timing fs s s' := by
  intro fs
  induction fs with
  | nil =>
    intro s s' ran
    cases ran
    exact Adds.refl s
  | cons f rest ih =>
    intro s s' ran
    obtain ⟨middle,first,ran⟩ := bind_ok.mp ran
    exact (settle_adds first).trans (ih ran)

theorem sweep_of_owned (lib : Library) (tools : Nat → Outcome) (timing : Timing) : ∀ {fs : List Future} {s : Progress}, (∀ f ∈ fs, Owned lib tools timing f) →
    ∃ s', sweep lib tools timing fs s = .ok s' := by
  intro fs
  induction fs with
  | nil => exact fun {s} _ => ⟨s,rfl⟩
  | cons f rest ih =>
    intro s owned
    obtain ⟨head,tail⟩ := List.forall_mem_cons.mp owned
    obtain ⟨middle,first⟩ := settle_of_owned head s
    obtain ⟨s',ran⟩ := ih (s := middle) tail
    exact ⟨s',bind_ok.mpr ⟨middle,first,ran⟩⟩

theorem found_place {ready : List Future} {place : Nat} {f : Future} (found : ready.find? (fun f => f.2 = place) = some f) :
    f.2 = place := by
  simpa using List.find?_some found

theorem yieldedOf_done {timing : Timing} {ready : List Future} {f : Future} (member : f ∈ yieldedOf timing ready) : timing.done f.2 ∧ f ∈ ready := by
  obtain ⟨place,yielded,found⟩ := List.mem_filterMap.mp member
  exact ⟨.inl (found_place found ▸ yielded),List.mem_of_find?_eq_some found⟩

theorem yieldedOf_nodup (ready : List Future) : (yieldedOf timing ready).Nodup := by
  apply timing.distinct.filterMap
  intro place place' f found found'
  rw [← found_place found,← found_place found']

def roundOrder (timing : Timing) (ready : List Future) : List Future :=
  yieldedOf timing ready ++ ready.filter (· ∉ yieldedOf timing ready)

theorem runRound_adds {ready : List Future} {s s' : Progress} (ran : runRound lib tools timing ready s = .ok s') :
    Adds lib tools timing (roundOrder timing ready) (start ready s) s' := by
  unfold runRound at ran
  obtain ⟨adds,all⟩ := consumeYielded_adds lib tools (fun f (member : f ∈ yieldedOf timing ready) => (yieldedOf_done member).1) (s := start ready s)
  obtain ⟨middle,swept,ran⟩ := bind_ok.mp ran
  cases quiet : (consumeYielded lib tools (yieldedOf timing ready) (start ready s)).2.2 with
  | some e => simp [quiet] at ran
  | none =>
    simp only [quiet] at ran
    cases ran
    rw [all quiet] at adds swept
    exact adds.trans (sweep_adds swept)

theorem runRound_of_owned {lib : Library} {tools : Nat → Outcome} {timing : Timing} {ready : List Future} (owned : ∀ f ∈ ready, Owned lib tools timing f) (s : Progress) :
    ∃ s', runRound lib tools timing ready s = .ok s' := by
  have quiet := consumeYielded_all timing (s := start ready s) fun f (member : f ∈ yieldedOf timing ready) =>
    ⟨(yieldedOf_done member).1,owned f (yieldedOf_done member).2⟩
  obtain ⟨s',swept⟩ := sweep_of_owned lib tools timing
    (s := (consumeYielded lib tools (yieldedOf timing ready) (start ready s)).2.1)
    (fun f member => owned f (List.mem_filter.mp member).1)
  exact ⟨s',bind_ok.mpr ⟨s',swept,by simp only [quiet]; rfl⟩⟩

theorem roundOrder_perm (timing : Timing) {ready : List Future} (distinct : ready.Nodup) : (roundOrder timing ready).Perm ready := by
  have yielded : (ready.filter (· ∈ yieldedOf timing ready)).Perm (yieldedOf timing ready) := by
    apply (List.perm_ext_iff_of_nodup (distinct.filter _) (yieldedOf_nodup ready)).mpr
    intro f
    simp only [List.mem_filter,decide_eq_true_eq]
    exact ⟨fun both => both.2,fun member => ⟨(yieldedOf_done member).2,member⟩⟩
  have both := List.filter_append_perm (fun f => decide (f ∈ yieldedOf timing ready)) ready
  simp only [← decide_not] at both
  exact (yielded.symm.append_right _).trans both

end Round

end Suixinji.Ask
