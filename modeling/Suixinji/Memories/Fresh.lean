import Mathlib.Data.List.Dedup
import Suixinji.Memories.Approval
import Suixinji.Memories.Marks

/-! A projection that is fresh reflects the memories, as long as every command marks
the profiles it changes. -/
namespace Suixinji.Memories
open Relational Checked Transition Ranking

variable {σ : Type} {lib : Library σ} {s s' : Store σ} {w w' : Profiles σ} {id : MemoryId} {now : Time}

theorem mem_semantic {m : Memory σ} {spaceId : SpaceId} :
    m ∈ s.semantic spaceId ↔ m ∈ s.memories ∧ m.spaceId = spaceId ∧ m.status = .active ∧ m.memoryType = .semantic := by
  simp only [Store.semantic,List.mem_filter,Bool.and_eq_true,decide_eq_true_eq,and_assoc,Table.mem_def]

theorem mem_listMemories {m : Memory σ} {spaceId : SpaceId} (small : s.small) :
    m ∈ s.listMemories spaceId now ↔ m ∈ s.semantic spaceId ∧ m.validUntil.all (now < ·) := by
  have all : (s.semantic spaceId).length ≤ 100 := by
    cases empty : s.semantic spaceId with
    | nil => exact Nat.zero_le _
    | cons n rest =>
      obtain ⟨inside,rfl,_⟩ := mem_semantic.mp (empty ▸ List.mem_cons_self : n ∈ s.semantic spaceId)
      rw [← empty]
      exact small n inside
  rw [Store.listMemories,List.take_of_length_le,List.mem_mergeSort,List.mem_filter]
  rw [List.length_mergeSort]
  exact (List.length_filter_le _ _).trans all

theorem profiled_iff {k : SpaceId × String} :
    s.profiled id = some k ↔ ∃ m ∈ s.semantic k.1, m.facet = k.2 ∧ m.id = id := by
  simp only [Store.profiled,Option.bind_eq_some_iff,Table.find?_eq_some,mem_semantic,Memory.profile]
  constructor
  · rintro ⟨m,⟨inside,named⟩,profile⟩
    split at profile
    · rename_i counts
      obtain rfl := Option.some.inj profile
      dsimp only
      exact ⟨m,⟨inside,rfl,counts.2,counts.1⟩,rfl,named⟩
    · cases profile
  · rintro ⟨m,⟨inside,place,active,semantic⟩,facet,named⟩
    exact ⟨m,⟨inside,named⟩,by rw [if_pos ⟨semantic,active⟩,place,facet]⟩

theorem mem_facts {r : Refresh} (small : s.small) (clear : r.clear now s) :
    id ∈ s.facts r.key now ↔ s.profiled id = some r.key := by
  rw [profiled_iff]
  simp only [Store.facts,orderedFacts,List.mem_map,List.mem_mergeSort,List.mem_filter,mem_listMemories small,decide_eq_true_eq]
  constructor
  · rintro ⟨m,⟨⟨inside,_⟩,text⟩,named⟩
    exact ⟨m,inside,(clear m inside).1.mp text,named⟩
  · rintro ⟨m,inside,facet,named⟩
    obtain ⟨text,current⟩ := clear m inside
    refine ⟨m,⟨⟨inside,?_⟩,text.mpr facet⟩,named⟩
    cases last : m.validUntil with
    | none => rfl
    | some time => simpa using current facet time last

/-- No refresh is ahead of its projection. -/
structure Profiles.Ordered (w : Profiles σ) : Prop where
  revisions : ∀ p ∈ w.store.derived.projections, p.processedRevision ≤ p.targetRevision
  refreshes : ∀ r ∈ w.refreshes, ∃ p ∈ w.store.derived.projections, p.key = r.key ∧ r.targetRevision ≤ p.targetRevision

def Projection.reflects (p : Projection) (s : Store σ) : Prop := ∀ id, id ∈ p.sourceMemoryIds ↔ s.profiled id = some p.key

/-- A projection that is fresh reflects the memories, and so does what a refresh found
while the revision is the one it read. -/
structure Profiles.Sound (w : Profiles σ) : Prop where
  fresh : ∀ p ∈ w.store.derived.projections, p.fresh → p.reflects w.store
  found : ∀ r ∈ w.refreshes, ∀ ids ∈ r.found, ∀ p ∈ w.store.derived.projections, p.key = r.key →
    p.targetRevision ≤ r.targetRevision → ∀ id, id ∈ ids ↔ w.store.profiled id = some r.key

theorem Profiles.Ordered.onward (ordered : w.Ordered) (onward : Onward w.store.derived.projections s'.derived.projections) :
    Profiles.Ordered { w with store := s' } where
  revisions := by
    refine onward.forall_mem ordered.revisions (fun p _ p' bounded later => ?_) (fun _ started => started.2)
    rcases later with rfl | ⟨kept,ahead,_⟩
    · exact bounded
    · rw [kept]
      exact bounded.trans ahead.le
  refreshes r member := by
    obtain ⟨p,inside,key,bounded⟩ := ordered.refreshes r member
    obtain ⟨p',inside',key',later⟩ := onward.kept p inside
    refine ⟨p',inside',key'.trans key,bounded.trans ?_⟩
    rcases later with rfl | ⟨_,ahead,_⟩
    · exact le_rfl
    · exact ahead.le

theorem Tracked.unmoved {p : Projection} (tracked : Tracked s s') (before : p ∈ s.derived.projections)
    (after : p ∈ s'.derived.projections) : s'.profiled id = some p.key ↔ s.profiled id = some p.key := by
  rcases tracked.covered id with same | ahead
  · rw [same]
  · have unmarked : ¬Ahead p.key s.derived.projections s'.derived.projections := by
      rintro ⟨p',inside,key,_,raised⟩
      have same : p' = p := s'.derived.projections.unique inside after key
      exact absurd (raised p before rfl) (by rw [same]; exact lt_irrefl _)
    exact iff_of_false (fun is => unmarked (ahead _ (.inr is))) (fun was => unmarked (ahead _ (.inl was)))

theorem Profiles.Sound.tracked (sound : w.Sound) (ordered : w.Ordered) (tracked : Tracked w.store s') :
    Profiles.Sound { w with store := s' } where
  fresh p' inside' fresh := by
    rcases tracked.onward.origin p' inside' with ⟨p,inside,_,later⟩ | started
    · rcases later with rfl | ⟨_,_,stale⟩
      · exact fun id => (sound.fresh _ inside fresh id).trans (tracked.unmoved inside inside').symm
      · rw [stale] at fresh
        cases fresh
    · rw [started.1] at fresh
      cases fresh
  found r member ids found p' inside' key' current id := by
    obtain ⟨p,inside,key,bounded⟩ := ordered.refreshes r member
    have later := tracked.onward.successor inside inside' (key'.trans key.symm)
    rcases later with rfl | ⟨_,ahead,_⟩
    · rw [← key]
      rw [tracked.unmoved inside inside']
      rw [key]
      exact sound.found r member ids found _ inside key current id
    · exact absurd (ahead.trans_le current) (not_lt.mpr bounded)

theorem onProjection_evolves {k : SpaceId × String} {f : Projection → Projection} (kept : ∀ p, (f p).key = p.key) :
    s.derived.projections.Evolves (fun p p' => p' = if p.key = k then f p else p) (fun _ => False)
      (s.onProjection k f).derived.projections := by
  unfold Store.onProjection
  cases found : s.derived.projections.find? k with
  | none => exact .refl (fun p inside => (if_neg (Table.find?_eq_none.mp found p inside)).symm)
  | some p =>
    obtain ⟨inside,rfl⟩ := Table.find?_eq_some.mp found
    exact .put_of_mem inside (kept p) (if_pos rfl).symm (fun q _ other => (if_neg other).symm)

theorem saved_key {p : Projection} {n : Nat} {ids : List MemoryId} : (p.saved n ids).key = p.key := by
  unfold Projection.saved
  split <;> rfl

theorem saved_target {p : Projection} {n : Nat} {ids : List MemoryId} : (p.saved n ids).targetRevision = p.targetRevision := by
  unfold Projection.saved
  split <;> rfl

theorem Profiles.Ordered.rewritten {k : SpaceId × String} {f : Projection → Projection} {refreshes : List Refresh}
    (ordered : w.Ordered) (fewer : ∀ r ∈ refreshes, r ∈ w.refreshes) (key : ∀ p, (f p).key = p.key)
    (target : ∀ p, (f p).targetRevision = p.targetRevision)
    (bounded : ∀ p ∈ w.store.derived.projections, p.key = k → (f p).processedRevision ≤ p.targetRevision) :
    Profiles.Ordered { store := w.store.onProjection k f,refreshes } where
  revisions := by
    refine (onProjection_evolves key).forall_mem ordered.revisions (fun p inside p' old rewritten => ?_) nofun
    subst rewritten
    split
    · rename_i here
      rw [target]
      exact bounded p inside here
    · exact old
  refreshes r member := by
    obtain ⟨p,inside,named,ahead⟩ := ordered.refreshes r (fewer r member)
    obtain ⟨p',inside',key',rewritten⟩ := (onProjection_evolves (k := k) key).kept p inside
    refine ⟨p',inside',key'.trans named,ahead.trans_eq ?_⟩
    rw [rewritten]
    split
    · exact (target p).symm
    · rfl

theorem Profiles.Sound.rewritten {k : SpaceId × String} {f : Projection → Projection} {refreshes : List Refresh}
    (sound : w.Sound) (fewer : ∀ r ∈ refreshes, r ∈ w.refreshes) (key : ∀ p, (f p).key = p.key)
    (target : ∀ p, (f p).targetRevision = p.targetRevision)
    (reflects : ∀ p ∈ w.store.derived.projections, p.key = k → (f p).fresh → (f p).reflects w.store) :
    Profiles.Sound { store := w.store.onProjection k f,refreshes } where
  fresh p' inside' fresh := by
    obtain ⟨p,inside,_,rfl⟩ := ((onProjection_evolves key).origin p' inside').resolve_right not_false
    split at fresh
    · rename_i here
      rw [if_pos here]
      exact reflects p inside here fresh
    · rename_i other
      rw [if_neg other]
      exact sound.fresh p inside fresh
  found r member ids found p' inside' key' current id := by
    obtain ⟨p,inside,same,rewritten⟩ := ((onProjection_evolves key).origin p' inside').resolve_right not_false
    have stays : p'.targetRevision = p.targetRevision := by
      rw [rewritten]
      split
      · exact target p
      · rfl
    rw [stays] at current
    exact sound.found r (fewer r member) ids found p inside (same.symm.trans key') current id

theorem rebuildStale_tracked {keys : List (SpaceId × String)} : Tracked s (s.rebuildStale keys) where
  onward := .of_updateWhere rfl (fun _ _ _ => ⟨rfl,.inr ⟨rfl,Nat.lt_succ_self _,rfl⟩⟩) (fun _ _ _ => .inl rfl)
  covered _ := .inl rfl

theorem revisions_step {e : ProfileEvent σ} (ordered : w.Ordered) (step : Profiles.Step lib w e w') : w'.Ordered := by
  cases e with
  | command c =>
    obtain ⟨s',ok,rfl⟩ := Option.map_eq_some_iff.mp step
    exact ordered.onward (execute_onward (ok_of_toOption ok))
  | read key =>
    obtain ⟨p,found,rfl⟩ := Option.map_eq_some_iff.mp step
    split
    · exact ordered
    · refine ⟨ordered.revisions,fun r member => ?_⟩
      rcases List.mem_append.mp member with old | new
      · exact ordered.refreshes r old
      · rw [List.mem_singleton.mp new]
        obtain ⟨inside,named⟩ := Table.find?_eq_some.mp found
        exact ⟨p,inside,named,le_rfl⟩
  | list i now =>
    obtain ⟨r,listed,rfl⟩ := Option.map_eq_some_iff.mp step
    refine ⟨ordered.revisions,fun r' member => ?_⟩
    rcases List.mem_or_eq_of_mem_set member with old | rfl
    · exact ordered.refreshes r' old
    · exact ordered.refreshes r (List.mem_of_getElem? listed)
  | save i =>
    obtain ⟨r,listed,saved⟩ := Option.bind_eq_some_iff.mp step
    obtain ⟨ids,_,rfl⟩ := Option.map_eq_some_iff.mp saved
    refine ordered.rewritten (fun _ => List.mem_of_mem_eraseIdx) (fun _ => saved_key) (fun _ => saved_target)
      (fun p inside key => ?_)
    obtain ⟨p',inside',key',bounded⟩ := ordered.refreshes r (List.mem_of_getElem? listed)
    obtain rfl : p' = p := w.store.derived.projections.unique inside' inside (key'.trans key.symm)
    unfold Projection.saved
    split
    · exact ordered.revisions p' inside
    · exact bounded
  | fail i =>
    obtain ⟨r,_,rfl⟩ := Option.map_eq_some_iff.mp step
    exact ordered.rewritten (fun _ => List.mem_of_mem_eraseIdx) (fun _ => rfl) (fun _ => rfl)
      (fun p inside _ => ordered.revisions p inside)
  | crash i =>
    cases step
    exact ⟨ordered.revisions,fun r member => ordered.refreshes r (List.mem_of_mem_eraseIdx member)⟩
  | rebuild keys =>
    cases step
    exact ordered.onward rebuildStale_tracked.onward

theorem fresh_step {e : ProfileEvent σ} (enabled : lib.profileProjection) (ordered : w.Ordered) (sound : w.Sound)
    (small : w.store.small) (still : w.still lib e) (step : Profiles.Step lib w e w') : w'.Sound := by
  cases e with
  | command c =>
    obtain ⟨s',ok,rfl⟩ := Option.map_eq_some_iff.mp step
    exact sound.tracked ordered (execute_tracked enabled still (ok_of_toOption ok))
  | read key =>
    obtain ⟨p,_,rfl⟩ := Option.map_eq_some_iff.mp step
    split
    · exact sound
    · refine ⟨sound.fresh,fun r member ids found => ?_⟩
      rcases List.mem_append.mp member with old | new
      · exact sound.found r old ids found
      · rw [List.mem_singleton.mp new] at found
        cases found
  | list i now =>
    obtain ⟨r,listed,rfl⟩ := Option.map_eq_some_iff.mp step
    refine ⟨sound.fresh,fun r' member ids found => ?_⟩
    rcases List.mem_or_eq_of_mem_set member with old | rfl
    · exact sound.found r' old ids found
    · cases found
      exact fun _ _ _ _ _ => mem_facts small (still r listed)
  | save i =>
    obtain ⟨r,listed,saved⟩ := Option.bind_eq_some_iff.mp step
    obtain ⟨ids,found,rfl⟩ := Option.map_eq_some_iff.mp saved
    refine sound.rewritten (fun _ => List.mem_of_mem_eraseIdx) (fun _ => saved_key) (fun _ => saved_target)
      (fun p inside key fresh => ?_)
    -- the row was at the revision that the refresh read, or a newer save stays
    unfold Projection.saved at fresh ⊢
    split at fresh
    · rename_i newer
      rw [if_pos newer]
      exact sound.fresh p inside fresh
    · rename_i current
      rw [if_neg current]
      intro id
      rw [List.mem_eraseDups]
      have exactly := sound.found r (List.mem_of_getElem? listed) ids found p inside key (by simpa using fresh) id
      rw [← key] at exactly
      exact exactly
  | fail i =>
    obtain ⟨r,_,rfl⟩ := Option.map_eq_some_iff.mp step
    exact sound.rewritten (fun _ => List.mem_of_mem_eraseIdx) (fun _ => rfl) (fun _ => rfl) (fun _ _ _ fresh => by cases fresh)
  | crash i =>
    cases step
    exact ⟨sound.fresh,fun r member => sound.found r (List.mem_of_mem_eraseIdx member)⟩
  | rebuild keys =>
    cases step
    exact sound.tracked ordered rebuildStale_tracked

/-- Revisions stay in order in every run; and where every step is still, a projection
that is fresh holds exactly the memories that count for its facet. -/
theorem fresh_reflects {events : List (ProfileEvent σ)} (enabled : lib.profileProjection)
    (bounded : ∀ p ∈ s.derived.projections, p.processedRevision ≤ p.targetRevision)
    (reflected : ∀ p ∈ s.derived.projections, p.fresh → p.reflects s)
    (run : Run (Guarded (fun w _ => w.store.small) (Profiles.Step lib)) { store := s } events w) :
    (∀ p ∈ w.store.derived.projections, p.processedRevision ≤ p.targetRevision) ∧
      (Run (Guarded (fun w e => w.store.small ∧ w.still lib e) (Profiles.Step lib)) { store := s } events w →
        ∀ p ∈ w.store.derived.projections, p.fresh → p.reflects w.store) := by
  have ordered : Profiles.Ordered { store := s } := ⟨bounded,nofun⟩
  constructor
  · exact (run.invariant Profiles.Ordered (fun _ _ _ ordered step => revisions_step ordered step.2) ordered).revisions
  · intro calm
    have sound : Profiles.Sound { store := s } := ⟨reflected,nofun⟩
    exact (calm.invariant (fun w : Profiles σ => w.Ordered ∧ w.Sound) (fun u e v both step =>
      ⟨revisions_step both.1 step.2,fresh_step enabled both.1 both.2 step.1.1 step.1.2 step.2⟩) ⟨ordered,sound⟩).2.fresh

def teaProfiled : List (ProfileEvent Unit) :=
  [.command (.insert 1 0 { teaMemory with predicate := some "drink" } 1 .active 0),.read (0,"drink"),.list 0 1,.save 0]

def teaForgotten : List (ProfileEvent Unit) := teaProfiled ++ [.command (.softDelete 1 2)]

def Profiles.after (w : Profiles Unit) (events : List (ProfileEvent Unit)) : Profiles Unit :=
  (events.foldlM (Profiles.next (.plain Unit)) w).getD w

/-- A memory that is forgotten stays in a projection that stays fresh. -/
theorem forgotten_stays_projected :
    ¬∀ (lib : Library Unit) (events : List (ProfileEvent Unit)) (w : Profiles Unit), lib.profileProjection →
      Run (Guarded (fun w _ => w.store.small) (Profiles.Step lib)) { store := .empty Unit } events w →
      (∀ p ∈ w.store.derived.projections, p.processedRevision ≤ p.targetRevision) ∧
        (w.refreshes = [] → ∀ p ∈ w.store.derived.projections, p.fresh → p.reflects w.store) := by
  intro reflects
  have run : Run (Guarded (fun w _ => w.store.small) (Profiles.Step (.plain Unit))) { store := .empty Unit }
      teaForgotten (Profiles.after { store := .empty Unit } teaForgotten) := .of_guarded (by decide +kernel)
  have exactly := (reflects _ _ _ rfl run).2 (by decide +kernel) ⟨0,"drink",[1],1,1,true⟩ (by decide +kernel) rfl 1
  exact absurd (exactly.mp (by decide)) (by decide +kernel)

theorem fresh_reflects_refreshed :
    (Profiles.after { store := .empty Unit } teaProfiled).store.derived.projections.rows = [⟨0,"drink",[1],1,1,true⟩] ∧
      ∀ p ∈ (Profiles.after { store := .empty Unit } teaProfiled).store.derived.projections, p.fresh →
        p.reflects (Profiles.after { store := .empty Unit } teaProfiled).store := by
  have none (p : Projection) : p ∉ (Store.empty Unit).derived.projections := Table.not_mem_empty p
  exact ⟨by decide +kernel,(fresh_reflects rfl (fun p inside => absurd inside (none p)) (fun p inside => absurd inside (none p))
    (.of_guarded (by decide +kernel))).2 (.of_guarded (by decide +kernel))⟩

end Suixinji.Memories
