import Suixinji.Relational.Transition
import Suixinji.Cache.Search

/-! When the cache serves nothing older than an invalidation. -/
namespace Suixinji.Cache
open Suixinji.Transition Suixinji.Hooks
open Coordination.RedisKeys (part)

variable {D C V : Type} {execute : Call C → D → V} {digest : String → String}

/-- The conditions: every invalidation reaches the counter that the readers use, and the
value a call is about to store is not older than the last invalidation. -/
def Fresh (w : World D C V) : Event D C → Prop
  | .invalidate tenant _ applied => part tenant = defaultTenant ∧ applied
  | .readStoreVersion p => ∀ r ∈ w.readers p, ∀ result ∈ r.phase.result?, w.floor (part r.call.space) ≤ result.1.asOf
  | _ => True

/-- The version that a call has read, and what it means for the call. -/
def Reader.Fit (w : World D C V) (born : String → Nat → Nat) (r : Reader C V) : Prop :=
  match r.phase with
  | .looking | .missed => True
  | .keyed version => version ≤ w.version defaultTenant r.call.space ∧ r.since ≤ born (part r.call.space) version
  | .storing entry _ version =>
    version ≤ w.version defaultTenant r.call.space ∧ born (part r.call.space) version ≤ entry.asOf
  | .ready _ _ | .returned _ _ => True

/-- `born` is the state of the database when a version of a space began. -/
structure Bounds (w : World D C V) (born : String → Nat → Nat) : Prop where
  floor : ∀ space, w.floor space = born space (w.versions defaultTenant space)
  recent : ∀ space, w.floor space ≤ w.history.length - 1
  entries : ∀ key entry, w.entries key = some entry → key.tenant = defaultTenant →
    key.version ≤ w.versions defaultTenant key.space ∧ born key.space key.version ≤ entry.asOf
  readers : ∀ p r, w.readers p = some r → r.since ≤ w.floor (part r.call.space) ∧ r.Fit w born
  served : ∀ p r, w.readers p = some r → ∀ entry, r.phase.result? = some (entry,true) → r.since ≤ entry.asOf

theorem part_default : part defaultTenant = defaultTenant := by decide

theorem bounds_start (db : D) : Bounds (start db : World D C V) (fun _ _ => 0) :=
  ⟨fun _ => rfl,fun _ => Nat.zero_le _,nofun,nofun,nofun⟩

variable {w w' : World D C V} {born : String → Nat → Nat} {p : Nat} {r : Reader C V}

theorem readers_move {q : Nat} {r' : Reader C V} {phase : Phase C V} (found : (w.move p r phase).readers q = some r') :
    q = p ∧ r' = {r with phase := phase} ∨ w.readers q = some r' := by
  change Function.update w.readers p (some {r with phase := phase}) q = some r' at found
  by_cases same : q = p
  · subst same
    rw [Function.update_self] at found
    exact .inl ⟨rfl,(Option.some.inj found).symm⟩
  · rw [Function.update_of_ne same] at found
    exact .inr found

/-- A call goes on, and nothing else changes. -/
theorem Bounds.move (bounds : Bounds w born) (here : w.readers p = some r) (phase : Phase C V)
    (fit : Reader.Fit w born {r with phase := phase})
    (served : ∀ entry, phase.result? = some (entry,true) → r.since ≤ entry.asOf) : Bounds (w.move p r phase) born where
  floor := bounds.floor
  recent := bounds.recent
  entries := bounds.entries
  readers q r' found := by
    rcases readers_move found with ⟨_,rfl⟩ | old
    · exact ⟨(bounds.readers p r here).1,fit⟩
    · exact bounds.readers q r' old
  served q r' found := by
    rcases readers_move found with ⟨_,rfl⟩ | old
    · exact served
    · exact bounds.served q r' old

/-- The change of a writer. -/
theorem Bounds.commit (bounds : Bounds w born) (db : D) : Bounds {w with history := w.history ++ [db]} born where
  floor := bounds.floor
  recent space := by
    have := bounds.recent space
    change w.floor space ≤ (w.history ++ [db]).length - 1
    rw [List.length_append]
    omega
  entries := bounds.entries
  readers := bounds.readers
  served := bounds.served

/-- A new version of the space begins with the current state. -/
theorem Bounds.invalidate (bounds : Bounds w born) (space : String) :
    ∃ born', Bounds {w.bump defaultTenant space with floor := Function.update w.floor (part space) (w.history.length - 1)} born' := by
  let v := w.version defaultTenant space
  let born' := Function.update born (part space) (Function.update (born (part space)) (v + 1) (w.history.length - 1))
  have counter : ∀ s, (w.bump defaultTenant space).versions defaultTenant s =
      if s = part space then v + 1 else w.versions defaultTenant s := by
    intro s
    simp only [World.bump,part_default,Function.update_self]
    split
    · rename_i same
      rw [same,Function.update_self]
    · rename_i other
      rw [Function.update_of_ne other]
  have grown : ∀ s, w.versions defaultTenant s ≤ (w.bump defaultTenant space).versions defaultTenant s := by
    intro s
    rw [counter]
    split
    · rename_i same
      rw [same]
      exact Nat.le_succ _
    · exact Nat.le_refl _
  have kept : ∀ s version, version ≤ w.versions defaultTenant s → born' s version = born s version := by
    intro s version old
    by_cases same : s = part space
    · subst same
      have : version ≠ v + 1 := Nat.ne_of_lt (Nat.lt_succ_of_le old)
      simp only [born',Function.update_self,Function.update_of_ne this]
    · simp only [born',Function.update_of_ne same]
  refine ⟨born',?_,?_,?_,?_,bounds.served⟩
  · intro s
    change Function.update w.floor (part space) (w.history.length - 1) s = born' s ((w.bump defaultTenant space).versions defaultTenant s)
    rw [counter]
    by_cases same : s = part space
    · subst same
      simp [born']
    · rw [if_neg same,Function.update_of_ne same,kept s _ (Nat.le_refl _)]
      exact bounds.floor s
  · intro s
    by_cases same : s = part space
    · subst same
      simp [World.bump]
    · simpa [World.bump,Function.update_of_ne same] using bounds.recent s
  · intro key entry found default
    obtain ⟨version,asOf⟩ := bounds.entries key entry found default
    exact ⟨Nat.le_trans version (grown _),(kept _ _ version).symm ▸ asOf⟩
  · intro q r found
    obtain ⟨since,fit⟩ := bounds.readers q r found
    constructor
    · by_cases same : part r.call.space = part space
      · rw [same] at since
        simpa [same] using Nat.le_trans since (bounds.recent (part space))
      · simpa [Function.update_of_ne same] using since
    · cases phase : r.phase with
      | looking | missed | ready | returned => simp [Reader.Fit,phase]
      | keyed version =>
        simp only [Reader.Fit,phase,World.version,part_default] at fit ⊢
        exact ⟨Nat.le_trans fit.1 (grown _),(kept _ _ fit.1).symm ▸ fit.2⟩
      | storing entry cached version =>
        simp only [Reader.Fit,phase,World.version,part_default] at fit ⊢
        exact ⟨Nat.le_trans fit.1 (grown _),(kept _ _ fit.1).symm ▸ fit.2⟩


theorem Bounds.begin (bounds : Bounds w born) (p : Nat) (call : Call C) :
    Bounds {w with readers := Function.update w.readers p (some {call, since := w.floor (part call.space)})} born where
  floor := bounds.floor
  recent := bounds.recent
  entries := bounds.entries
  readers q r found := by
    by_cases same : q = p
    · subst same
      simp only [Function.update_self,Option.some.injEq] at found
      subst found
      exact ⟨Nat.le_refl _,trivial⟩
    · exact bounds.readers q r (by simpa [Function.update_of_ne same] using found)
  served q r found := by
    by_cases same : q = p
    · subst same
      simp only [Function.update_self,Option.some.injEq] at found
      subst found
      nofun
    · exact bounds.served q r (by simpa [Function.update_of_ne same] using found)

theorem Bounds.store (bounds : Bounds w born) {entry : Entry C V} {version : Nat} (space : String) (key : Key)
    (named : key.space = part space) (numbered : key.version = version)
    (known : version ≤ w.version defaultTenant space) (asOf : born (part space) version ≤ entry.asOf) :
    Bounds {w with entries := Function.update w.entries key (some entry)} born where
  floor := bounds.floor
  recent := bounds.recent
  readers := bounds.readers
  served := bounds.served
  entries key' entry' found default := by
    by_cases same : key' = key
    · subst same
      simp only [Function.update_self,Option.some.injEq] at found
      subst found
      rw [named,numbered]
      exact ⟨known,asOf⟩
    · exact bounds.entries key' entry' (by simpa [Function.update_of_ne same] using found) default

theorem Bounds.expire (bounds : Bounds w born) (key : Key) : Bounds {w with entries := Function.update w.entries key none} born where
  floor := bounds.floor
  recent := bounds.recent
  readers := bounds.readers
  served := bounds.served
  entries key' entry found default := by
    by_cases same : key' = key
    · subst same
      simp at found
    · exact bounds.entries key' entry (by simpa [Function.update_of_ne same] using found) default

theorem bounds_step {e : Event D C} (bounds : Bounds w born) (fresh : Fresh w e) (step : Step execute digest w e w') :
    ∃ born', Bounds w' born' := by
  unfold Step at step
  cases e with
  | commit db =>
    cases step
    exact ⟨born,bounds.commit db⟩
  | invalidate tenant space applied =>
    obtain ⟨tenant_default,rfl⟩ := fresh
    cases step
    have same : w.bump tenant space = w.bump defaultTenant space := by
      simp only [World.bump,World.version,tenant_default,part_default]
    simp only [if_pos,same]
    exact bounds.invalidate space
  | begin p call =>
    cases step
    exact ⟨born,bounds.begin p call⟩
  | readVersion p =>
    obtain ⟨r,here,step⟩ := Option.bind_eq_some_iff.mp step
    split at step
    · obtain ⟨_,step⟩ := Option.ite_none_right_eq_some.mp step
      cases step
      exact ⟨born,bounds.move here _ ⟨Nat.le_refl _,bounds.floor _ ▸ (bounds.readers p r here).1⟩ nofun⟩
    · cases step
  | fetch p =>
    obtain ⟨r,here,step⟩ := Option.bind_eq_some_iff.mp step
    split at step
    · rename_i version phase
      obtain ⟨entry,found,step⟩ := Option.bind_eq_some_iff.mp step
      cases step
      refine ⟨born,bounds.move here _ trivial ?_⟩
      intro entry' same
      cases same
      have fit := (bounds.readers p r here).2
      simp only [Reader.Fit,phase] at fit
      have stored := bounds.entries _ entry found part_default
      exact Nat.le_trans fit.2 stored.2
    · cases step
  | miss p =>
    obtain ⟨r,here,step⟩ := Option.bind_eq_some_iff.mp step
    split at step
    · cases step
      exact ⟨born,bounds.move here _ trivial nofun⟩
    · cases step
      exact ⟨born,bounds.move here _ trivial nofun⟩
    · cases step
  | execute p =>
    obtain ⟨r,here,step⟩ := Option.bind_eq_some_iff.mp step
    split at step
    · obtain ⟨db,_,step⟩ := Option.bind_eq_some_iff.mp step
      cases step
      exact ⟨born,bounds.move here _ trivial (fun entry same => by cases same)⟩
    · cases step
  | readStoreVersion p =>
    obtain ⟨r,here,step⟩ := Option.bind_eq_some_iff.mp step
    split at step
    · rename_i entry cached phase
      obtain ⟨_,step⟩ := Option.ite_none_right_eq_some.mp step
      cases step
      refine ⟨born,bounds.move here _ ⟨Nat.le_refl _,?_⟩ ?_⟩
      · have recent := fresh r here (entry,cached) (by rw [phase]; rfl)
        rw [bounds.floor] at recent
        exact recent
      · intro entry' same
        exact bounds.served p r here entry' (by rw [phase]; exact same)
    · cases step
  | store p =>
    obtain ⟨r,here,step⟩ := Option.bind_eq_some_iff.mp step
    split at step
    · rename_i entry cached version phase
      cases step
      have fit := (bounds.readers p r here).2
      simp only [Reader.Fit,phase] at fit
      refine ⟨born,(bounds.store r.call.space _ rfl rfl fit.1 fit.2).move here _ trivial ?_⟩
      intro entry' same
      exact bounds.served p r here entry' (by rw [phase]; exact same)
    · cases step
  | finish p =>
    obtain ⟨r,here,step⟩ := Option.bind_eq_some_iff.mp step
    split at step
    · rename_i phase
      cases step
      exact ⟨born,bounds.move here _ trivial (fun entry same => bounds.served p r here entry (by rw [phase]; exact same))⟩
    · rename_i phase
      cases step
      exact ⟨born,bounds.move here _ trivial (fun entry same => bounds.served p r here entry (by rw [phase]; exact same))⟩
    · cases step
  | expire key =>
    cases step
    exact ⟨born,bounds.expire key⟩

/-- Under the conditions a value that a lookup finds was computed from a state of the database
that has every change made before the invalidations that had finished when the lookup began. -/
theorem cache_never_stale {db : D} {es : List (Event D C)} (run : Run (Guarded Fresh (Step execute digest)) (start db) es w) :
    ∀ p r, w.readers p = some r → ∀ entry, r.phase.result? = some (entry,true) → r.since ≤ entry.asOf := by
  have bounded : ∃ born, Bounds w born :=
    run.invariant (fun w => ∃ born, Bounds w born) (fun _ _ _ ⟨_,bounds⟩ step => bounds_step bounds step.1 step.2) ⟨_,bounds_start db⟩
  obtain ⟨born,bounds⟩ := bounded
  exact bounds.served

/-- A search of one space, whose result is the number of changes. -/
def search : Call Unit := ⟨"search_memories","room","{}",()⟩

/-- The first call computes its result before a change and stores it after the invalidation. -/
def overtaken : List (Event Nat Unit) :=
  [.begin 0 search,.readVersion 0,.miss 0,.execute 0,.commit 1,.invalidate defaultTenant "room" true,.readStoreVersion 0,
    .store 0,.begin 1 search,.readVersion 1,.fetch 1]

/-- The second call, begun after the invalidation, finds the result of the old state under the new version. -/
theorem stale_result_found :
    ∃ w, Run (Step (fun _ changes => changes) id) (start 0) overtaken w ∧ ∃ r entry, w.readers 1 = some r ∧
      r.phase.result? = some (entry,true) ∧ entry.asOf < r.since := by
  have passes : (overtaken.foldlM (next (fun _ changes => changes) id) (start 0)).isSome := by decide +kernel
  refine ⟨_,Run.of_isSome passes,⟨search,1,.ready ⟨0,search,0⟩ true⟩,⟨0,search,0⟩,?_,rfl,Nat.zero_lt_one⟩
  decide +kernel

/-- The store comes before the change; the next call but one misses. -/
def renewed : List (Event Nat Unit) :=
  [.begin 0 search,.readVersion 0,.miss 0,.execute 0,.readStoreVersion 0,.store 0,.commit 1,
    .invalidate defaultTenant "room" true,.begin 1 search,.readVersion 1,.miss 1,.execute 1,.readStoreVersion 1,.store 1,
    .begin 2 search,.readVersion 2,.fetch 2]

instance (w : World Nat Unit Nat) : (e : Event Nat Unit) → Decidable (Fresh w e)
  | .invalidate .. => inferInstanceAs (Decidable (_ ∧ _))
  | .readStoreVersion _ => by unfold Fresh; dsimp only; infer_instance
  | .commit _ | .begin .. | .readVersion _ | .fetch _ | .miss _ | .execute _ | .store _ | .finish _ | .expire _ => .isTrue trivial

theorem cache_never_stale_renewed :
    ∃ w, Run (Step (fun _ changes => changes) id) (start 0) renewed w ∧
      ∃ r entry, w.readers 2 = some r ∧ r.phase.result? = some (entry,true) ∧ r.since = 1 ∧ r.since ≤ entry.asOf := by
  have passes : (renewed.foldlM (fun w e => if Fresh w e then next (fun _ changes => changes) id w e else none)
      (start 0)).isSome := by decide +kernel
  have run := Run.of_guarded passes
  refine ⟨_,run.imp (fun _ _ _ step => step.2),⟨search,1,.ready ⟨1,search,1⟩ true⟩,⟨1,search,1⟩,by decide +kernel,rfl,rfl,?_⟩
  exact cache_never_stale run 2 ⟨search,1,.ready ⟨1,search,1⟩ true⟩ (by decide +kernel) ⟨1,search,1⟩ rfl

end Suixinji.Cache
