import Suixinji.Summaries.Scheduler
import Mathlib.Data.String.Basic

/-! An automatic summary is sent once, as long as the reconciliation writes off no
reservation that was honoured after it looked, no save of the subscriptions
overlaps another, and the ticks of one day are over before those of the next. -/
namespace Suixinji.Summaries.Scheduler
open Suixinji.Relational Suixinji.Transition Suixinji.Summaries Suixinji.Deliveries.Local
open Suixinji.Deliveries (Settings DeliveryStatus)
open Suixinji.Dispatch (Time)

def Active (w : World) (date : Date) : Prop :=
  (∃ (i : Nat) (t : Tick), w.ticks[i]? = some t ∧ t.rest ≠ [] ∧ t.today = date) ∨
    ∃ (j : Nat) (t : SummaryTask), w.tasks[j]? = some t ∧ t.phase ≠ .finished ∧ t.sentDate = date

def Since (subs : Subscriptions) (date : Date) : Prop := ∀ sub ∈ subs, ∀ d, sub.lastSentDate = some d → d ≤ date.text

/-- The steps that are out of harm's way. -/
def Calm (w : World) : Event → Prop
  | .tick today _ => Since w.subs today ∧ ∀ date, Active w date → date = today
  | .expire i _ => ∀ t sub, w.at i = some (t,sub) → ¬Sent w.deliveries (t.key sub)
  | .save i => ∀ t copy, w.ticks[i]? = some t → t.phase = .save copy → copy = w.subs
  | .store j => ∀ t copy, w.tasks[j]? = some t → t.phase = .saving copy → copy = w.subs
  | _ => True

def TaskPhase.ranged : TaskPhase → Bool
  | .delivering | .reserved | .sending | .answered _ => true
  | _ => false

structure Moves (w : World) (t : SummaryTask) (q : TaskPhase) : Prop where
  began : t.phase ≠ .finished
  locks : q.locks → t.phase.locks ∨ ∀ (k : Nat) (u : SummaryTask), w.tasks[k]? = some u → u.spaceId = t.spaceId → ¬u.phase.locks
  ranged : q.ranged → t.phase.ranged ∨ t.rangeKey ∈ summaryRanges
  holds : q.holds → t.phase.holds

/-- What a calm step can do. -/
inductive Change (w : World) : World → Prop
  | tick (today : Date) (nowMinutes : Int) (rest : List SummarySubscription) (since : Since w.subs today)
      (alone : ∀ date, Active w date → date = today) : Change w {w with ticks := w.ticks ++ [{today,nowMinutes,rest}]}
  | pass (i : Nat) (t t' : Tick) (found : w.ticks[i]? = some t) (today : t'.today = t.today)
      (rest : t'.rest ≠ [] → t.rest ≠ []) : Change w (w.tick i t')
  | expire (i : Nat) (t : Tick) (key error : String) (now : Time) (found : w.ticks[i]? = some t)
      (open' : ¬Sent w.deliveries key) :
      Change w {w.tick i {t with phase := .due} with deliveries := markFailed w.deliveries key error now}
  | save (i : Nat) (t : Tick) (spaceId : String) (subs : Subscriptions) (found : w.ticks[i]? = some t) (rest : t.rest ≠ [])
      (written : markSummarySent spaceId t.today.text w.subs = some subs) : Change w {w.tick i t.skip with subs}
  | submit (i : Nat) (t : Tick) (sub : SummarySubscription) (found : w.ticks[i]? = some t) (rest : t.rest ≠ []) :
      Change w {w.tick i t.skip with tasks := w.tasks ++ [t.task sub]}
  | move (j : Nat) (t : SummaryTask) (q : TaskPhase) (found : w.tasks[j]? = some t) (moves : Moves w t q) :
      Change w (w.task j t q)
  | reserve (j : Nat) (t : SummaryTask) (settings : Settings) (now : Time) (deliveries : Records)
      (found : w.tasks[j]? = some t) (phase : t.phase = .delivering)
      (reserved : reserveDelivery settings w.deliveries t.key "auto_summary" t.spaceId none now = some deliveries) :
      Change w {w.task j t .reserved with deliveries}
  | send (j : Nat) (t : SummaryTask) (found : w.tasks[j]? = some t) (phase : t.phase = .reserved) :
      Change w {w.task j t .sending with sends := w.sends ++ [t.key]}
  | accept (j : Nat) (t : SummaryTask) (now : Time) (found : w.tasks[j]? = some t) (phase : t.phase.holds) :
      Change w {w.task j t .marked with deliveries := markSent w.deliveries t.key now,marked := w.marked ++ [t.key]}
  | fail (j : Nat) (t : SummaryTask) (status : DeliveryStatus) (error : String) (now : Time)
      (found : w.tasks[j]? = some t) (phase : t.phase.holds) :
      Change w {w.task j t .finished with deliveries := updateStatus w.deliveries t.key status (some error) now}
  | store (j : Nat) (t : SummaryTask) (spaceId : String) (subs : Subscriptions) (found : w.tasks[j]? = some t)
      (began : t.phase ≠ .finished) (written : markSummarySent spaceId t.sentDate.text w.subs = some subs) :
      Change w {w.task j t .finished with subs}
  | recover (now : Time) : Change w {w with deliveries := recoverStaleReservedDeliveries w.deliveries now}

theorem at_ok {w : World} {i : Nat} {t : Tick} {sub : SummarySubscription} (found : w.at i = some (t,sub)) :
    w.ticks[i]? = some t ∧ t.rest ≠ [] := by
  obtain ⟨t',inside,rest⟩ := Option.bind_eq_some_iff.mp found
  obtain ⟨sub',head,same⟩ := Option.bind_eq_some_iff.mp rest
  cases same
  exact ⟨inside,by rintro empty; rw [empty] at head; cases head⟩

theorem skip_rest {t : Tick} (more : t.skip.rest ≠ []) : t.rest ≠ [] := by
  rintro empty
  exact more (by simp [Tick.skip,empty])

theorem look_pass (settings : Settings) (t : Tick) (delivery : Option DeliveryRecord) (now : Time) :
    (t.look settings delivery now).today = t.today ∧ ((t.look settings delivery now).rest ≠ [] → t.rest ≠ []) := by
  unfold Tick.look
  split
  · exact ⟨rfl,id⟩
  · split
    · exact ⟨rfl,id⟩
    · exact ⟨rfl,skip_rest⟩
    · split
      · exact ⟨rfl,id⟩
      · exact ⟨rfl,skip_rest⟩
    · split
      · exact ⟨rfl,skip_rest⟩
      · exact ⟨rfl,id⟩

theorem change_of_step {py : Python} {settings : Settings} {w w' : World} {e : Event} (calm : Calm w e)
    (step : Step py settings w e w') : Change w w' := by
  unfold Step at step
  cases e with
  | tick today nowMinutes =>
    cases step
    exact .tick today nowMinutes _ calm.1 calm.2
  | look i now =>
    obtain ⟨⟨t,sub⟩,here,step⟩ := Option.bind_eq_some_iff.mp step
    simp only at step
    split at step
    · cases step
      obtain ⟨today,rest⟩ := look_pass settings t (w.deliveries.find? (t.key sub)) now
      exact .pass i t _ (at_ok here).1 today rest
    · cases step
  | expire i now =>
    obtain ⟨⟨t,sub⟩,here,step⟩ := Option.bind_eq_some_iff.mp step
    simp only at step
    split at step
    · cases step
      exact .expire i t (t.key sub) _ now (at_ok here).1 (calm t sub here)
    · cases step
  | review i =>
    obtain ⟨⟨t,sub⟩,here,step⟩ := Option.bind_eq_some_iff.mp step
    simp only at step
    split at step
    · split at step
      · cases step
        exact .pass i t _ (at_ok here).1 rfl skip_rest
      · cases step
        exact .pass i t _ (at_ok here).1 rfl id
    · cases step
  | load i =>
    obtain ⟨⟨t,sub⟩,here,step⟩ := Option.bind_eq_some_iff.mp step
    simp only at step
    split at step
    · split at step
      · cases step
        exact .pass i t _ (at_ok here).1 rfl id
      · cases step
        exact .pass i t _ (at_ok here).1 rfl skip_rest
    · cases step
  | save i =>
    obtain ⟨⟨t,sub⟩,here,step⟩ := Option.bind_eq_some_iff.mp step
    simp only at step
    split at step
    · rename_i copy phase
      obtain ⟨subs,written,same⟩ := Option.bind_eq_some_iff.mp step
      cases same
      obtain ⟨found,rest⟩ := at_ok here
      rw [calm t copy found phase] at written
      exact .save i t sub.spaceId subs found rest written
    · cases step
  | submit i accepted =>
    obtain ⟨⟨t,sub⟩,here,step⟩ := Option.bind_eq_some_iff.mp step
    obtain ⟨found,rest⟩ := at_ok here
    simp only at step
    split at step
    · split at step
      · cases step
        exact .submit i t sub found rest
      · cases step
        exact .pass i t _ found rfl skip_rest
    · cases step
  | acquire j =>
    obtain ⟨t,found,step⟩ := Option.bind_eq_some_iff.mp step
    split at step
    · rename_i phase
      split at step
      · cases step
      · rename_i free
        cases step
        refine .move j t .generating found ⟨by simp [phase],fun _ => .inr ?_,?_,?_⟩
        · intro k u other same locked
          refine free (List.any_eq_true.mpr ⟨u,List.mem_of_getElem? other,?_⟩)
          simp [same,locked]
        · intro ranged
          cases ranged
        · intro holds
          cases holds
    · cases step
  | generate j written =>
    obtain ⟨t,found,step⟩ := Option.bind_eq_some_iff.mp step
    split at step
    · rename_i phase
      cases step
      refine .move j t _ found ⟨by simp [phase],fun _ => .inl (by simp [phase,TaskPhase.locks]),?_,?_⟩
      · split
        · rename_i known
          exact fun _ => .inr known.2
        · intro ranged
          cases ranged
      · split
        · intro holds
          cases holds
        · intro holds
          cases holds
    · cases step
  | reserve j now =>
    obtain ⟨t,found,step⟩ := Option.bind_eq_some_iff.mp step
    split at step
    · rename_i phase
      split at step
      · cases step
        exact .move j t .finished found ⟨by simp [phase],by simp [TaskPhase.locks],by simp [TaskPhase.ranged],by simp [TaskPhase.holds]⟩
      · rename_i deliveries reserved
        cases step
        exact .reserve j t settings now deliveries found phase reserved
    · cases step
  | send j =>
    obtain ⟨t,found,step⟩ := Option.bind_eq_some_iff.mp step
    split at step
    · rename_i phase
      cases step
      exact .send j t found phase
    · cases step
  | answer j answer =>
    obtain ⟨t,found,step⟩ := Option.bind_eq_some_iff.mp step
    split at step
    · rename_i phase
      cases step
      refine .move j t _ found ⟨by simp [phase],fun _ => .inl ?_,fun _ => .inl ?_,fun _ => ?_⟩ <;>
        simp [phase,TaskPhase.locks,TaskPhase.ranged,TaskPhase.holds]
    · cases step
  | mark j now =>
    obtain ⟨t,found,step⟩ := Option.bind_eq_some_iff.mp step
    split at step
    · rename_i answer phase
      have holds : t.phase.holds := by simp [phase,TaskPhase.holds]
      cases step
      cases answer with
      | accepted => exact .accept j t now found holds
      | refused => exact .fail j t .failed "send_text returned False" now found holds
      | raised error =>
        simp only [World.answered]
        split
        · exact .fail j t .unknown error now found holds
        · exact .fail j t .failed error now found holds
    · cases step
  | onSent j =>
    obtain ⟨t,found,step⟩ := Option.bind_eq_some_iff.mp step
    split at step
    · rename_i phase
      cases step
      cases (markSummarySent t.spaceId t.sentDate.text w.subs).isSome with
      | true => exact .move j t (.saving w.subs) found ⟨by simp [phase],fun _ => .inl (by simp [phase,TaskPhase.locks]),by simp [TaskPhase.ranged],by simp [TaskPhase.holds]⟩
      | false => exact .move j t .finished found ⟨by simp [phase],by simp [TaskPhase.locks],by simp [TaskPhase.ranged],by simp [TaskPhase.holds]⟩
    · cases step
  | store j =>
    obtain ⟨t,found,step⟩ := Option.bind_eq_some_iff.mp step
    split at step
    · rename_i copy phase
      obtain ⟨subs,written,same⟩ := Option.bind_eq_some_iff.mp step
      cases same
      rw [calm t copy found phase] at written
      exact .store j t t.spaceId subs found (by simp [phase]) written
    · cases step
  | recover now =>
    cases step
    exact .recover now

/-! ### Who holds what -/

/-- One task of a space at a time is at its delivery, and what is marked sent stays so. -/
structure Held (w : World) : Prop where
  alone : ∀ (i j : Nat) (t u : SummaryTask), w.tasks[i]? = some t → w.tasks[j]? = some u → t.phase.locks → u.phase.locks →
    t.spaceId = u.spaceId → i = j
  ranged : ∀ (j : Nat) (t : SummaryTask), w.tasks[j]? = some t → t.phase.ranged → t.rangeKey ∈ summaryRanges
  unmarked : ∀ (j : Nat) (t : SummaryTask), w.tasks[j]? = some t → t.phase.holds → t.key ∉ w.marked
  there : ∀ (j : Nat) (t : SummaryTask), w.tasks[j]? = some t → t.phase.holds → (w.deliveries.find? t.key).isSome
  kept : ∀ key ∈ w.marked, Sent w.deliveries key

theorem plain_range {range : String} (known : range ∈ summaryRanges) : ':' ∉ range.toList := by
  simp only [summaryRanges,List.mem_cons,List.not_mem_nil,or_false] at known
  rcases known with rfl | rfl | rfl | rfl | rfl | rfl <;> decide

theorem ranged_of_holds {p : TaskPhase} (held : p.holds) : p.ranged ∧ p.locks := by
  cases p <;> first | exact ⟨rfl,rfl⟩ | cases held

theorem space_of_key {t u : SummaryTask} (range : t.rangeKey ∈ summaryRanges) (range' : u.rangeKey ∈ summaryRanges)
    (same : t.key = u.key) : t.spaceId = u.spaceId :=
  space_of_autoSummaryKey (plain_range range) (plain_range range') t.sentDate.plain u.sentDate.plain same

variable {w w' : World}

theorem Held.same (held : Held w) (tasks : w'.tasks = w.tasks) (marked : w'.marked = w.marked)
    (records : ∀ key, (w.deliveries.find? key).isSome → (w'.deliveries.find? key).isSome)
    (sent : ∀ key, Sent w.deliveries key → Sent w'.deliveries key) : Held w' where
  alone := by rw [tasks]; exact held.alone
  ranged := by rw [tasks]; exact held.ranged
  unmarked := by rw [tasks,marked]; exact held.unmarked
  there := by rw [tasks]; exact fun j t inside holding => records _ (held.there j t inside holding)
  kept := by rw [marked]; exact fun key inside => sent key (held.kept key inside)

theorem task_set {tasks : List SummaryTask} {i j : Nat} {t u : SummaryTask} {q : TaskPhase}
    (inside : (tasks.set j {t with phase := q})[i]? = some u) :
    (i = j ∧ u = {t with phase := q}) ∨ (i ≠ j ∧ tasks[i]? = some u) := by
  by_cases here : i = j
  · subst here
    rw [List.getElem?_set_self'] at inside
    obtain ⟨_,_,rfl⟩ := Option.map_eq_some_iff.mp inside
    exact .inl ⟨rfl,rfl⟩
  · rw [List.getElem?_set_ne (Ne.symm here)] at inside
    exact .inr ⟨here,inside⟩

theorem Held.set (held : Held w) {j : Nat} {t : SummaryTask} {q : TaskPhase} (found : w.tasks[j]? = some t)
    (tasks : w'.tasks = w.tasks.set j {t with phase := q})
    (locks : q.locks → t.phase.locks ∨ ∀ (k : Nat) (u : SummaryTask), w.tasks[k]? = some u → u.spaceId = t.spaceId → ¬u.phase.locks)
    (ranged : q.ranged → t.phase.ranged ∨ t.rangeKey ∈ summaryRanges)
    (records : ∀ key, (w.deliveries.find? key).isSome → (w'.deliveries.find? key).isSome)
    (holds : q.holds → t.key ∉ w'.marked ∧ (w'.deliveries.find? t.key).isSome)
    (others : ∀ (k : Nat) (u : SummaryTask), k ≠ j → w.tasks[k]? = some u → u.phase.holds → u.key ∉ w'.marked)
    (kept : ∀ key ∈ w'.marked, Sent w'.deliveries key) : Held w' where
  alone := by
    rw [tasks]
    intro i k a b ia kb la lb same
    rcases task_set ia with ⟨hi,rfl⟩ | ⟨apart,ia⟩ <;> rcases task_set kb with ⟨hk,rfl⟩ | ⟨apart',kb⟩
    · exact hi.trans hk.symm
    · rcases locks la with own | free
      · exact held.alone i k t b (hi ▸ found) kb own lb same
      · exact absurd lb (free k b kb same.symm)
    · rcases locks lb with own | free
      · exact held.alone i k a t ia (hk ▸ found) la own same
      · exact absurd la (free i a ia same)
    · exact held.alone i k a b ia kb la lb same
  ranged := by
    rw [tasks]
    intro i u inside past
    rcases task_set inside with ⟨rfl,rfl⟩ | ⟨_,inside⟩
    · rcases ranged past with own | known
      · exact held.ranged i t found own
      · exact known
    · exact held.ranged i u inside past
  unmarked := by
    rw [tasks]
    intro i u inside holding
    rcases task_set inside with ⟨rfl,rfl⟩ | ⟨apart,inside⟩
    · exact (holds holding).1
    · exact others i u apart inside holding
  there := by
    rw [tasks]
    intro i u inside holding
    rcases task_set inside with ⟨rfl,rfl⟩ | ⟨apart,inside⟩
    · exact (holds holding).2
    · exact records _ (held.there i u inside holding)
  kept := kept

theorem Held.apart (held : Held w) {j k : Nat} {t u : SummaryTask} (found : w.tasks[j]? = some t) (other : w.tasks[k]? = some u)
    (ht : t.phase.holds) (hu : u.phase.holds) (apart : k ≠ j) : u.key ≠ t.key := by
  intro same
  obtain ⟨rangedT,lockedT⟩ := ranged_of_holds ht
  obtain ⟨rangedU,lockedU⟩ := ranged_of_holds hu
  exact apart (held.alone k j u t other found lockedU lockedT
    (space_of_key (held.ranged k u other rangedU) (held.ranged j t found rangedT) same))

theorem held_change (held : Held w) (change : Change w w') : Held w' := by
  cases change with
  | tick today nowMinutes rest since alone => exact held.same rfl rfl (fun _ => id) (fun _ => id)
  | pass i t t' found today rest => exact held.same rfl rfl (fun _ => id) (fun _ => id)
  | save i t spaceId subs found rest written => exact held.same rfl rfl (fun _ => id) (fun _ => id)
  | recover now => exact held.same rfl rfl (fun _ => isSome_recover) (fun _ => sent_recover)
  | expire i t key error now found free =>
    refine held.same rfl rfl (fun _ => isSome_updateStatus) (fun other sent => sent_updateStatus sent (fun same => ?_))
    exact absurd (same ▸ sent) free
  | submit i t sub found rest =>
    have old : ∀ {k : Nat} {u : SummaryTask}, (w.tasks ++ [t.task sub])[k]? = some u → u.phase.locks ∨ u.phase.ranged ∨ u.phase.holds →
        w.tasks[k]? = some u := by
      intro k u inside busy
      rw [List.getElem?_append] at inside
      split at inside
      · exact inside
      · rw [List.getElem?_singleton] at inside
        split at inside
        · cases inside
          rcases busy with busy | busy | busy <;> cases busy
        · cases inside
    exact ⟨fun a b u v ua vb lu lv => held.alone a b u v (old ua (.inl lu)) (old vb (.inl lv)) lu lv,
      fun k u inside past => held.ranged k u (old inside (.inr (.inl past))) past,
      fun k u inside holding => held.unmarked k u (old inside (.inr (.inr holding))) holding,
      fun k u inside holding => held.there k u (old inside (.inr (.inr holding))) holding,held.kept⟩
  | move j t q found moves =>
    exact held.set found rfl moves.locks moves.ranged (fun _ => id)
      (fun holding => ⟨held.unmarked j t found (moves.holds holding),held.there j t found (moves.holds holding)⟩)
      (fun k u _ inside => held.unmarked k u inside) held.kept
  | reserve j t settings now deliveries found phase reserved =>
    obtain ⟨free,there,frame⟩ := reserveDelivery_ok reserved
    refine held.set found rfl (fun _ => .inl (by simp [phase,TaskPhase.locks])) (fun _ => .inl (by simp [phase,TaskPhase.ranged]))
      (fun key old => ?_) (fun _ => ⟨fun marked => free (held.kept _ marked),there⟩)
      (fun k u _ inside => held.unmarked k u inside) ?_
    · by_cases same : key = t.key
      · exact same ▸ there
      · rwa [frame key same]
    intro key marked
    obtain ⟨r,there,sent⟩ := held.kept key marked
    have apart : key ≠ t.key := by
      rintro rfl
      exact free ⟨r,there,sent⟩
    exact ⟨r,(frame key apart).trans there,sent⟩
  | send j t found phase =>
    have holding : t.phase.holds := by simp [phase,TaskPhase.holds]
    exact held.set found rfl (fun _ => .inl (ranged_of_holds holding).2) (fun _ => .inl (ranged_of_holds holding).1)
      (fun _ => id) (fun _ => ⟨held.unmarked j t found holding,held.there j t found holding⟩)
      (fun k u _ inside => held.unmarked k u inside) held.kept
  | accept j t now found holding =>
    refine held.set found rfl (fun _ => .inl (ranged_of_holds holding).2) nofun (fun _ => isSome_updateStatus) nofun ?_ ?_
    · intro k u apart inside holds marked
      rcases List.mem_append.mp marked with old | own
      · exact held.unmarked k u inside holds old
      · exact held.apart found inside holding holds apart (List.mem_singleton.mp own)
    · intro key marked
      rcases List.mem_append.mp marked with old | own
      · exact sent_updateStatus (held.kept key old) (fun _ => rfl)
      · obtain rfl := List.mem_singleton.mp own
        exact sent_markSent (held.there j t found holding)
  | fail j t status error now found holding =>
    refine held.set found rfl nofun nofun (fun _ => isSome_updateStatus) nofun (fun k u _ inside => held.unmarked k u inside) ?_
    intro key marked
    refine sent_updateStatus (held.kept key marked) (fun same => ?_)
    exact absurd (same ▸ marked) (held.unmarked j t found holding)
  | store j t spaceId subs found began written =>
    exact held.set found rfl nofun nofun (fun _ => id) nofun (fun k u _ inside => held.unmarked k u inside) held.kept

/-! ### Dates -/

/-- Whatever is under way is of one day, and no subscription was sent after it. -/
def Dated (w : World) : Prop := ∀ date, Active w date → Since w.subs date ∧ ∀ other, Active w other → other = date

/-- What `last_sent_date` was, it is or has moved on from. -/
def Later (subs subs' : Subscriptions) : Prop :=
  ∀ spaceId sub d, subs.find? spaceId = some sub → sub.lastSentDate = some d →
    ∃ sub' d', subs'.find? spaceId = some sub' ∧ sub'.lastSentDate = some d' ∧ d ≤ d'

theorem Later.refl (subs : Subscriptions) : Later subs subs := fun _ sub d found last => ⟨sub,d,found,last,le_refl d⟩

theorem Later.trans {a b c : Subscriptions} (first : Later a b) (second : Later b c) : Later a c := by
  intro spaceId sub d found last
  obtain ⟨sub',d',found',last',le⟩ := first spaceId sub d found last
  obtain ⟨sub'',d'',found'',last'',le'⟩ := second spaceId sub' d' found' last'
  exact ⟨sub'',d'',found'',last'',le.trans le'⟩

theorem later_markSummarySent {spaceId : String} {date : Date} {subs subs' : Subscriptions} (since : Since subs date)
    (written : markSummarySent spaceId date.text subs = some subs') : Later subs subs' ∧ Since subs' date := by
  obtain ⟨old,found,rfl⟩ := Option.map_eq_some_iff.mp written
  constructor
  · intro other sub d inside last
    rw [Table.find?_upsert]
    split
    · exact ⟨_,date.text,rfl,rfl,since sub (Table.find?_eq_some.mp inside).1 d last⟩
    · exact ⟨sub,d,inside,last,le_refl d⟩
  · intro sub inside d last
    rcases Table.mem_upsert.mp inside with rfl | ⟨member,_⟩
    · cases last
      exact le_refl _
    · exact since sub member d last

theorem Dated.shrink (dated : Dated w) (active : ∀ date, Active w' date → Active w date) (subs : w'.subs = w.subs) : Dated w' := by
  intro date now
  obtain ⟨since,only⟩ := dated date (active date now)
  exact ⟨by rwa [subs],fun other also => only other (active other also)⟩

theorem active_tick {i : Nat} {t t' : Tick} {date : Date} (active : Active w' date) (found : w.ticks[i]? = some t)
    (tasks : w'.tasks = w.tasks) (ticks : w'.ticks = w.ticks.set i t') (today : t'.today = t.today)
    (rest : t'.rest ≠ [] → t.rest ≠ []) : Active w date := by
  rcases active with ⟨k,u,inside,more,rfl⟩ | task
  · rw [ticks] at inside
    by_cases here : k = i
    · subst here
      rw [List.getElem?_set_self'] at inside
      obtain ⟨_,_,rfl⟩ := Option.map_eq_some_iff.mp inside
      exact .inl ⟨k,t,found,rest more,today.symm⟩
    · rw [List.getElem?_set_ne (Ne.symm here)] at inside
      exact .inl ⟨k,u,inside,more,rfl⟩
  · exact .inr (tasks ▸ task)

theorem active_task {j : Nat} {t : SummaryTask} {q : TaskPhase} {date : Date} (active : Active w' date)
    (found : w.tasks[j]? = some t) (ticks : w'.ticks = w.ticks) (tasks : w'.tasks = w.tasks.set j {t with phase := q})
    (began : t.phase ≠ .finished) : Active w date := by
  rcases active with tick | ⟨k,u,inside,more,rfl⟩
  · exact .inl (ticks ▸ tick)
  · rw [tasks] at inside
    rcases task_set inside with ⟨_,rfl⟩ | ⟨_,inside⟩
    · exact .inr ⟨j,t,found,began,rfl⟩
    · exact .inr ⟨k,u,inside,more,rfl⟩

theorem Dated.write (dated : Dated w) (active : ∀ date, Active w' date → Active w date) {spaceId : String} {date : Date}
    (now : Active w date) (written : markSummarySent spaceId date.text w.subs = some w'.subs) :
    Dated w' ∧ Later w.subs w'.subs := by
  obtain ⟨since,only⟩ := dated date now
  obtain ⟨later,since'⟩ := later_markSummarySent since written
  refine ⟨fun date' now' => ?_,later⟩
  obtain rfl := only date' (active date' now')
  exact ⟨since',fun other also => only other (active other also)⟩

theorem dated_change (dated : Dated w) (change : Change w w') : Dated w' ∧ Later w.subs w'.subs := by
  have unfinished : ∀ {p : TaskPhase}, p.holds → p ≠ .finished := by
    rintro p holding rfl
    cases holding
  cases change with
  | tick today nowMinutes rest since alone =>
    refine ⟨fun date active => ?_,Later.refl _⟩
    have day : ∀ date, Active {w with ticks := w.ticks ++ [{today,nowMinutes,rest}]} date → date = today := by
      rintro date (⟨k,u,inside,more,rfl⟩ | task)
      · rw [List.getElem?_append] at inside
        split at inside
        · exact alone _ (.inl ⟨k,u,inside,more,rfl⟩)
        · rw [List.getElem?_singleton] at inside
          split at inside
          · cases inside
            rfl
          · cases inside
      · exact alone date (.inr task)
    obtain rfl := day date active
    exact ⟨since,day⟩
  | pass i t t' found today rest => exact ⟨dated.shrink (fun _ active => active_tick active found rfl rfl today rest) rfl,Later.refl _⟩
  | expire i t key error now found free => exact ⟨dated.shrink (fun _ active => active_tick active found rfl rfl rfl id) rfl,Later.refl _⟩
  | save i t spaceId subs found rest written =>
    exact dated.write (fun _ active => active_tick active found rfl rfl rfl skip_rest) (.inl ⟨i,t,found,rest,rfl⟩) written
  | submit i t sub found rest =>
    refine ⟨dated.shrink ?_ rfl,Later.refl _⟩
    rintro date (tick | ⟨k,u,inside,more,rfl⟩)
    · have going : Active (w.tick i t.skip) date := .inl tick
      exact active_tick going found rfl rfl rfl skip_rest
    · rw [List.getElem?_append] at inside
      split at inside
      · exact .inr ⟨k,u,inside,more,rfl⟩
      · rw [List.getElem?_singleton] at inside
        split at inside
        · cases inside
          exact .inl ⟨i,t,found,rest,rfl⟩
        · cases inside
  | move j t q found moves => exact ⟨dated.shrink (fun _ active => active_task active found rfl rfl moves.began) rfl,Later.refl _⟩
  | reserve j t settings now deliveries found phase reserved =>
    exact ⟨dated.shrink (fun _ active => active_task active found rfl rfl (by simp [phase])) rfl,Later.refl _⟩
  | send j t found phase =>
    exact ⟨dated.shrink (fun _ active => active_task active found rfl rfl (by simp [phase])) rfl,Later.refl _⟩
  | accept j t now found holding =>
    exact ⟨dated.shrink (fun _ active => active_task active found rfl rfl (unfinished holding)) rfl,Later.refl _⟩
  | fail j t status error now found holding =>
    exact ⟨dated.shrink (fun _ active => active_task active found rfl rfl (unfinished holding)) rfl,Later.refl _⟩
  | store j t spaceId subs found began written =>
    exact dated.write (fun _ active => active_task active found rfl rfl began) (.inr ⟨j,t,found,began,rfl⟩) written
  | recover now => exact ⟨dated.shrink (fun _ => id) rfl,Later.refl _⟩

/-! ### Runs -/

/-- What was marked sent stays marked, and is not sent again. -/
structure Settled (w w' : World) : Prop where
  marked : ∀ key ∈ w.marked, key ∈ w'.marked
  sends : ∀ key ∈ w.marked, w'.sends.count key = w.sends.count key
  later : Later w.subs w'.subs

theorem Settled.refl (w : World) : Settled w w := ⟨fun _ => id,fun _ _ => rfl,Later.refl _⟩

theorem Settled.trans {u v w : World} (first : Settled u v) (second : Settled v w) : Settled u w where
  marked key inside := second.marked key (first.marked key inside)
  sends key inside := (second.sends key (first.marked key inside)).trans (first.sends key inside)
  later := first.later.trans second.later

theorem settled_change (held : Held w) (dated : Dated w) (change : Change w w') : Settled w w' := by
  have later := (dated_change dated change).2
  cases change with
  | send j t found phase =>
    refine ⟨fun _ => id,fun key inside => ?_,later⟩
    have apart : t.key ≠ key := by
      rintro rfl
      exact held.unmarked j t found (by simp [phase,TaskPhase.holds]) inside
    simp [List.count_append,apart]
  | accept j t now found holding => exact ⟨fun _ inside => List.mem_append_left _ inside,fun _ _ => rfl,later⟩
  | _ => exact ⟨fun _ => id,fun _ _ => rfl,later⟩

theorem good_run {py : Python} {settings : Settings} {events : List Event} (held : Held w) (dated : Dated w)
    (run : Run (Guarded Calm (Step py settings)) w events w') : Held w' ∧ Dated w' ∧ Settled w w' := by
  refine run.invariant (fun v => Held v ∧ Dated v ∧ Settled w v) ?_ ⟨held,dated,Settled.refl w⟩
  rintro u e v ⟨held,dated,settled⟩ ⟨calm,step⟩
  have change := change_of_step calm step
  exact ⟨held_change held change,(dated_change dated change).1,settled.trans (settled_change held dated change)⟩

/-- Nothing under way, whatever the files hold. -/
def World.start (subs : Subscriptions) (deliveries : Records) : World := {subs,deliveries}

/-- In every calm run, what has been marked sent stays sent and is not sent again, and
the date of the last summary does not go back. -/
theorem sent_once (py : Python) (settings : Settings) (subs : Subscriptions) (deliveries : Records) (before after : List Event)
    (w w' : World) (first : Run (Guarded Calm (Step py settings)) (World.start subs deliveries) before w)
    (second : Run (Guarded Calm (Step py settings)) w after w') :
    (∀ key ∈ w.marked, Sent w'.deliveries key ∧ w'.sends.count key = w.sends.count key) ∧ Later w.subs w'.subs := by
  have held : Held (World.start subs deliveries) := ⟨nofun,nofun,nofun,nofun,nofun⟩
  have dated : Dated (World.start subs deliveries) := by
    rintro date (⟨_,_,inside,_⟩ | ⟨_,_,inside,_⟩) <;> cases inside
  obtain ⟨held,dated,_⟩ := good_run held dated first
  obtain ⟨held',_,settled⟩ := good_run held dated second
  exact ⟨fun key inside => ⟨held'.kept key (settled.marked key inside),settled.sends key inside⟩,settled.later⟩

/-! ### A slow text and a hasty save -/

def ascii : Python where
  int text := some (text.foldl (fun n c => 10 * n + (c.toNat - 48)) 0)
  casefold text := text

def twoMinutes : Settings := {deliveryMaxAttempts := 3,deliveryReservationTtlSeconds := 120,fakeExternals := false}

def firstOfJuly : Date := ⟨"2026-07-01",by decide⟩

def sub (spaceId : String) (lastSentDate : Option String) : SummarySubscription :=
  {spaceId,chatId := "c",enabled := true,time := "22:00",rangeKey := "today",lastSentDate}

def alone : World := .start (Table.empty.upsert (sub "s" none)) .empty

def together : World := .start ((Table.empty.upsert (sub "a" (some "2026-06-30"))).upsert (sub "b" (some "2026-06-30"))) .empty

def World.after (w : World) (events : List Event) : World := (events.foldlM (next ascii twoMinutes) w).getD w

/-- A tick submits the task, `send_text` outlasts the reservation, and a second tick
reads the expired record just before the text is acknowledged. -/
def slow : List Event :=
  [.tick firstOfJuly 1320,.look 0 0,.submit 0 true,.acquire 0,.generate 0 true,.reserve 0 0,.send 0,
    .tick firstOfJuly 1323,.look 1 180000,.answer 0 .accepted,.mark 0 180000]

/-- The second tick writes the reservation off, and its task sends the text again. -/
def again : List Event :=
  [.expire 1 180000,.submit 1 true,.onSent 0,.store 0,.acquire 1,.generate 1 true,.reserve 1 181000,.send 1]

def delivered (j : Nat) : List Event := [.acquire j,.generate j true,.reserve j 0,.send j,.answer j .accepted,.mark j 0]

/-- Two spaces are sent their summaries, and the subscriptions are loaded for both. -/
def both : List Event :=
  [.tick firstOfJuly 1320,.look 0 0,.submit 0 true,.look 0 0,.submit 0 true] ++ delivered 0 ++ delivered 1 ++
    [.onSent 1,.onSent 0,.store 0]

theorem sent_twice :
    (let key := autoSummaryKey "s" "today" firstOfJuly.text
     Run (Step ascii twoMinutes) alone slow (alone.after slow) ∧
      Run (Step ascii twoMinutes) (alone.after slow) again ((alone.after slow).after again) ∧
      key ∈ (alone.after slow).marked ∧ ¬Sent ((alone.after slow).after again).deliveries key ∧
      ((alone.after slow).after again).sends.count key ≠ (alone.after slow).sends.count key) ∧
    (Run (Step ascii twoMinutes) together both (together.after both) ∧
      Run (Step ascii twoMinutes) (together.after both) [.store 1] ((together.after both).after [.store 1]) ∧
      ((together.after both).subs.find? "a").bind SummarySubscription.lastSentDate = some "2026-07-01" ∧
      (((together.after both).after [.store 1]).subs.find? "a").bind SummarySubscription.lastSentDate = some "2026-06-30") := by
  refine ⟨⟨Run.of_isSome (by rfl),Run.of_isSome (by rfl),by decide,?_,by decide⟩,Run.of_isSome (by rfl),
    Run.of_isSome (by rfl),by rfl,by rfl⟩
  rintro ⟨r,found,sent⟩
  have stored : (((alone.after slow).after again).deliveries.find? (autoSummaryKey "s" "today" firstOfJuly.text)).map
      DeliveryRecord.status = some .reserved := by rfl
  rw [found] at stored
  simp [sent] at stored

/-- One space, one tick, one text. -/
def evening : List Event := [.tick firstOfJuly 1320,.look 0 0,.submit 0 true] ++ delivered 0

theorem sent_once_evening :
    (∀ key ∈ (alone.after evening).marked,
      Sent ((alone.after evening).after [.onSent 0,.store 0]).deliveries key ∧
        ((alone.after evening).after [.onSent 0,.store 0]).sends.count key = (alone.after evening).sends.count key) ∧
      Later (alone.after evening).subs ((alone.after evening).after [.onSent 0,.store 0]).subs := by
  have unsent : ∀ sub ∈ alone.subs.rows, sub.lastSentDate = none := by decide
  have since : Since alone.subs firstOfJuly := by
    intro sub inside d last
    rw [unsent sub inside] at last
    cases last
  have idle : ∀ date, Active alone date → date = firstOfJuly := by
    rintro date (⟨_,_,inside,_⟩ | ⟨_,_,inside,_⟩) <;> cases inside
  refine sent_once ascii twoMinutes alone.subs alone.deliveries evening [.onSent 0,.store 0] _ _ ?_ ?_
  · refine .cons ⟨⟨since,idle⟩,rfl⟩ ?_
    iterate 8 refine .cons ⟨trivial,rfl⟩ ?_
    exact .nil _
  · refine .cons ⟨trivial,rfl⟩ (.cons ⟨?_,rfl⟩ (.nil _))
    intro t copy found phase
    cases found
    cases phase
    rfl

end Suixinji.Summaries.Scheduler
