import Suixinji.Relational.ReadWrite
import Suixinji.Relational.Table
import Suixinji.Relational.Text

/-! Summary subscriptions of the local back end. All of them are in one file,
which every call reads whole and writes back whole under two holds of one lock. -/
namespace Suixinji.Summaries
open Suixinji.Relational Suixinji.Transition Suixinji.ReadWrite

structure SummarySubscription where
  spaceId : String
  chatId : String
  enabled : Bool
  time : String
  rangeKey : String
  lastSentDate : Option String := none
  deriving DecidableEq

/-- The file, a dictionary by space. -/
abbrev Subscriptions := Table SummarySubscription.spaceId

/-- `SUMMARY_DEFAULT_TIME`, and what counts as blank and as a decimal digit. -/
structure Config where
  defaultSummaryTime : String
  isSpace : Char → Bool
  isDecimal : Char → Bool

/-- `^([01]\d|2[0-3]):([0-5]\d)$` -/
def timeRe (isDecimal : Char → Bool) : List Char → Bool
  | [a,b,':',c,d] =>
    ((a = '0' ∨ a = '1') ∧ isDecimal b ∨ a = '2' ∧ '0' ≤ b ∧ b ≤ '3') ∧ '0' ≤ c ∧ c ≤ '5' ∧ isDecimal d
  | _ => false

def parseSummaryTime (config : Config) (value : String) : Option String :=
  let value := Text.strip config.isSpace value.toList
  if timeRe config.isDecimal value then some (String.ofList value) else none

/-- `str(value or default)` -/
def orDefault (value : Option String) (default : String) : String :=
  match value with
  | some text => if text = "" then default else text
  | none => default

def enableSummarySubscription (config : Config) (spaceId chatId : String) (items : Subscriptions) : Subscriptions :=
  let old := items.find? spaceId
  items.upsert {
    spaceId, chatId
    enabled := true
    time := orDefault (old.map SummarySubscription.time) config.defaultSummaryTime
    rangeKey := orDefault (old.map SummarySubscription.rangeKey) "today"
    lastSentDate := old.bind SummarySubscription.lastSentDate}

def disableSummarySubscription (spaceId : String) (items : Subscriptions) : Option Subscriptions :=
  (items.find? spaceId).map (fun old => items.upsert {old with enabled := false})

/-- Refused without a look at the file when the time is not HH:MM. -/
def updateSummaryTime (config : Config) (spaceId chatId timeValue : String) (items : Subscriptions) : Option Subscriptions := do
  let parsed ← parseSummaryTime config timeValue
  let old := items.find? spaceId
  some (items.upsert {
    spaceId, chatId
    enabled := (old.map SummarySubscription.enabled).getD true
    time := parsed
    rangeKey := orDefault (old.map SummarySubscription.rangeKey) "today"
    lastSentDate := old.bind SummarySubscription.lastSentDate})

def markSummarySent (spaceId sentDate : String) (items : Subscriptions) : Option Subscriptions :=
  (items.find? spaceId).map (fun old => items.upsert {old with lastSentDate := some sentDate})

inductive Op where
  | enable (spaceId chatId : String)
  | disable (spaceId : String)
  | updateTime (spaceId chatId timeValue : String)
  | markSent (spaceId sentDate : String)
  deriving DecidableEq

/-- What a call gives `_save_raw`, from what `_load_raw` gave it. -/
def saves (config : Config) : Op → Subscriptions → Option Subscriptions
  | .enable spaceId chatId, items => some (enableSummarySubscription config spaceId chatId items)
  | .disable spaceId, items => disableSummarySubscription spaceId items
  | .updateTime spaceId chatId timeValue, items => updateSummaryTime config spaceId chatId timeValue items
  | .markSent spaceId sentDate, items => markSummarySent spaceId sentDate items

abbrev Threads := World Subscriptions Op

def Disabled (spaceId : String) (items : Subscriptions) : Prop := ∃ sub, items.find? spaceId = some sub ∧ sub.enabled = false

/-- What a user turned off, after every call that turned it on, is off. -/
def StaysDisabled (w : Threads) : Prop :=
  ∀ i c spaceId time, w.calls[i]? = some c → c.op = .disable spaceId → c.phase = .returned time true →
    (∀ (j : Nat) d chatId, w.calls[j]? = some d → d.op = .enable spaceId chatId → Before w j i) → Disabled spaceId w.value

theorem disabled_upsert {spaceId : String} {items : Subscriptions} {sub : SummarySubscription}
    (disabled : Disabled spaceId items) (off : sub.spaceId = spaceId → sub.enabled = false) :
    Disabled spaceId (items.upsert sub) := by
  unfold Disabled
  rw [Table.find?_upsert]
  split
  · rename_i same
    exact ⟨sub,rfl,off same.symm⟩
  · exact disabled

theorem disabled_saves {config : Config} {op : Op} {spaceId : String} {items items' : Subscriptions}
    (disabled : Disabled spaceId items) (apart : ∀ chatId, op ≠ .enable spaceId chatId)
    (saved : saves config op items = some items') : Disabled spaceId items' := by
  obtain ⟨sub,found,off⟩ := disabled
  cases op with
  | enable other chatId =>
    cases saved
    exact disabled_upsert ⟨sub,found,off⟩ (fun same => absurd (congrArg (Op.enable · chatId) same) (apart chatId))
  | disable other =>
    obtain ⟨old,_,rfl⟩ := Option.map_eq_some_iff.mp saved
    exact disabled_upsert ⟨sub,found,off⟩ (fun _ => rfl)
  | updateTime other chatId timeValue =>
    obtain ⟨parsed,_,kept⟩ := Option.bind_eq_some_iff.mp saved
    cases kept
    refine disabled_upsert ⟨sub,found,off⟩ (fun same => ?_)
    cases same
    simp [found,off]
  | markSent other sentDate =>
    obtain ⟨old,inside,rfl⟩ := Option.map_eq_some_iff.mp saved
    refine disabled_upsert ⟨sub,found,off⟩ (fun same => ?_)
    have here : other = spaceId := (Table.find?_eq_some.mp inside).2.symm.trans same
    rw [here,found] at inside
    cases inside
    exact off

theorem disabled_serial {config : Config} {spaceId : String} {ops : List Op} {items : Subscriptions}
    (disabled : Disabled spaceId items) (apart : ∀ op ∈ ops, ∀ chatId, op ≠ .enable spaceId chatId) :
    Disabled spaceId (ops.foldl (apply (saves config)) items) := by
  induction ops generalizing items with
  | nil => exact disabled
  | cons op ops ih =>
    refine ih ?_ (fun later inside => apart later (List.mem_cons_of_mem _ inside))
    unfold apply
    cases saved : saves config op items with
    | none => exact disabled
    | some items' => exact disabled_saves disabled (apart op List.mem_cons_self) saved

theorem disabled_disable {config : Config} {spaceId : String} {items : Subscriptions}
    (wrote : (saves config (.disable spaceId) items).isSome) : Disabled spaceId (apply (saves config) items (.disable spaceId)) := by
  obtain ⟨items',saved⟩ := Option.isSome_iff_exists.mp wrote
  unfold apply
  rw [saved]
  obtain ⟨old,found,rfl⟩ := Option.map_eq_some_iff.mp saved
  refine ⟨_,Table.find?_upsert _ _ _ |>.trans (if_pos ?_),rfl⟩
  exact (Table.find?_eq_some.mp found).2.symm

theorem staysDisabled {config : Config} {start : Subscriptions} {w : Threads}
    (explained : Serializable (saves config) start w) : StaysDisabled w := by
  obtain ⟨order,explains,replies⟩ := explained
  intro i c spaceId time found op done enabled
  obtain ⟨before,after,split⟩ := List.append_of_mem ((explains.all i).mpr ⟨c,found,time,true,done⟩)
  have wrote := replies before i after split c time true found done
  have order' := explains.respects
  rw [split,List.pairwise_append,List.pairwise_cons] at order'
  rw [explains.value]
  unfold serial
  rw [split,List.filterMap_append,List.foldl_append,List.filterMap_cons,found]
  simp only [Option.map_some,List.foldl_cons]
  refine disabled_serial ?_ ?_
  · rw [op] at wrote ⊢
    exact disabled_disable wrote.symm
  · intro other inside chatId turned
    obtain ⟨j,later,same⟩ := List.mem_filterMap.mp inside
    obtain ⟨d,call,rfl⟩ := Option.map_eq_some_iff.mp same
    exact order'.2.1.1 j later (enabled j d chatId call turned)

/-- Calls whose saves all find the file they loaded lose nothing. -/
theorem subscriptions_serializable (config : Config) (start : Subscriptions) (events : List (ReadWrite.Event Op)) (w : Threads)
    (run : Run (Guarded Current (ReadWrite.Step (saves config))) {value := start} events w) :
    Serializable (saves config) start w ∧ StaysDisabled w := by
  have explained := serializable_run run
  exact ⟨explained,staysDisabled explained⟩

def evening : Subscriptions :=
  Table.empty.upsert {spaceId := "s",chatId := "c",enabled := true,time := "22:00",rangeKey := "today"}

def plain : Config := {defaultSummaryTime := "22:00",isSpace := Text.isSpace,isDecimal := Char.isDigit}

/-- The callback loads the file, the user turns the summary off, the callback saves its copy. -/
def crossing : List (ReadWrite.Event Op) :=
  [.call (.markSent "s" "2026-07-01"),.call (.disable "s"),.load 0,.load 1,.save 1,.save 0]

/-- The file of the run of these events. -/
def after (events : List (ReadWrite.Event Op)) : Threads := (events.foldlM (next (saves plain)) {value := evening}).getD {value := evening}

theorem turned_on_again :
    Run (ReadWrite.Step (saves plain)) {value := evening} crossing (after crossing) ∧
      (∀ i < (after crossing).calls.length, Returned (after crossing) i) ∧
      (¬∃ order, Explains (saves plain) evening (after crossing) order) ∧ ¬StaysDisabled (after crossing) := by
  have calls : (after crossing).calls = [⟨.markSent "s" "2026-07-01",0,.returned 5 true⟩,⟨.disable "s",1,.returned 4 true⟩] := by
    rfl
  have value : ((after crossing).value.find? "s").map SummarySubscription.enabled = some true := by rfl
  have all : ∀ i, Returned (after crossing) i ↔ i ∈ [0,1] := by
    intro i
    unfold Returned
    rw [calls]
    match i with
    | 0 => simp
    | 1 => simp
    | i+2 => simp
  refine ⟨Run.of_isSome (by rfl),?_,?_,?_⟩
  · intro i bound
    rw [calls] at bound
    have first : i = 0 ∨ i = 1 := by
      simp only [List.length_cons,List.length_nil] at bound
      omega
    exact (all i).mpr (by simpa using first)
  · rintro ⟨order,explains⟩
    have perm : order.Perm [0,1] :=
      (List.perm_ext_iff_of_nodup explains.distinct (by decide)).mpr (fun i => (explains.all i).trans (all i))
    have two := perm.length_eq
    have off : ((serial (saves plain) evening (after crossing) order).find? "s").map SummarySubscription.enabled = some false := by
      match order with
      | [i,j] =>
        have inside := perm.subset
        have apart := explains.distinct
        simp only [List.cons_subset,List.mem_cons,List.not_mem_nil,or_false] at inside
        rcases inside with ⟨rfl | rfl,rfl | rfl,_⟩
        · simp at apart
        · rfl
        · rfl
        · simp at apart
    rw [← explains.value,value] at off
    cases off
  · intro stays
    obtain ⟨sub,found,off⟩ := stays 1 _ "s" 4 (by rw [calls]; rfl) rfl rfl (by
      intro j d chatId inside turned
      rw [calls] at inside
      match j with
      | 0 =>
        cases inside
        cases turned
      | 1 =>
        cases inside
        cases turned
      | j+2 => cases inside)
    rw [found] at value
    simp [off] at value

def inTurn : List (ReadWrite.Event Op) :=
  [.call (.markSent "s" "2026-07-01"),.load 0,.save 0,.call (.disable "s"),.load 1,.save 1]

theorem turned_off : Serializable (saves plain) evening (after inTurn) ∧ StaysDisabled (after inTurn) := by
  refine subscriptions_serializable plain evening inTurn (after inTurn) ?_
  refine .cons ⟨trivial,rfl⟩ (.cons ⟨trivial,rfl⟩ (.cons ⟨?_,rfl⟩ (.cons ⟨trivial,rfl⟩ (.cons ⟨trivial,rfl⟩
    (.cons ⟨?_,rfl⟩ (.nil _))))))
  all_goals
    intro c found copy read
    cases found
    cases read
    rfl

end Suixinji.Summaries
