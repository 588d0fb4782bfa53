import Suixinji.Calendar.Range

/-! What `resolve_range` does with any text, with the expressions of a time query, and with
the months and weeks around a day. -/
namespace Suixinji.Calendar

/-- No day that the phrase counts to is outside the calendar. -/
def Phrase.Within (day : Date) : Phrase → Prop
  | .week offset _ => 1 ≤ day.toOrdinal - day.weekday + 7 * offset ∧ day.toOrdinal - day.weekday + 7 * offset + 6 ≤ maxOrdinal
  | .relative offset => 1 ≤ day.toOrdinal + offset ∧ day.toOrdinal + offset ≤ maxOrdinal
  | .recent count => count ≤ day.toOrdinal
  | _ => True

/-- The date that the phrase names is one, the month is one of the calendar,
and the days are not none. -/
def Phrase.Possible (day : Date) : Phrase → Prop
  | .iso text => ∃ d, fromisoformat text = .ok d
  | .date y m n => ∃ d, Date.make (y.getD day.year) m n = some d
  | .month offset => 12 ≤ day.year * 12 + day.month - 1 + offset ∧ day.year * 12 + day.month - 1 + offset < 12 * (maxYear + 1)
  | .recent count => 1 ≤ count
  | _ => True

theorem plus_ok {day e : Date} {n : ℤ} : plus day n = .ok e ↔ (e.toOrdinal : ℤ) = day.toOrdinal + n := by
  rw [← Date.addDays_eq_some,plus]
  cases day.addDays n <;> simp

theorem exists_plus (day : Date) (n : ℤ) (first : 1 ≤ day.toOrdinal + n) (last : day.toOrdinal + n ≤ maxOrdinal) :
    ∃ e, plus day n = .ok e ∧ (e.toOrdinal : ℤ) = day.toOrdinal + n := by
  obtain ⟨e,made⟩ := Date.exists_addDays first last
  have number := Date.addDays_eq_some.mp made
  exact ⟨e,plus_ok.mpr number,number⟩

theorem date_ok {y m n : Nat} {d : Date} : date y m n = .ok d ↔ Date.make y m n = some d := by
  rw [date]
  cases Date.make y m n <;> simp

theorem date_error {y m n : Nat} {e : Failure} (failed : date y m n = .error e) : e = .value := by
  rw [date] at failed
  cases made : Date.make y m n with
  | none =>
    rw [made] at failed
    cases failed
    rfl
  | some d =>
    rw [made] at failed
    cases failed

theorem date_none {y m n : Nat} (missing : ∀ d, Date.make y m n ≠ some d) : date y m n = .error .value := by
  cases made : date y m n with
  | error e => rw [date_error made]
  | ok d => exact absurd (date_ok.mp made) (missing d)

theorem fromisoformat_error {text : List Char} {e : Failure} (failed : fromisoformat text = .error e) : e = .value := by
  unfold fromisoformat at failed
  dsimp only at failed
  split at failed
  · split at failed
    · exact date_error failed
    · cases failed
      rfl
  · cases failed
    rfl

theorem monthLength_pos (y m : Nat) : 1 ≤ monthLength y m := by
  unfold monthLength
  repeat' split
  all_goals decide

theorem exists_month {y m : Nat} (years : 1 ≤ y ∧ y ≤ maxYear) (months : 1 ≤ m ∧ m ≤ 12) :
    ∃ a b, date y m 1 = .ok a ∧ date y m (monthLength y m) = .ok b ∧
      a.toOrdinal = daysBeforeYear y + daysBeforeMonth y m + 1 ∧ b.toOrdinal = daysBeforeYear y + daysBeforeMonth y (m + 1) := by
  have positive := monthLength_pos y m
  refine ⟨⟨y,m,1,years,months,le_rfl,positive⟩,⟨y,m,monthLength y m,years,months,positive,le_rfl⟩,date_ok.mpr ?_,
    date_ok.mpr ?_,rfl,?_⟩
  · exact make_eq_some.mpr ⟨rfl,rfl,rfl⟩
  · exact make_eq_some.mpr ⟨rfl,rfl,rfl⟩
  · rw [daysBeforeMonth_succ months.1]
    simp only [Date.toOrdinal]
    omega

theorem Phrase.week_dates {day : Date} {offset : ℤ} {weekday : Option (Fin 7)} (within : (Phrase.week offset weekday).Within day) :
    ∃ a b, (Phrase.week offset weekday).dates day = .ok (some (a,b)) ∧
      (a.toOrdinal : ℤ) = day.toOrdinal - day.weekday + 7 * offset + ((weekday.map Fin.val).getD 0 : ℕ) ∧
      (b.toOrdinal : ℤ) = day.toOrdinal - day.weekday + 7 * offset + ((weekday.map Fin.val).getD 6 : ℕ) := by
  obtain ⟨first,last⟩ := within
  have bounds := day.toOrdinal_bounds
  have aligned : day.weekday < day.toOrdinal := by
    unfold Date.weekday
    omega
  obtain ⟨monday,atMonday,isMonday⟩ := exists_plus day (-day.weekday) (by omega) (by omega)
  obtain ⟨start,atStart,isStart⟩ := exists_plus monday (7 * offset) (by omega) (by omega)
  obtain ⟨end_,atEnd,isEnd⟩ := exists_plus start 6 (by omega) (by omega)
  simp only [Phrase.dates,atMonday,atStart,atEnd,bind,Except.bind]
  cases weekday with
  | none =>
    refine ⟨start,end_,rfl,?_,?_⟩
    · simp only [Option.map_none,Option.getD_none]
      omega
    · simp only [Option.map_none,Option.getD_none]
      omega
  | some i =>
    have small := i.isLt
    obtain ⟨d,atDay,isDay⟩ := exists_plus start i.val (by omega) (by omega)
    refine ⟨d,d,by simp only [atDay]; rfl,?_,?_⟩
    · simp only [Option.map_some,Option.getD_some]
      omega
    · simp only [Option.map_some,Option.getD_some]
      omega

theorem Phrase.month_dates {day : Date} {offset : ℤ} (possible : (Phrase.month offset).Possible day) :
    ∃ (y m : ℕ) (a b : Date), (1 ≤ y ∧ y ≤ maxYear) ∧ (1 ≤ m ∧ m ≤ 12) ∧ (y * 12 + m : ℤ) = day.year * 12 + day.month + offset ∧
      (Phrase.month offset).dates day = .ok (some (a,b)) ∧ a.toOrdinal = daysBeforeYear y + daysBeforeMonth y m + 1 ∧
      b.toOrdinal = daysBeforeYear y + daysBeforeMonth y (m + 1) := by
  obtain ⟨low,high⟩ := possible
  let number : ℤ := day.year * 12 + day.month - 1 + offset
  have years : 1 ≤ (number / 12).toNat ∧ (number / 12).toNat ≤ maxYear := by
    unfold maxYear at high ⊢
    omega
  have months : 1 ≤ (number % 12).toNat + 1 ∧ (number % 12).toNat + 1 ≤ 12 := by omega
  obtain ⟨a,b,first,last,isFirst,isLast⟩ := exists_month years months
  refine ⟨_,_,a,b,years,months,?_,?_,isFirst,isLast⟩
  · push_cast
    omega
  · simp only [Phrase.dates,bind,Except.bind]
    rw [first]
    dsimp only
    rw [last]
    rfl

/-- Where the days stay in the calendar, a possible phrase has its dates in order, and
an impossible one raises `ValueError` or, for no days, has none. -/
theorem Phrase.dates_spec {day : Date} {p : Phrase} (within : p.Within day) :
    (p.Possible day → ∃ a b, p.dates day = .ok (some (a,b)) ∧ a.toOrdinal ≤ b.toOrdinal) ∧
      (¬p.Possible day → p.dates day = .error .value ∨ p.dates day = .ok none) := by
  cases p with
  | iso text =>
    constructor
    · rintro ⟨d,read⟩
      exact ⟨d,d,by simp only [Phrase.dates,read,bind,Except.bind]; rfl,le_rfl⟩
    · intro impossible
      cases read : fromisoformat text with
      | error e => exact .inl (by simp only [Phrase.dates,read,fromisoformat_error read]; rfl)
      | ok d => exact absurd ⟨d,read⟩ impossible
  | date y m n =>
    constructor
    · rintro ⟨d,made⟩
      exact ⟨d,d,by simp only [Phrase.dates,date_ok.mpr made,bind,Except.bind]; rfl,le_rfl⟩
    · intro impossible
      have missing := date_none (fun d made => impossible ⟨d,made⟩)
      exact .inl (by simp only [Phrase.dates,missing]; rfl)
  | week offset weekday =>
    refine ⟨fun _ => ?_,fun impossible => absurd trivial impossible⟩
    obtain ⟨a,b,dates,first,last⟩ := Phrase.week_dates within
    refine ⟨a,b,dates,?_⟩
    cases weekday <;> simp at first last <;> omega
  | monthEnd =>
    refine ⟨fun _ => ?_,fun impossible => absurd trivial impossible⟩
    obtain ⟨_,d,_,last,_⟩ := exists_month day.years day.months
    exact ⟨d,d,by simp only [Phrase.dates,last,bind,Except.bind]; rfl,le_rfl⟩
  | relative offset =>
    refine ⟨fun _ => ?_,fun impossible => absurd trivial impossible⟩
    obtain ⟨d,moved,_⟩ := exists_plus day offset within.1 within.2
    exact ⟨d,d,by simp only [Phrase.dates,moved,bind,Except.bind]; rfl,le_rfl⟩
  | month offset =>
    constructor
    · intro possible
      obtain ⟨y,m,a,b,_,months,_,dates,first,last⟩ := Phrase.month_dates possible
      rw [daysBeforeMonth_succ months.1] at last
      have := monthLength_pos y m
      exact ⟨a,b,dates,by omega⟩
    · intro impossible
      have missing : Calendar.date ((day.year * 12 + day.month - 1 + offset : ℤ) / 12).toNat
          (((day.year * 12 + day.month - 1 + offset : ℤ) % 12).toNat + 1) 1 = .error .value := by
        refine date_none (fun d made => impossible ?_)
        have years := d.years
        rw [(make_eq_some.mp made).1] at years
        unfold maxYear at years
        have low : 12 ≤ (day.year : ℤ) * 12 + day.month - 1 + offset := by omega
        have high : (day.year : ℤ) * 12 + day.month - 1 + offset < 12 * (maxYear + 1) := by
          unfold maxYear
          omega
        exact ⟨low,high⟩
      exact .inl (by simp only [Phrase.dates,missing]; rfl)
  | recent count =>
    have inside : count ≤ day.toOrdinal := within
    constructor
    · intro possible
      have positive : 1 ≤ count := possible
      have bounds := day.toOrdinal_bounds
      obtain ⟨start,moved,isStart⟩ := exists_plus day (-(count - 1)) (by omega) (by omega)
      refine ⟨start,day,?_,by omega⟩
      simp only [Phrase.dates,if_neg (show ¬count < 1 by omega),moved,bind,Except.bind]
      rfl
    · intro impossible
      have none : count < 1 := not_le.mp impossible
      exact .inr (by simp only [Phrase.dates,if_pos none]; rfl)

/-- The texts between the separators at which a text is taken apart. -/
def parts (text : List Char) : List (List Char) :=
  match _ : interval text with
  | none => [text]
  | some (l,r) => parts l ++ parts r
  termination_by text.length
  decreasing_by
    · exact (interval_smaller ‹_›).1
    · exact (interval_smaller ‹_›).2

def InCalendar (digits : Digits) (day : Date) (text : List Char) : Prop :=
  ∀ t ∈ parts text, ∀ p, phrase digits t = some p → p.Within day

/-- Nothing, a `ValueError`, or a range of ISO dates in order. -/
def Orderly : Except Failure (Option Period) → Prop
  | .ok none => True
  | .ok (some p) => (∃ a b : Date, p.start = a.isoformat ∧ p.last = b.isoformat) ∧ p.start ≤ p.last
  | .error e => e = .value

variable {digits : Digits} {day : Date} {timezone : String}

theorem isoformat_le {a b : Date} (le : a.toOrdinal ≤ b.toOrdinal) : a.isoformat ≤ b.isoformat := by
  rw [← not_lt,Date.isoformat_lt,Date.lt_iff]
  exact not_lt.mpr le

theorem resolvePhrase_spec (timezone : String) {text : List Char} {p : Phrase} (read : phrase digits text = some p) (within : p.Within day) :
    (p.Possible day → ∃ a b : Date, resolvePhrase digits day timezone text = .ok (some ⟨a.isoformat,b.isoformat,timezone⟩) ∧
        a.toOrdinal ≤ b.toOrdinal) ∧
      (¬p.Possible day → resolvePhrase digits day timezone text = .error .value ∨
        resolvePhrase digits day timezone text = .ok none) := by
  obtain ⟨possible,impossible⟩ := Phrase.dates_spec within
  constructor
  · intro h
    obtain ⟨a,b,dates,le⟩ := possible h
    refine ⟨a,b,?_,le⟩
    simp only [resolvePhrase,read,dates,bind,Except.bind]
    rw [if_neg (by rw [Date.lt_iff]; omega)]
    rfl
  · intro h
    rcases impossible h with dates | dates
    · exact .inl (by simp only [resolvePhrase,read,dates]; rfl)
    · exact .inr (by simp only [resolvePhrase,read,dates]; rfl)

theorem resolvePhrase_orderly {text : List Char} (within : ∀ p, phrase digits text = some p → p.Within day) :
    Orderly (resolvePhrase digits day timezone text) := by
  cases read : phrase digits text with
  | none =>
    simp only [resolvePhrase,read]
    trivial
  | some p =>
    obtain ⟨possible,impossible⟩ := resolvePhrase_spec timezone read (within p read)
    by_cases h : p.Possible day
    · obtain ⟨a,b,resolved,le⟩ := possible h
      rw [resolved]
      exact ⟨⟨a,b,rfl,rfl⟩,isoformat_le le⟩
    · rcases impossible h with resolved | resolved
      · rw [resolved]
        rfl
      · rw [resolved]
        trivial

theorem parts_none {text : List Char} (single : interval text = none) : parts text = [text] := by
  rw [parts]
  split
  · rfl
  · rename_i found
    rw [single] at found
    cases found

theorem parts_some {text l r : List Char} (pair : interval text = some (l,r)) : parts text = parts l ++ parts r := by
  rw [parts]
  split
  · rename_i found
    rw [pair] at found
    cases found
  · rename_i found
    rw [pair] at found
    cases found
    rfl

theorem resolveText_none {text : List Char} (some : text ≠ []) (single : interval text = none) :
    resolveText digits day timezone text = resolvePhrase digits day timezone text := by
  rw [resolveText,if_neg some]
  split
  · rfl
  · rename_i found
    rw [single] at found
    cases found

theorem resolveText_some {text l r : List Char} (pair : interval text = some (l,r)) :
    resolveText digits day timezone text = (do
      let left ← resolveText digits day timezone l
      let right ← resolveText digits day timezone r
      match left,right with
      | some left,some right =>
        if right.last < left.start then .error .value else return some ⟨left.start,right.last,timezone⟩
      | _,_ => return none) := by
  have some : text ≠ [] := by
    rintro rfl
    cases pair
  rw [resolveText,if_neg some]
  split
  · rename_i found
    rw [pair] at found
    cases found
  · rename_i found
    rw [pair] at found
    cases found
    rfl

/-- The induction follows the intervals: each side is a shorter text. -/
theorem resolveText_orderly (text : List Char) (within : InCalendar digits day text) :
    Orderly (resolveText digits day timezone text) := by
  induction size : text.length using Nat.strongRecOn generalizing text with
  | ind n ih =>
    by_cases empty : text = []
    · rw [resolveText,if_pos empty]
      trivial
    cases pair : interval text with
    | none =>
      rw [resolveText_none empty pair]
      exact resolvePhrase_orderly (fun p => within text (by rw [parts_none pair]; exact List.mem_singleton.mpr rfl) p)
    | some sides =>
      obtain ⟨l,r⟩ := sides
      obtain ⟨shorter,shorter'⟩ := interval_smaller pair
      rw [InCalendar,parts_some pair] at within
      have left := ih l.length (by omega) l (fun t member => within t (List.mem_append_left _ member)) rfl
      have right := ih r.length (by omega) r (fun t member => within t (List.mem_append_right _ member)) rfl
      rw [resolveText_some pair]
      cases first : resolveText digits day timezone l with
      | error e =>
        rw [first] at left
        exact left
      | ok start =>
        cases second : resolveText digits day timezone r with
        | error e =>
          rw [second] at right
          exact right
        | ok last =>
          rw [first] at left
          rw [second] at right
          cases start with
          | none => trivial
          | some start =>
            cases last with
            | none => trivial
            | some last =>
              obtain ⟨⟨a,_,isA,_⟩,_⟩ := left
              obtain ⟨⟨_,b,_,isB⟩,_⟩ := right
              simp only [bind,Except.bind]
              split
              · rfl
              · rename_i ordered
                exact ⟨⟨a,b,isA,isB⟩,not_lt.mp ordered⟩

end Suixinji.Calendar
