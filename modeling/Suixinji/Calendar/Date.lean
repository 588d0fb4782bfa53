import Mathlib.Data.Nat.Find
import Mathlib.Order.Monotone.Basic
import Mathlib.Data.String.Basic

/-! The days of the Gregorian calendar from year 1 to year 9999: their numbers, counting from the
first, and their ISO texts, which are in the order of the days. -/
namespace Suixinji.Calendar

def isLeap (y : Nat) : Bool := y % 4 = 0 && (y % 100 ≠ 0 || y % 400 = 0)

/-- The number of the days of a month. -/
def monthLength (y m : Nat) : Nat :=
  if m = 2 then (if isLeap y then 29 else 28) else if m ∈ [4,6,9,11] then 30 else 31

def yearLength (y : Nat) : Nat := if isLeap y then 366 else 365

def daysBeforeYear (y : Nat) : Nat := (y - 1) * 365 + (y - 1) / 4 - (y - 1) / 100 + (y - 1) / 400

def daysBeforeMonth (y : Nat) : Nat → Nat
  | 0 => 0
  | m + 1 => daysBeforeMonth y m + if m = 0 then 0 else monthLength y m

def maxYear : Nat := 9999

structure Date where
  year : Nat
  month : Nat
  day : Nat
  years : 1 ≤ year ∧ year ≤ maxYear
  months : 1 ≤ month ∧ month ≤ 12
  days : 1 ≤ day ∧ day ≤ monthLength year month
  deriving DecidableEq

def Date.make (y m d : Nat) : Option Date :=
  if h : (1 ≤ y ∧ y ≤ maxYear) ∧ (1 ≤ m ∧ m ≤ 12) ∧ 1 ≤ d ∧ d ≤ monthLength y m then some ⟨y,m,d,h.1,h.2.1,h.2.2⟩ else none

/-- The number of a day, 1 for the first. -/
def Date.toOrdinal (d : Date) : Nat := daysBeforeYear d.year + daysBeforeMonth d.year d.month + d.day

def maxOrdinal : Nat := daysBeforeYear (maxYear + 1)

def Date.ofOrdinal (n : Nat) : Option Date :=
  let y := Nat.findGreatest (fun y => daysBeforeYear y < n) maxYear
  let left := n - daysBeforeYear y
  let m := Nat.findGreatest (fun m => daysBeforeMonth y m < left) 12
  Date.make y m (left - daysBeforeMonth y m)

def Date.addDays (d : Date) (n : ℤ) : Option Date := Date.ofOrdinal (d.toOrdinal + n).toNat

/-- 0 for Monday, as the first day was. -/
def Date.weekday (d : Date) : Nat := (d.toOrdinal + 6) % 7

instance : LT Date :=
  ⟨fun a b => a.year < b.year ∨ a.year = b.year ∧ (a.month < b.month ∨ a.month = b.month ∧ a.day < b.day)⟩

instance (a b : Date) : Decidable (a < b) := inferInstanceAs (Decidable (_ ∨ _))

theorem make_eq_some {y m d : Nat} {e : Date} : Date.make y m d = some e ↔ e.year = y ∧ e.month = m ∧ e.day = d := by
  unfold Date.make
  split
  · rw [Option.some.injEq]
    constructor
    · rintro rfl
      exact ⟨rfl,rfl,rfl⟩
    · rintro ⟨rfl,rfl,rfl⟩
      rfl
  · rename_i invalid
    constructor
    · intro made
      cases made
    · rintro ⟨rfl,rfl,rfl⟩
      exact absurd ⟨e.years,e.months,e.days⟩ invalid

theorem daysBeforeYear_succ {y : Nat} (positive : 1 ≤ y) : daysBeforeYear (y + 1) = daysBeforeYear y + yearLength y := by
  obtain ⟨x,rfl⟩ := Nat.exists_eq_add_of_le' positive
  have leap : isLeap (x + 1) = true ↔ 4 ∣ x + 1 ∧ (¬100 ∣ x + 1 ∨ 400 ∣ x + 1) := by
    simp [isLeap,Nat.dvd_iff_mod_eq_zero]
  have hundred : 400 ∣ x + 1 → 100 ∣ x + 1 := fun h => Nat.dvd_trans (by decide) h
  have four : 100 ∣ x + 1 → 4 ∣ x + 1 := fun h => Nat.dvd_trans (by decide) h
  have few : x / 100 ≤ x / 4 := Nat.div_le_div_left (by decide) (by decide)
  unfold daysBeforeYear yearLength
  simp only [Nat.add_sub_cancel,Nat.succ_div,leap]
  by_cases h4 : 4 ∣ x + 1
  · by_cases h100 : 100 ∣ x + 1
    · by_cases h400 : 400 ∣ x + 1 <;> simp only [h4,h100,h400,if_true,if_false,true_and,not_true,false_or,or_true] <;> omega
    · simp only [h4,h100,mt hundred h100,if_true,if_false,true_and,not_false_eq_true,true_or]
      omega
  · simp only [h4,mt four h4,mt hundred (mt four h4),if_false,false_and]
    omega

theorem daysBeforeMonth_succ {y m : Nat} (positive : 1 ≤ m) :
    daysBeforeMonth y (m + 1) = daysBeforeMonth y m + monthLength y m := by
  rw [daysBeforeMonth,if_neg (by omega)]

theorem daysBeforeYear_mono {x y : Nat} (le : x ≤ y) : daysBeforeYear x ≤ daysBeforeYear y := by
  refine monotone_nat_of_le_succ (fun y => ?_) le
  rcases Nat.eq_zero_or_pos y with rfl | positive
  · decide
  · rw [daysBeforeYear_succ positive]
    exact Nat.le_add_right _ _

theorem daysBeforeMonth_mono (y : Nat) {m n : Nat} (le : m ≤ n) : daysBeforeMonth y m ≤ daysBeforeMonth y n := by
  induction le with
  | refl => exact le_rfl
  | step _ ih => exact ih.trans (Nat.le_add_right _ _)

theorem daysBeforeMonth_year (y : Nat) : daysBeforeMonth y 13 = yearLength y := by
  simp only [daysBeforeMonth,monthLength,yearLength]
  cases isLeap y <;> simp

theorem Date.before_year (d : Date) : daysBeforeYear d.year < d.toOrdinal ∧ d.toOrdinal ≤ daysBeforeYear (d.year + 1) := by
  have whole := daysBeforeMonth_mono d.year (show d.month + 1 ≤ 13 by have := d.months; omega)
  rw [daysBeforeMonth_succ d.months.1,daysBeforeMonth_year] at whole
  rw [daysBeforeYear_succ d.years.1]
  have := d.days
  unfold Date.toOrdinal
  omega

theorem Date.before_month (d : Date) : daysBeforeMonth d.year d.month < d.toOrdinal - daysBeforeYear d.year ∧
    d.toOrdinal - daysBeforeYear d.year ≤ daysBeforeMonth d.year (d.month + 1) := by
  rw [daysBeforeMonth_succ d.months.1]
  have := d.days
  unfold Date.toOrdinal
  omega

theorem Date.ofOrdinal_toOrdinal (d : Date) : Date.ofOrdinal d.toOrdinal = some d := by
  have inYear := d.before_year
  have inMonth := d.before_month
  have year : Nat.findGreatest (fun y => daysBeforeYear y < d.toOrdinal) maxYear = d.year := by
    refine Nat.findGreatest_eq_iff.mpr ⟨d.years.2,fun _ => inYear.1,fun y later _ low => ?_⟩
    have := daysBeforeYear_mono (show d.year + 1 ≤ y from later)
    omega
  have month : Nat.findGreatest (fun m => daysBeforeMonth d.year m < d.toOrdinal - daysBeforeYear d.year) 12 = d.month := by
    refine Nat.findGreatest_eq_iff.mpr ⟨d.months.2,fun _ => inMonth.1,fun m later _ low => ?_⟩
    have := daysBeforeMonth_mono d.year (show d.month + 1 ≤ m from later)
    omega
  simp only [Date.ofOrdinal,year,month]
  refine make_eq_some.mpr ⟨rfl,rfl,?_⟩
  unfold Date.toOrdinal
  omega

/-- Every number up to the last is that of a day. -/
theorem exists_ofOrdinal {n : Nat} (positive : 1 ≤ n) (bounded : n ≤ maxOrdinal) : ∃ d : Date, d.toOrdinal = n := by
  have first : daysBeforeYear 1 < n := positive
  let y := Nat.findGreatest (fun y => daysBeforeYear y < n) maxYear
  have le : 1 ≤ y := Nat.le_findGreatest (by decide) first
  have low : daysBeforeYear y < n := Nat.findGreatest_spec (P := fun y => daysBeforeYear y < n) (m := 1) (by decide) first
  have small : y ≤ maxYear := Nat.findGreatest_le maxYear
  have high : n ≤ daysBeforeYear (y + 1) := by
    rcases small.lt_or_eq with below | last
    · by_contra above
      exact Nat.findGreatest_is_greatest (P := fun y => daysBeforeYear y < n) (Nat.lt_succ_self y) below (not_le.mp above)
    · rwa [last]
  rw [daysBeforeYear_succ le] at high
  have start : daysBeforeMonth y 1 < n - daysBeforeYear y := by
    simp only [daysBeforeMonth,if_true]
    omega
  let m := Nat.findGreatest (fun m => daysBeforeMonth y m < n - daysBeforeYear y) 12
  have le' : 1 ≤ m := Nat.le_findGreatest (by decide) start
  have low' : daysBeforeMonth y m < n - daysBeforeYear y :=
    Nat.findGreatest_spec (P := fun m => daysBeforeMonth y m < n - daysBeforeYear y) (m := 1) (by decide) start
  have small' : m ≤ 12 := Nat.findGreatest_le 12
  have high' : n - daysBeforeYear y ≤ daysBeforeMonth y (m + 1) := by
    rcases small'.lt_or_eq with below | last
    · by_contra above
      exact Nat.findGreatest_is_greatest (P := fun m => daysBeforeMonth y m < n - daysBeforeYear y) (Nat.lt_succ_self m)
        below (not_le.mp above)
    · rw [last,daysBeforeMonth_year]
      omega
  rw [daysBeforeMonth_succ le'] at high'
  refine ⟨⟨y,m,n - daysBeforeYear y - daysBeforeMonth y m,⟨le,small⟩,⟨le',small'⟩,by omega⟩,?_⟩
  simp only [Date.toOrdinal]
  omega

theorem Date.toOrdinal_bounds (d : Date) : 1 ≤ d.toOrdinal ∧ d.toOrdinal ≤ maxOrdinal := by
  have before := d.before_year
  have last : daysBeforeYear (d.year + 1) ≤ maxOrdinal := daysBeforeYear_mono (Nat.succ_le_succ d.years.2)
  omega

theorem Date.ofOrdinal_eq_some {n : Nat} {d : Date} : Date.ofOrdinal n = some d ↔ d.toOrdinal = n := by
  constructor
  · intro found
    obtain ⟨year,month,day⟩ := make_eq_some.mp found
    have y : daysBeforeYear d.year < n := by
      rw [year]
      exact Nat.findGreatest_of_ne_zero (P := fun y => daysBeforeYear y < n) rfl (by have := d.years; omega)
    have m : daysBeforeMonth d.year d.month < n - daysBeforeYear d.year := by
      rw [month,← year]
      exact Nat.findGreatest_of_ne_zero (P := fun m => daysBeforeMonth d.year m < n - daysBeforeYear d.year) rfl
        (by rw [year,← month]; have := d.months; omega)
    rw [← month,← year] at day
    unfold Date.toOrdinal
    omega
  · rintro rfl
    exact d.ofOrdinal_toOrdinal

theorem Date.addDays_eq_some {d e : Date} {n : ℤ} : d.addDays n = some e ↔ (e.toOrdinal : ℤ) = d.toOrdinal + n := by
  have positive := e.toOrdinal_bounds
  rw [Date.addDays,Date.ofOrdinal_eq_some]
  omega

theorem Date.exists_addDays {d : Date} {n : ℤ} (first : 1 ≤ d.toOrdinal + n) (last : d.toOrdinal + n ≤ maxOrdinal) :
    ∃ e, d.addDays n = some e := by
  obtain ⟨e,number⟩ := exists_ofOrdinal (n := (d.toOrdinal + n).toNat) (by omega) (by omega)
  exact ⟨e,Date.ofOrdinal_eq_some.mpr number⟩

theorem Date.lt_iff {a b : Date} : a < b ↔ a.toOrdinal < b.toOrdinal := by
  have less : ∀ {a b : Date}, a < b → a.toOrdinal < b.toOrdinal := by
    rintro a b (year | ⟨year,month | ⟨month,day⟩⟩)
    · have later := daysBeforeYear_mono (show a.year + 1 ≤ b.year from year)
      have := a.before_year
      have := b.before_year
      omega
    · have later := daysBeforeMonth_mono b.year (show a.month + 1 ≤ b.month from month)
      have ina := a.before_month
      have inb := b.before_month
      rw [year] at ina
      omega
    · unfold Date.toOrdinal
      rw [year,month]
      omega
  refine ⟨less,fun number => ?_⟩
  by_contra notless
  rcases Nat.lt_trichotomy a.year b.year with h | year | h
  · exact notless (.inl h)
  · rcases Nat.lt_trichotomy a.month b.month with h | month | h
    · exact notless (.inr ⟨year,.inl h⟩)
    · rcases Nat.lt_trichotomy a.day b.day with h | day | h
      · exact notless (.inr ⟨year,.inr ⟨month,h⟩⟩)
      · unfold Date.toOrdinal at number
        rw [year,month,day] at number
        exact Nat.lt_irrefl _ number
      · exact absurd (less (a := b) (b := a) (.inr ⟨year.symm,.inr ⟨month.symm,h⟩⟩)) (by omega)
    · exact absurd (less (a := b) (b := a) (.inr ⟨year.symm,.inl h⟩)) (by omega)
  · exact absurd (less (a := b) (b := a) (.inl h)) (by omega)

def digitChar (n : Nat) : Char := Char.ofNat (48 + n)

/-- So many decimal digits of a number. -/
def padded : Nat → Nat → List Char
  | 0, _ => []
  | w + 1, n => padded w (n / 10) ++ [digitChar (n % 10)]

def Date.isoformat (d : Date) : String :=
  String.ofList (padded 4 d.year ++ '-' :: (padded 2 d.month ++ '-' :: padded 2 d.day))

theorem digitChar_lt {a b : Nat} (ha : a < 10) (hb : b < 10) : digitChar a < digitChar b ↔ a < b := by
  have all : ∀ a < 10, ∀ b < 10, (digitChar a < digitChar b ↔ a < b) := by decide
  exact all a ha b hb

theorem digitChar_inj {a b : Nat} (ha : a < 10) (hb : b < 10) : digitChar a = digitChar b ↔ a = b := by
  have all : ∀ a < 10, ∀ b < 10, (digitChar a = digitChar b ↔ a = b) := by decide
  exact all a ha b hb

theorem padded_lt (w : Nat) {a b : Nat} (xs ys : List Char) (ha : a < 10 ^ w) (hb : b < 10 ^ w) :
    padded w a ++ xs < padded w b ++ ys ↔ a < b ∨ a = b ∧ xs < ys := by
  induction w generalizing a b xs ys with
  | zero =>
    obtain rfl : a = 0 := by simpa using ha
    obtain rfl : b = 0 := by simpa using hb
    simp [padded]
  | succ w ih =>
    rw [padded,padded,List.append_assoc,List.append_assoc,ih _ _ (by omega) (by omega),List.singleton_append,
      List.singleton_append,List.cons_lt_cons_iff,digitChar_lt (by omega) (by omega),digitChar_inj (by omega) (by omega)]
    constructor
    · rintro (high | ⟨high,low | ⟨low,rest⟩⟩)
      · exact .inl (by omega)
      · exact .inl (by omega)
      · exact .inr ⟨by omega,rest⟩
    · rintro (less | ⟨rfl,rest⟩)
      · rcases Nat.lt_or_ge (a / 10) (b / 10) with high | high
        · exact .inl high
        · exact .inr ⟨by omega,.inl (by omega)⟩
      · exact .inr ⟨rfl,.inr ⟨rfl,rest⟩⟩

/-- The texts are in the order of the days. -/
theorem Date.isoformat_lt {a b : Date} : a.isoformat < b.isoformat ↔ a < b := by
  have la := a.days
  have lb := b.days
  have short : ∀ y m, monthLength y m ≤ 31 := by
    intro y m
    unfold monthLength
    repeat' split
    all_goals decide
  have sa := short a.year a.month
  have sb := short b.year b.month
  have ya := a.years
  have yb := b.years
  have ma := a.months
  have mb := b.months
  unfold maxYear at ya yb
  rw [String.lt_iff_toList_lt,Date.isoformat,Date.isoformat,String.toList_ofList,String.toList_ofList,
    padded_lt 4 _ _ (by omega) (by omega),List.cons_lt_cons_iff,padded_lt 2 _ _ (by omega) (by omega),List.cons_lt_cons_iff]
  have day := padded_lt 2 [] [] (a := a.day) (b := b.day) (by omega) (by omega)
  simp only [List.append_nil,List.not_lt_nil,and_false,or_false] at day
  rw [day]
  simp only [lt_irrefl,false_or,true_and]
  rfl

end Suixinji.Calendar
