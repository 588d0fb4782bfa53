import Mathlib.Data.Bool.AllAny
import Mathlib.Data.List.TakeWhile
import Suixinji.Calendar.Ordered

/-! The expressions that a time query looks for (`EXPRESSION`, memory/time_query.py) are all read,
and the months and weeks around a day follow each other. -/
namespace Suixinji.Calendar

variable {digits : Digits} {day : Date} {timezone : String}

/-- Some digits, at least and at most so many. -/
def Numeral (digits : Digits) (low high : Nat) (cs : List Char) : Prop :=
  (∀ c ∈ cs, (digits.value c).isSome) ∧ low ≤ cs.length ∧ cs.length ≤ high

/-- `(?:\d{4}年)?\d{1,2}月\d{1,2}[日号]?`. -/
inductive MonthDay (digits : Digits) : List Char → Prop
  | dated {y m d tail : List Char} (year : Numeral digits 4 4 y) (month : Numeral digits 1 2 m) (day : Numeral digits 1 2 d)
      (ending : tail ∈ [[],['日'],['号']]) : MonthDay digits (y ++ '年'::(m ++ '月'::(d ++ tail)))
  | undated {m d tail : List Char} (month : Numeral digits 1 2 m) (day : Numeral digits 1 2 d)
      (ending : tail ∈ [[],['日'],['号']]) : MonthDay digits (m ++ '月'::(d ++ tail))

def weekHeads : List (List Char) := [['上','上'],['下','下'],['上'],['下'],['本'],['这']]

def dayChars : List Char := ['一','二','三','四','五','六','日','天']

/-- What has no separator in it. -/
inductive Single (digits : Digits) : List Char → Prop
  | iso {t : List Char} (shape : isoShape digits t) : Single digits t
  | week {t : List Char} (listed : t ∈ weekHeads.flatMap (fun head => [['周'],['星','期']].flatMap (fun unit =>
      ([] :: dayChars.map ([·])).map (fun tail => head ++ unit ++ tail)))) : Single digits t
  | month {t : List Char} (listed : t ∈ ['上','本','这','下'].flatMap (fun c => [[c,'个','月'],[c,'月']])) : Single digits t
  | relative {t : List Char} (listed : t ∈ [['前','天'],['昨','天'],['今','天'],['明','天'],['后','天']]) : Single digits t
  | recent {head cs : List Char} (first : head ∈ [['最','近'],['近']])
      (counted : cs ∈ numerals.map ([·]) ∨ (∀ c ∈ cs, (digits.value c).isSome) ∧ cs ≠ []) : Single digits (head ++ cs ++ ['天'])
  | monthDay {t : List Char} (dates : MonthDay digits t) : Single digits t

/-- `EXPRESSION`: an interval of dates of one kind, or a single expression. -/
inductive Expression (digits : Digits) : List Char → Prop
  | monthDays {s t : List Char} {c : Char} (first : MonthDay digits s) (separator : c ∈ separators)
      (last : MonthDay digits t) : Expression digits (s ++ c::t)
  | isos {s t : List Char} {c : Char} (first : isoShape digits s) (separator : c ∈ separators)
      (last : isoShape digits t) : Expression digits (s ++ c::t)
  | single {t : List Char} (single : Single digits t) : Expression digits t

/-! ### Reading -/

theorem read_numeral {cs : List Char} (rest : List Char) (all : ∀ c ∈ cs, (digits.value c).isSome)
    (stop : ∀ c ∈ rest.head?, digits.value c = none) :
    ∃ ns, ns.length = cs.length ∧ digits.read (cs ++ rest) = (ns,rest) := by
  induction cs with
  | nil =>
    refine ⟨[],rfl,?_⟩
    cases rest with
    | nil => rfl
    | cons c rest => simp [Digits.read,stop c rfl]
  | cons c cs ih =>
    obtain ⟨ns,long,read⟩ := ih (fun x member => all x (List.mem_cons_of_mem _ member))
    obtain ⟨n,value⟩ := Option.isSome_iff_exists.mp (all c List.mem_cons_self)
    exact ⟨n::ns,by simp [long],by simp [Digits.read,value,read]⟩

theorem monthThenDay_read {m d tail : List Char} (month : Numeral digits 1 2 m) (day : Numeral digits 1 2 d)
    (ending : tail ∈ [[],['日'],['号']]) : ∃ md, monthThenDay digits (m ++ '月'::(d ++ tail)) = some md := by
  have marked : ∀ tail ∈ [[],['日'],['号']], tail ⊆ signs := by decide
  obtain ⟨ms,mlong,mread⟩ := read_numeral ('月'::(d ++ tail)) month.1 (by
    intro c head
    cases head
    exact digits.plain _ (by decide))
  obtain ⟨ds,dlong,dread⟩ := read_numeral _ day.1 (fun c head => digits.plain c (marked tail ending (List.mem_of_mem_head? head)))
  refine ⟨(number ms,number ds),?_⟩
  have mcount := month.2
  have dcount := day.2
  simp only [monthThenDay,mread,dread]
  rw [if_pos ⟨by omega,by omega,ending⟩]

theorem monthDay_read {t : List Char} (dates : MonthDay digits t) : (monthDay digits t).isSome := by
  cases dates with
  | @dated y m d tail year month day ending =>
    obtain ⟨ys,long,read⟩ := read_numeral ('年'::(m ++ '月'::(d ++ tail))) year.1 (by
      intro c head
      cases head
      exact digits.plain _ (by decide))
    obtain ⟨md,rest⟩ := monthThenDay_read month day ending
    have four := year.2
    simp only [monthDay,read,rest]
    rw [if_pos (by omega)]
    rfl
  | @undated m d tail month day ending =>
    obtain ⟨ms,long,read⟩ := read_numeral ('月'::(d ++ tail)) month.1 (by
      intro c head
      cases head
      exact digits.plain _ (by decide))
    obtain ⟨md,rest⟩ := monthThenDay_read month day ending
    simp only [monthDay,read,rest]
    rfl

theorem count_read {cs : List Char} (counted : cs ∈ numerals.map ([·]) ∨ (∀ c ∈ cs, (digits.value c).isSome) ∧ cs ≠ []) :
    (count digits (cs ++ ['天'])).isSome := by
  have ended : ∀ c ∈ ['天'].head?, digits.value c = none := by
    intro c head
    cases head
    exact digits.plain _ (by decide)
  rcases counted with listed | ⟨all,some⟩
  · obtain ⟨c,member,rfl⟩ := List.mem_map.mp listed
    have known : ∀ c ∈ numerals, (numerals.idxOf? c).isSome := List.all_iff_forall_prop.mp (by decide)
    obtain ⟨i,found⟩ := Option.isSome_iff_exists.mp (known c member)
    simp [count,found]
  · rcases cs with _ | ⟨c,_ | ⟨c',cs⟩⟩
    · exact absurd rfl some
    · simp only [List.cons_append,List.nil_append,count]
      split
      · rfl
      · rw [Option.isSome_map]
        exact all c List.mem_cons_self
    · obtain ⟨ns,long,read⟩ := read_numeral _ all ended
      have filled : ns ≠ [] := by
        rintro rfl
        cases long
      have tried : count digits (c :: c' :: cs ++ ['天']) =
          if (digits.read (c :: c' :: cs ++ ['天'])).1 ≠ [] ∧ (digits.read (c :: c' :: cs ++ ['天'])).2 = ['天'] then
            Option.some (.recent (number (digits.read (c :: c' :: cs ++ ['天'])).1)) else none := by
        unfold count
        split
        · rename_i short
          have := congrArg List.length short
          simp at this
        · rfl
      rw [tried,read,if_pos ⟨filled,rfl⟩]
      rfl

theorem phrase_isSome {t : List Char} (read : isoShape digits t ∨ (monthDay digits t).isSome ∨ (week t).isSome ∨
    (relativeDays.lookup t).isSome ∨ (month t).isSome ∨ (recent digits t).isSome) : (phrase digits t).isSome := by
  unfold phrase
  split
  · rfl
  · rename_i shape
    rcases read with iso | dates | weekly | later
    · exact absurd iso shape
    · simp [dates]
    · simp [weekly]
    · split
      · simp
      · rcases later with relative | monthly | days
        · simp [relative]
        · simp [monthly]
        · simp [days]

theorem phrase_of_single {t : List Char} (single : Single digits t) : (phrase digits t).isSome := by
  apply phrase_isSome
  cases single with
  | iso shape => exact .inl shape
  | monthDay dates => exact .inr (.inl (monthDay_read dates))
  | week listed =>
    have all : ∀ t ∈ weekHeads.flatMap (fun head => [['周'],['星','期']].flatMap (fun unit =>
        ([] :: dayChars.map ([·])).map (fun tail => head ++ unit ++ tail))), (week t).isSome := by decide
    exact .inr (.inr (.inl (all t listed)))
  | month listed =>
    have all : ∀ t ∈ ['上','本','这','下'].flatMap (fun c => [[c,'个','月'],[c,'月']]), (month t).isSome := by decide
    exact .inr (.inr (.inr (.inr (.inl (all t listed)))))
  | relative listed =>
    have all : ∀ t ∈ [['前','天'],['昨','天'],['今','天'],['明','天'],['后','天']], (relativeDays.lookup t).isSome := by decide
    exact .inr (.inr (.inr (.inl (all t listed))))
  | @recent head cs first counted =>
    have read := count_read counted
    rcases List.mem_pair.mp first with rfl | rfl
    · exact .inr (.inr (.inr (.inr (.inr read))))
    · exact .inr (.inr (.inr (.inr (.inr read))))

/-- What an expression is made of: no white space, and no separator but between dates. -/
def Plain (t : List Char) : Prop := t ≠ [] ∧ ∀ c ∈ t, c ∉ separators ∧ Text.isSpace c = false

instance (t : List Char) : Decidable (Plain t) :=
  decidable_of_iff (t ≠ [] ∧ t.all (fun c => c ∉ separators ∧ Text.isSpace c = false)) (and_congr_right' List.all_iff_forall_prop)

theorem plain_digit {c : Char} (digit : (digits.value c).isSome) : c ∉ separators ∧ Text.isSpace c = false := by
  refine ⟨fun separator => ?_,digits.visible c digit⟩
  have signs : separators ⊆ Calendar.signs := by decide
  rw [digits.plain c (signs separator)] at digit
  cases digit

theorem plain_monthDay {t : List Char} (dates : MonthDay digits t) : Plain t := by
  have marks : Plain ['年','月','日','号'] := by decide
  have tails : ∀ tail ∈ [[],['日'],['号']], tail ⊆ ['年','月','日','号'] := by decide
  cases dates with
  | dated year month day ending =>
    refine ⟨by simp,fun c member => ?_⟩
    simp only [List.mem_append,List.mem_cons] at member
    rcases member with inYear | rfl | inMonth | rfl | inDay | inTail
    · exact plain_digit (year.1 c inYear)
    · exact marks.2 _ (by decide)
    · exact plain_digit (month.1 c inMonth)
    · exact marks.2 _ (by decide)
    · exact plain_digit (day.1 c inDay)
    · exact marks.2 c (tails _ ending inTail)
  | undated month day ending =>
    refine ⟨by simp,fun c member => ?_⟩
    simp only [List.mem_append,List.mem_cons] at member
    rcases member with inMonth | rfl | inDay | inTail
    · exact plain_digit (month.1 c inMonth)
    · exact marks.2 _ (by decide)
    · exact plain_digit (day.1 c inDay)
    · exact marks.2 c (tails _ ending inTail)

theorem plain_iso {t : List Char} (shape : isoShape digits t) : Plain t := by
  unfold isoShape at shape
  split at shape
  · simp only [Bool.and_eq_true,decide_eq_true_eq,List.all_cons,List.all_nil,and_true] at shape
    obtain ⟨⟨rfl,rfl⟩,all⟩ := shape
    refine ⟨by simp,?_⟩
    have dash : '-' ∉ separators ∧ Text.isSpace '-' = false := by decide
    simp only [List.forall_mem_cons,List.not_mem_nil,false_imp_iff,implies_true,and_true]
    refine ⟨plain_digit all.1,plain_digit all.2.1,plain_digit all.2.2.1,plain_digit all.2.2.2.1,dash,
      plain_digit all.2.2.2.2.1,plain_digit all.2.2.2.2.2.1,dash,plain_digit all.2.2.2.2.2.2.1,plain_digit all.2.2.2.2.2.2.2⟩
  · cases shape

theorem plain_of_single {t : List Char} (single : Single digits t) : Plain t := by
  cases single with
  | iso shape => exact plain_iso shape
  | monthDay dates => exact plain_monthDay dates
  | week listed =>
    have all : ∀ t ∈ weekHeads.flatMap (fun head => [['周'],['星','期']].flatMap (fun unit =>
        ([] :: dayChars.map ([·])).map (fun tail => head ++ unit ++ tail))), Plain t := by decide
    exact all t listed
  | month listed =>
    have all : ∀ t ∈ ['上','本','这','下'].flatMap (fun c => [[c,'个','月'],[c,'月']]), Plain t := by decide
    exact all t listed
  | relative listed =>
    have all : ∀ t ∈ [['前','天'],['昨','天'],['今','天'],['明','天'],['后','天']], Plain t := by decide
    exact all t listed
  | @recent head cs first counted =>
    have ends : ∀ head ∈ [['最','近'],['近']], Plain head := by decide
    have known : Plain numerals := by decide
    refine ⟨by simp,fun c member => ?_⟩
    simp only [List.mem_append,List.mem_singleton] at member
    rcases member with (inHead | inside) | rfl
    · exact (ends head first).2 c inHead
    · rcases counted with listed | ⟨all,_⟩
      · obtain ⟨n,member,rfl⟩ := List.mem_map.mp listed
        rw [List.mem_singleton.mp inside]
        exact known.2 n member
      · exact plain_digit (all c inside)
    · decide

theorem interval_plain {t : List Char} (plain : Plain t) : interval t = none := by
  obtain ⟨some,free⟩ := plain
  obtain ⟨c,rest,rfl⟩ := List.exists_cons_of_ne_nil some
  have whole : rest.dropWhile (· ∉ separators) = [] :=
    List.dropWhile_eq_nil_iff.mpr (fun x member => decide_eq_true (free x (List.mem_cons_of_mem _ member)).1)
  simp only [interval,whole]

theorem interval_pair {s t : List Char} {c : Char} (plain : Plain s) (separator : c ∈ separators) (some : t ≠ []) :
    interval (s ++ c::t) = Option.some (s,t) := by
  obtain ⟨filled,free⟩ := plain
  obtain ⟨x,rest,rfl⟩ := List.exists_cons_of_ne_nil filled
  obtain ⟨d,after,rfl⟩ := List.exists_cons_of_ne_nil some
  have inside : ∀ y ∈ rest, decide (y ∉ separators) = true :=
    fun y member => decide_eq_true (free y (List.mem_cons_of_mem _ member)).1
  have drop : (rest ++ c::d::after).dropWhile (· ∉ separators) = c::d::after := by
    rw [List.dropWhile_append_of_pos inside]
    simp [separator]
  have take : (rest ++ c::d::after).takeWhile (· ∉ separators) = rest := by
    rw [List.takeWhile_append_of_pos inside]
    simp [separator]
  simp only [interval,List.cons_append,drop,take]

def Possible (digits : Digits) (day : Date) (text : List Char) : Prop :=
  ∀ t ∈ parts text, ∀ p, phrase digits t = some p → p.Possible day

def Reversed (digits : Digits) (day : Date) (timezone : String) (text : List Char) : Prop :=
  ∃ l r first last, interval text = some (l,r) ∧ resolveText digits day timezone l = .ok (some first) ∧
    resolveText digits day timezone r = .ok (some last) ∧ last.last < first.start

theorem resolveText_plain (timezone : String) {t : List Char} (plain : Plain t) (read : (phrase digits t).isSome) (within : InCalendar digits day t)
    (possible : Possible digits day t) : ∃ p, resolveText digits day timezone t = .ok (some p) := by
  have single := interval_plain plain
  obtain ⟨p,found⟩ := Option.isSome_iff_exists.mp read
  have here : t ∈ parts t := by
    rw [parts_none single]
    exact List.mem_singleton.mpr rfl
  obtain ⟨a,b,resolved,_⟩ := (resolvePhrase_spec timezone found (within t here p found)).1 (possible t here p found)
  exact ⟨_,(resolveText_none plain.1 single).trans resolved⟩

theorem resolveText_pair {s t : List Char} {c : Char} (first : Plain s) (separator : c ∈ separators) (last : Plain t)
    (readFirst : (phrase digits s).isSome) (readLast : (phrase digits t).isSome) (within : InCalendar digits day (s ++ c::t))
    (possible : Possible digits day (s ++ c::t)) :
    (∃ p, resolveText digits day timezone (s ++ c::t) = .ok (some p)) ∨ Reversed digits day timezone (s ++ c::t) := by
  have pair := interval_pair first separator last.1
  rw [InCalendar,parts_some pair] at within
  rw [Possible,parts_some pair] at possible
  obtain ⟨p,left⟩ := resolveText_plain timezone first readFirst
    (fun x member => within x (List.mem_append_left _ member)) (fun x member => possible x (List.mem_append_left _ member))
  obtain ⟨q,right⟩ := resolveText_plain timezone last readLast
    (fun x member => within x (List.mem_append_right _ member)) (fun x member => possible x (List.mem_append_right _ member))
  by_cases reversed : q.last < p.start
  · exact .inr ⟨s,t,p,q,pair,left,right,reversed⟩
  · refine .inl ⟨⟨p.start,q.last,timezone⟩,?_⟩
    rw [resolveText_some pair,left,right]
    simp only [bind,Except.bind]
    rw [if_neg reversed]
    rfl

theorem expression_resolves {t : List Char} (expression : Expression digits t) (within : InCalendar digits day t)
    (possible : Possible digits day t) :
    (∃ p, resolveText digits day timezone t = .ok (some p)) ∨ Reversed digits day timezone t := by
  cases expression with
  | monthDays first separator last =>
    exact resolveText_pair (plain_monthDay first) separator (plain_monthDay last) (phrase_of_single (.monthDay first))
      (phrase_of_single (.monthDay last)) within possible
  | isos first separator last =>
    exact resolveText_pair (plain_iso first) separator (plain_iso last) (phrase_of_single (.iso first))
      (phrase_of_single (.iso last)) within possible
  | single single =>
    exact .inl (resolveText_plain timezone (plain_of_single single) (phrase_of_single single) within possible)

theorem visible_of_expression {t : List Char} (expression : Expression digits t) :
    t ≠ [] ∧ ∀ c ∈ t, Text.isSpace c = false := by
  have visible : ∀ c ∈ separators, Text.isSpace c = false := List.all_iff_forall_prop.mp (by decide)
  have both : ∀ {s u : List Char} {c : Char}, Plain s → c ∈ separators → Plain u →
      s ++ c::u ≠ [] ∧ ∀ x ∈ s ++ c::u, Text.isSpace x = false := by
    intro s u c first separator last
    refine ⟨by simp,fun x member => ?_⟩
    rcases List.mem_append.mp member with early | late
    · exact (first.2 x early).2
    · rcases List.mem_cons.mp late with rfl | late
      · exact visible x separator
      · exact (last.2 x late).2
  cases expression with
  | monthDays first separator last => exact both (plain_monthDay first) separator (plain_monthDay last)
  | isos first separator last => exact both (plain_iso first) separator (plain_iso last)
  | single single => exact ⟨(plain_of_single single).1,fun c member => ((plain_of_single single).2 c member).2⟩

/-! ### Months and weeks -/

theorem months_consecutive (before : (Phrase.month (-1)).Possible day) (after : (Phrase.month 1).Possible day) :
    ∃ a b c d e f : Date, (Phrase.month (-1)).dates day = .ok (some (a,b)) ∧ (Phrase.month 0).dates day = .ok (some (c,d)) ∧
      (Phrase.month 1).dates day = .ok (some (e,f)) ∧ b.toOrdinal + 1 = c.toOrdinal ∧ d.toOrdinal + 1 = e.toOrdinal ∧
      c.toOrdinal ≤ day.toOrdinal ∧ day.toOrdinal ≤ d.toOrdinal := by
  have here : (Phrase.month 0).Possible day := by
    have years := day.years
    have months := day.months
    refine ⟨?_,?_⟩ <;> omega
  obtain ⟨y,m,a,b,years,months,number,first,_,isLast⟩ := Phrase.month_dates before
  obtain ⟨y',m',c,d,years',months',number',second,isFirst',isLast'⟩ := Phrase.month_dates here
  obtain ⟨y'',m'',e,f,_,months'',number'',third,isFirst'',_⟩ := Phrase.month_dates after
  have own : y' = day.year ∧ m' = day.month := by
    have := day.months
    omega
  -- a month ends where the next begins, also at the end of a year
  have follows : ∀ x n x' n' : ℕ, 1 ≤ x → 1 ≤ n ∧ n ≤ 12 → 1 ≤ n' ∧ n' ≤ 12 → (x' * 12 + n' : ℤ) = x * 12 + n + 1 →
      daysBeforeYear x + daysBeforeMonth x (n + 1) = daysBeforeYear x' + daysBeforeMonth x' n' := by
    intro x n x' n' positive inYear inYear' next
    rcases inYear.2.lt_or_eq with early | rfl
    · obtain ⟨rfl,rfl⟩ : x' = x ∧ n' = n + 1 := by omega
      rfl
    · obtain ⟨rfl,rfl⟩ : x' = x + 1 ∧ n' = 1 := by omega
      rw [daysBeforeMonth_year,daysBeforeYear_succ positive]
      rfl
  obtain ⟨rfl,rfl⟩ := own
  have inMonth := day.before_month
  have inYear := day.before_year
  refine ⟨a,b,c,d,e,f,first,second,third,?_,?_,?_,?_⟩
  · rw [isLast,isFirst',follows y m day.year day.month years.1 months months' (by omega)]
  · rw [isLast',isFirst'',follows day.year day.month y'' m'' years'.1 months' months'' (by omega)]
  · omega
  · omega

theorem weeks_consecutive (before : (Phrase.week (-1) none).Within day) (after : (Phrase.week 1 none).Within day) :
    ∃ a b c d e f : Date, (Phrase.week (-1) none).dates day = .ok (some (a,b)) ∧
      (Phrase.week 0 none).dates day = .ok (some (c,d)) ∧ (Phrase.week 1 none).dates day = .ok (some (e,f)) ∧
      b.toOrdinal + 1 = c.toOrdinal ∧ d.toOrdinal + 1 = e.toOrdinal ∧ c.toOrdinal ≤ day.toOrdinal ∧
      day.toOrdinal ≤ d.toOrdinal := by
  have here : (Phrase.week 0 none).Within day := by
    obtain ⟨low,_⟩ := before
    obtain ⟨_,high⟩ := after
    exact ⟨by omega,by omega⟩
  obtain ⟨a,b,first,_,isLast⟩ := Phrase.week_dates before
  obtain ⟨c,d,second,isFirst',isLast'⟩ := Phrase.week_dates here
  obtain ⟨e,f,third,isFirst'',_⟩ := Phrase.week_dates after
  simp only [Option.map_none,Option.getD_none] at isLast isFirst' isLast' isFirst''
  have aligned : day.weekday < 7 := Nat.mod_lt _ (by decide)
  exact ⟨a,b,c,d,e,f,first,second,third,by omega,by omega,by omega,by omega⟩

/-! ### Resolution -/

section Resolution

variable {Reference : Type} {host : Host Reference} {reference : Option Reference} {zone : Option String}

theorem resolveRange_visible {t : List Char} (filled : t ≠ []) (visible : ∀ c ∈ t, Text.isSpace c = false)
    (dated : localDay host reference zone = .ok day) :
    resolveRange digits host (some (String.ofList t)) reference zone = resolveText digits day (timezoneName host zone) t := by
  have kept : t.filter (fun c => !Text.isSpace c) = t := List.filter_eq_self.mpr (fun c member => by simp [visible c member])
  simp only [resolveRange,Option.getD_some,String.toList_ofList,kept,dated]
  rw [if_neg filled]
  rfl

theorem resolveRange_phrase {t : List Char} {p : Phrase} {a b : Date} (plain : Plain t) (read : phrase digits t = some p)
    (dates : p.dates day = .ok (some (a,b))) (le : a.toOrdinal ≤ b.toOrdinal)
    (dated : localDay host reference zone = .ok day) :
    resolveRange digits host (some (String.ofList t)) reference zone =
      .ok (some ⟨a.isoformat,b.isoformat,timezoneName host zone⟩) := by
  rw [resolveRange_visible plain.1 (fun c member => (plain.2 c member).2) dated,resolveText_none plain.1 (interval_plain plain)]
  simp only [resolvePhrase,read,dates,bind,Except.bind]
  rw [if_neg (by rw [Date.lt_iff]; omega)]
  rfl

/-- The ways to write a month or a week beside the present one, by how far off it is. -/
def written : List (List Char × Phrase) :=
  [(['上','月'],.month (-1)),(['上','个','月'],.month (-1)),(['本','月'],.month 0),(['本','个','月'],.month 0),(['这','月'],.month 0),
    (['这','个','月'],.month 0),(['下','月'],.month 1),(['下','个','月'],.month 1),(['上','周'],.week (-1) none),
    (['上','星','期'],.week (-1) none),(['本','周'],.week 0 none),(['本','星','期'],.week 0 none),(['这','周'],.week 0 none),
    (['这','星','期'],.week 0 none),(['周'],.week 0 none),(['星','期'],.week 0 none),(['下','周'],.week 1 none),
    (['下','星','期'],.week 1 none)]

theorem monthDay_sign {c : Char} {rest : List Char} (sign : c ∈ signs) (year : c ≠ '年') (month : c ≠ '月') :
    monthDay digits (c::rest) = none := by
  have read : digits.read (c::rest) = ([],c::rest) := by simp only [Digits.read,digits.plain c sign]
  unfold monthDay monthThenDay
  rw [read]
  dsimp only
  split
  · rename_i same
    exact absurd (List.cons.inj same).1 year
  · split
    · rename_i same
      exact absurd (List.cons.inj same).1 month
    · rfl

theorem phrase_written {t : List Char} {p : Phrase} (listed : (t,p) ∈ written) : Plain t ∧ phrase digits t = some p := by
  have known : ∀ tp ∈ written, Plain tp.1 ∧ (tp.1.head?.all (fun c => c ∈ signs ∧ c ≠ '年' ∧ c ≠ '月')) ∧ tp.1.length < 4 ∧
      tp.1 ∉ [['月','底'],['月','末']] ∧ relativeDays.lookup tp.1 = none ∧ (week tp.1).or (month tp.1) = some tp.2 := by decide
  obtain ⟨plain,sign,short,notEnd,notDay,read⟩ := known (t,p) listed
  refine ⟨plain,?_⟩
  obtain ⟨c,rest,rfl⟩ := List.exists_cons_of_ne_nil plain.1
  obtain ⟨isSign,notYear,notMonth⟩ := of_decide_eq_true sign
  have notIso : isoShape digits (c::rest) = false := by
    unfold isoShape
    split
    · rename_i whole
      rw [whole] at short
      simp at short
    · rfl
  rw [phrase,if_neg (by simp [notIso]),monthDay_sign isSign notYear notMonth,Option.none_or,if_neg notEnd,notDay,Option.map_none,
    Option.none_or,← Option.or_assoc,read,Option.some_or]

def Around (day : Date) (near : ℤ → Phrase) : Prop :=
  near = .month ∧ (near (-1)).Possible day ∧ (near 1).Possible day ∨
    near = (.week · none) ∧ (near (-1)).Within day ∧ (near 1).Within day

theorem Around.ordered {near : ℤ → Phrase} (around : Around day near) {offset : ℤ} (listed : offset = -1 ∨ offset = 1)
    {a b : Date} (dates : (near offset).dates day = .ok (some (a,b))) : a.toOrdinal ≤ b.toOrdinal := by
  have spec : ∃ a' b', (near offset).dates day = .ok (some (a',b')) ∧ a'.toOrdinal ≤ b'.toOrdinal := by
    rcases around with ⟨rfl,before,after⟩ | ⟨rfl,before,after⟩ <;> rcases listed with rfl | rfl
    · exact (Phrase.dates_spec (p := .month (-1)) trivial).1 before
    · exact (Phrase.dates_spec (p := .month 1) trivial).1 after
    · exact (Phrase.dates_spec before).1 trivial
    · exact (Phrase.dates_spec after).1 trivial
  obtain ⟨a',b',same,le⟩ := spec
  cases dates.symm.trans same
  exact le

/-- The zone is known, and the reference has a day in it unless its text is none of a time. -/
def Placed (host : Host Reference) (reference : Option Reference) (zone : Option String) : Prop :=
  host.zoneInfo (timezoneName host zone) = .ok () ∧
    ∀ r ∈ reference, ∀ e, host.localDate r (timezoneName host zone) = .error e → e = .value

theorem localDay_value (placed : Placed host reference zone) {e : Failure} (failed : localDay host reference zone = .error e) :
    e = .value := by
  unfold localDay at failed
  rw [placed.1] at failed
  cases reference with
  | none => exact (Except.error.inj failed).symm
  | some r => exact placed.2 r rfl e failed

/-- In a known zone and without counting out of the calendar, every text gives a range of ISO dates in order, nothing or
a `ValueError`; every expression of a time query gives a range, unless it names a date that
is none, or no days, or an interval backwards; and the months and the weeks follow each other. -/
theorem calendar_resolution (digits : Digits) (host : Host Reference) (reference : Option Reference) (zone : Option String) :
    (∀ expression : Option String, Placed host reference zone → (∀ day, localDay host reference zone = .ok day →
        InCalendar digits day ((expression.getD "").toList.filter (fun c => !Text.isSpace c))) →
      Orderly (resolveRange digits host expression reference zone)) ∧
    ∀ day, localDay host reference zone = .ok day →
      (∀ t, Expression digits t → InCalendar digits day t → Possible digits day t →
        (∃ p, resolveRange digits host (some (String.ofList t)) reference zone = .ok (some p)) ∨
          Reversed digits day (timezoneName host zone) t) ∧
      ∀ near : ℤ → Phrase, Around day near → ∃ a b c d e f : Date,
          b.toOrdinal + 1 = c.toOrdinal ∧ d.toOrdinal + 1 = e.toOrdinal ∧ c.toOrdinal ≤ day.toOrdinal ∧
          day.toOrdinal ≤ d.toOrdinal ∧ ∀ t offset x y, (t,near offset) ∈ written → (offset,x,y) ∈ [((-1 : ℤ),a,b),(0,c,d),(1,e,f)] →
            resolveRange digits host (some (String.ofList t)) reference zone =
              .ok (some ⟨x.isoformat,y.isoformat,timezoneName host zone⟩) := by
  refine ⟨fun expression placed within => ?_,fun day dated => ⟨fun t expression within possible => ?_,fun near around => ?_⟩⟩
  · unfold resolveRange
    dsimp only
    split
    · trivial
    · cases dated : localDay host reference zone with
      | error e => exact localDay_value placed dated
      | ok day => exact resolveText_orderly _ (within day dated)
  · obtain ⟨filled,visible⟩ := visible_of_expression expression
    rw [resolveRange_visible filled visible dated]
    exact expression_resolves expression within possible
  · have three : ∃ a b c d e f : Date, (near (-1)).dates day = .ok (some (a,b)) ∧ (near 0).dates day = .ok (some (c,d)) ∧
        (near 1).dates day = .ok (some (e,f)) ∧ b.toOrdinal + 1 = c.toOrdinal ∧ d.toOrdinal + 1 = e.toOrdinal ∧
        c.toOrdinal ≤ day.toOrdinal ∧ day.toOrdinal ≤ d.toOrdinal := by
      rcases around with ⟨rfl,before,after⟩ | ⟨rfl,before,after⟩
      · exact months_consecutive before after
      · exact weeks_consecutive before after
    obtain ⟨a,b,c,d,e,f,first,second,third,next,next',low,high⟩ := three
    refine ⟨a,b,c,d,e,f,next,next',low,high,fun t offset x y listed chosen => ?_⟩
    obtain ⟨plain,read⟩ := @phrase_written digits _ _ listed
    simp only [List.mem_cons,List.not_mem_nil,or_false,Prod.mk.injEq] at chosen
    rcases chosen with ⟨rfl,rfl,rfl⟩ | ⟨rfl,rfl,rfl⟩ | ⟨rfl,rfl,rfl⟩
    · exact resolveRange_phrase plain read first (around.ordered (.inl rfl) first) dated
    · exact resolveRange_phrase plain read second (by omega) dated
    · exact resolveRange_phrase plain read third (around.ordered (.inr rfl) third) dated

end Resolution

def asciiDigits : Digits where
  value c := (List.range 10).find? (digitChar · = c)
  small c n found := List.mem_range.mp (List.mem_of_find?_eq_some found)
  ascii := by decide
  visible c digit := by
    obtain ⟨n,found⟩ := Option.isSome_iff_exists.mp digit
    have all : ∀ n ∈ List.range 10, Text.isSpace (digitChar n) = false := by decide
    have same : digitChar n = c := by simpa using List.find?_some found
    rw [← same]
    exact all n (List.mem_of_find?_eq_some found)
  plain := List.all_iff_forall_prop.mp (by decide)

/-- A message of 1 March 2024, a Friday, the day before which there is a 29 February. -/
def friday : Host Date := ⟨fun zone => if zone = "Asia/Shanghai" then .ok () else .error .other,fun day _ => .ok day,"Asia/Shanghai"⟩

def firstOfMarch : Date := ⟨2024,3,1,by decide,by decide,by decide⟩

theorem calendar_resolution_march :
    Orderly (resolveRange asciiDigits friday (some (String.ofList ['昨','天'])) (some firstOfMarch) none) ∧
    (∃ p, resolveRange asciiDigits friday (some (String.ofList ['昨','天'])) (some firstOfMarch) none = .ok (some p)) ∧
    ∃ a b c d : Date, b.toOrdinal + 1 = c.toOrdinal ∧ c.toOrdinal ≤ firstOfMarch.toOrdinal ∧
      resolveRange asciiDigits friday (some (String.ofList ['上','月'])) (some firstOfMarch) none =
        .ok (some ⟨a.isoformat,b.isoformat,"Asia/Shanghai"⟩) ∧
      resolveRange asciiDigits friday (some (String.ofList ['本','月'])) (some firstOfMarch) none =
        .ok (some ⟨c.isoformat,d.isoformat,"Asia/Shanghai"⟩) := by
  obtain ⟨orderly,resolution⟩ := calendar_resolution asciiDigits friday (some firstOfMarch) none
  obtain ⟨expressions,neighbours⟩ := resolution firstOfMarch rfl
  have single : interval ['昨','天'] = none := by decide
  have only : ∀ t ∈ parts ['昨','天'], ∀ p, phrase asciiDigits t = some p → p = .relative (-1) := by
    intro t member p found
    have read : phrase asciiDigits ['昨','天'] = some (.relative (-1)) := by decide
    rw [parts_none single,List.mem_singleton] at member
    rw [member,read] at found
    exact (Option.some.inj found).symm
  have within : InCalendar asciiDigits firstOfMarch ['昨','天'] := fun t member p found => by
    rw [only t member p found]
    exact ⟨by decide +kernel,by decide +kernel⟩
  refine ⟨orderly _ ⟨by decide,fun r there e failed => nomatch failed⟩ (fun day dated => ?_),?_,?_⟩
  · obtain rfl : firstOfMarch = day := Except.ok.inj dated
    exact within
  · have resolved := expressions ['昨','天'] (.single (.relative (by decide))) within (fun t member p found => by
      rw [only t member p found]
      trivial)
    rcases resolved with resolved | ⟨_,_,_,_,pair,_⟩
    · exact resolved
    · rw [single] at pair
      cases pair
  · obtain ⟨a,b,c,d,e,f,next,_,low,_,resolved⟩ :=
      neighbours .month (.inl ⟨rfl,⟨by decide,by decide⟩,⟨by decide,by decide⟩⟩)
    exact ⟨a,b,c,d,next,low,resolved _ (-1) a b (by decide) (by simp),resolved _ 0 c d (by decide) (by simp)⟩

/-- "The last 0 days" is an expression, but no range. -/
theorem zeroDays_none : Expression asciiDigits ['近','0','天'] ∧
    resolveRange asciiDigits friday (some (String.ofList ['近','0','天'])) (some firstOfMarch) none = .ok none := by
  have read : phrase asciiDigits ['近','0','天'] = some (.recent 0) := by decide
  have digit : ∀ c ∈ ['0'], (asciiDigits.value c).isSome := List.all_iff_forall_prop.mp (by decide)
  have plain : Plain ['近','0','天'] := by decide
  have dated : localDay friday (some firstOfMarch) none = .ok firstOfMarch := rfl
  refine ⟨.single (@Single.recent asciiDigits ['近'] ['0'] (by decide) (.inr ⟨digit,by decide⟩)),?_⟩
  rw [resolveRange_visible plain.1 (fun c member => (plain.2 c member).2) dated,resolveText_none plain.1 (by decide)]
  simp only [resolvePhrase,read]
  rfl

end Suixinji.Calendar
