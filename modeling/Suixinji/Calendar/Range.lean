import Suixinji.Calendar.Date
import Suixinji.TaskCards.Card
import Suixinji.Relational.Text

/-! Dates in words: `resolve_range` (core/time_tools.py) and the expressions that a time query
looks for (memory/time_query.py). -/
namespace Suixinji.Calendar

def signs : List Char :=
  ['年','月','日','号','周','星','期','到','至','～','~','天','上','下','本','这','个','最','近','前','昨','今','明','后','-','一','二','三',
    '四','五','六','七','八','九','十']

/-- Python's decimal digits (`\d`), with their values. -/
structure Digits where
  value : Char → Option Nat
  small : ∀ c n, value c = some n → n < 10
  ascii : ∀ n < 10, value (digitChar n) = some n
  visible : ∀ c, (value c).isSome → Text.isSpace c = false
  plain : ∀ c ∈ signs, value c = none

/-- `ValueError`, `OverflowError`, and any other exception: a time zone that is not known raises
a `KeyError`. -/
inductive Failure where
  | value
  | overflow
  | other
  deriving DecidableEq

/-- One expression, as the patterns of `resolve_range` read it. -/
inductive Phrase where
  | iso (text : List Char)
  | date (year : Option Nat) (month day : Nat)
  | week (offset : ℤ) (weekday : Option (Fin 7))
  | monthEnd
  | relative (offset : ℤ)
  | month (offset : ℤ)
  | recent (count : Nat)
  deriving DecidableEq

/-- The digits at the beginning of a text, and what follows them. -/
def Digits.read (digits : Digits) : List Char → List Nat × List Char
  | [] => ([],[])
  | c::cs =>
    match digits.value c with
    | some n => (n::(digits.read cs).1,(digits.read cs).2)
    | none => ([],c::cs)

/-- `int` of some digits. -/
def number (ns : List Nat) : Nat := ns.foldl (10 * · + ·) 0

/-- `\d{4}-\d{2}-\d{2}`. -/
def isoShape (digits : Digits) : List Char → Bool
  | [a,b,c,d,s,e,f,t,g,h] => s = '-' && t = '-' && [a,b,c,d,e,f,g,h].all (fun x => (digits.value x).isSome)
  | _ => false

/-- `(\d{1,2})月(\d{1,2})[日号]?`. -/
def monthThenDay (digits : Digits) (text : List Char) : Option (Nat × Nat) :=
  let month := digits.read text
  match month.2 with
  | '月'::rest =>
    let day := digits.read rest
    if (1 ≤ month.1.length ∧ month.1.length ≤ 2) ∧ (1 ≤ day.1.length ∧ day.1.length ≤ 2) ∧ day.2 ∈ [[],['日'],['号']] then
      some (number month.1,number day.1)
    else none
  | _ => none

/-- `(?:(\d{4})年)?(\d{1,2})月(\d{1,2})[日号]?`. -/
def monthDay (digits : Digits) (text : List Char) : Option Phrase :=
  let first := digits.read text
  match first.2 with
  | '年'::rest =>
    if first.1.length = 4 then (monthThenDay digits rest).map (fun md => .date (some (number first.1)) md.1 md.2) else none
  | _ => (monthThenDay digits text).map (fun md => .date none md.1 md.2)

def weekOffsets : List (List Char × ℤ) :=
  [(['上','上'],-2),(['上'],-1),(['本'],0),(['这'],0),(['下'],1),(['下','下'],2),([],0)]

def weekdays : List Char := ['一','二','三','四','五','六','日']

/-- `(?:周|星期)([一二三四五六日天])?` after the offset. -/
def weekUnit (offset : ℤ) (text : List Char) : Option Phrase :=
  let weekday (rest : List Char) : Option Phrase :=
    match rest with
    | [] => some (.week offset none)
    | [c] => (weekdays.finIdxOf? (if c = '天' then '日' else c)).map (fun i => .week offset (some i))
    | _ => none
  match text with
  | '周'::rest => weekday rest
  | '星' :: '期' :: rest => weekday rest
  | _ => none

/-- `(上上|上|本|这|下|下下)?(?:周|星期)([一二三四五六日天])?`. -/
def week (text : List Char) : Option Phrase :=
  weekOffsets.findSome? (fun w => if w.1.isPrefixOf text then weekUnit w.2 (text.drop w.1.length) else none)

def relativeDays : List (List Char × ℤ) :=
  [(['前','天'],-2),(['昨','天'],-1),(['今','天'],0),(['明','天'],1),(['后','天'],2)]

def monthOffsets : List (Char × ℤ) := [('上',-1),('本',0),('这',0),('下',1)]

/-- `(上|本|这|下)个?月`. -/
def month (text : List Char) : Option Phrase :=
  match text with
  | [c,'月'] => (monthOffsets.lookup c).map .month
  | [c,'个','月'] => (monthOffsets.lookup c).map .month
  | _ => none

def numerals : List Char := ['一','二','三','四','五','六','七','八','九','十']

/-- `([一二三四五六七八九十]|\d+)天`. -/
def count (digits : Digits) (text : List Char) : Option Phrase :=
  match text with
  | [c,'天'] =>
    match numerals.idxOf? c with
    | some i => some (.recent (i + 1))
    | none => (digits.value c).map .recent
  | _ =>
    let ns := digits.read text
    if ns.1 ≠ [] ∧ ns.2 = ['天'] then some (.recent (number ns.1)) else none

/-- `(?:最近|近)([一二三四五六七八九十]|\d+)天`. -/
def recent (digits : Digits) (text : List Char) : Option Phrase :=
  match text with
  | '最' :: '近' :: rest => count digits rest
  | '近'::rest => count digits rest
  | _ => none

/-- The chain of patterns. -/
def phrase (digits : Digits) (text : List Char) : Option Phrase :=
  if isoShape digits text then some (.iso text)
  else (monthDay digits text).or ((week text).or (
    if text ∈ [['月','底'],['月','末']] then some .monthEnd
    else ((relativeDays.lookup text).map .relative).or ((month text).or (recent digits text))))

def separators : List Char := ['到','至','～','~']

/-- `(.+?)(?:到|至|～|~)(.+)`: the text before the first separator that has something before it, and what
follows it. -/
def interval (text : List Char) : Option (List Char × List Char) :=
  match text with
  | [] => none
  | c::rest =>
    match rest.dropWhile (· ∉ separators) with
    | _::d::after => some (c::rest.takeWhile (· ∉ separators),d::after)
    | _ => none

/-- `date(year, month, day)`. -/
def date (y m d : Nat) : Except Failure Date := ((Date.make y m d).map .ok).getD (.error .value)

/-- `day + timedelta(days=n)`. -/
def plus (day : Date) (n : ℤ) : Except Failure Date := ((day.addDays n).map .ok).getD (.error .overflow)

/-- `date.fromisoformat`, of a text of the shape of a date: its digits have to be ASCII. -/
def fromisoformat (text : List Char) : Except Failure Date :=
  let ascii (cs : List Char) : Nat := cs.foldl (fun n c => 10 * n + (c.toNat - 48)) 0
  match text with
  | [a,b,c,d,_,e,f,_,g,h] =>
    if [a,b,c,d,e,f,g,h].all Char.isDigit then date (ascii [a,b,c,d]) (ascii [e,f]) (ascii [g,h]) else .error .value
  | _ => .error .value

/-- `start` and `end` of an expression, before they are compared. -/
def Phrase.dates (day : Date) : Phrase → Except Failure (Option (Date × Date))
  | .iso text => do
    let d ← fromisoformat text
    return some (d,d)
  | .date y m n => do
    let d ← Calendar.date (y.getD day.year) m n
    return some (d,d)
  | .week offset weekday => do
    let monday ← plus day (-day.weekday)
    let start ← plus monday (7 * offset)
    let last ← plus start 6
    match weekday with
    | none => return some (start,last)
    | some i => do
      let d ← plus start i.val
      return some (d,d)
  | .monthEnd => do
    let d ← Calendar.date day.year day.month (monthLength day.year day.month)
    return some (d,d)
  | .relative offset => do
    let d ← plus day offset
    return some (d,d)
  | .month offset => do
    let month : ℤ := day.year * 12 + day.month - 1 + offset
    let year := (month / 12).toNat
    let index := (month % 12).toNat
    let start ← Calendar.date year (index + 1) 1
    let last ← Calendar.date year (index + 1) (monthLength year (index + 1))
    return some (start,last)
  | .recent count =>
    if count < 1 then return none
    else do
      let start ← plus day (-(count - 1))
      return some (start,day)

/-- What `resolve_range` returns: `start`, `end` and `timezone`. -/
structure Period where
  start : String
  last : String
  timezone : String
  deriving DecidableEq

def resolvePhrase (digits : Digits) (day : Date) (timezone : String) (text : List Char) : Except Failure (Option Period) :=
  match phrase digits text with
  | none => .ok none
  | some p => do
    match ← p.dates day with
    | none => return none
    | some (start,last) => if last < start then .error .value else return some ⟨start.isoformat,last.isoformat,timezone⟩

theorem interval_smaller {text left right : List Char} (found : interval text = some (left,right)) :
    left.length < text.length ∧ right.length < text.length := by
  unfold interval at found
  split at found
  · cases found
  · rename_i c rest
    have whole := List.takeWhile_append_dropWhile (p := (· ∉ separators)) (l := rest)
    split at found
    · rename_i s d after split
      cases found
      rw [split] at whole
      have long := congrArg List.length whole
      simp only [List.length_append,List.length_cons] at long ⊢
      omega
    · cases found

/-- `resolve_range` of a text without white space. -/
def resolveText (digits : Digits) (day : Date) (timezone : String) (text : List Char) : Except Failure (Option Period) :=
  if text = [] then .ok none
  else
    match _ : interval text with
    | none => resolvePhrase digits day timezone text
    | some (l,r) => do
      let left ← resolveText digits day timezone l
      let right ← resolveText digits day timezone r
      match left,right with
      | some left,some right =>
        if right.last < left.start then .error .value else return some ⟨left.start,right.last,timezone⟩
      | _,_ => return none
  termination_by text.length
  decreasing_by
    · exact (interval_smaller ‹_›).1
    · exact (interval_smaller ‹_›).2

/-- Where the messages come from: what `ZoneInfo` raises of a name, the date of a reference in a
zone (`fromisoformat` and `astimezone`), and the zone in the environment. -/
structure Host (Reference : Type) where
  zoneInfo : String → Except Failure Unit
  localDate : Reference → String → Except Failure Date
  zone : String

variable {Reference : Type}

/-- `timezone_name`. -/
def timezoneName (host : Host Reference) (explicit : Option String) : String := TaskCards.orElse explicit host.zone

/-- `local_time(reference, timezone).date()`. -/
def localDay (host : Host Reference) (reference : Option Reference) (timezone : Option String) : Except Failure Date := do
  host.zoneInfo (timezoneName host timezone)
  match reference with
  | none => .error .value
  | some reference => host.localDate reference (timezoneName host timezone)

/-- `resolve_range`. -/
def resolveRange (digits : Digits) (host : Host Reference) (expression : Option String) (reference : Option Reference)
    (timezone : Option String) : Except Failure (Option Period) :=
  let text := (expression.getD "").toList.filter (fun c => !Text.isSpace c)
  if text = [] then .ok none
  else do
    let day ← localDay host reference timezone
    resolveText digits day (timezoneName host timezone) text

end Suixinji.Calendar
