import Suixinji.Relational.Text
import Suixinji.Relational.JsonObject

/-! `extract_json_object` (core/llm_client.py): the object that the reply of a model is, or has a text of in a fence or in prose. Texts are
the lists of their characters. -/
namespace Suixinji.Llm
open Text (isSpace)
open JsonObject

/-- What `json.loads` comes to: a `JSONDecodeError`, another exception (too many digits, too deep), an object, or a value of another type. -/
inductive Loaded (δ : Type) where
  | failed
  | raised
  | object (d : δ)
  | other (type : String)
  deriving DecidableEq

/-- The module `json`, for objects `δ` and layouts `l`: a dump is a text of the object and is read as it, and what is read as an object
is a text, with space around it, of at least its strings and braces (of two fields with one key the later one stays). -/
structure JsonModule (δ l : Type) where
  loads : List Char → Loaded δ
  dumps : l → δ → List Char
  strings : δ → Nat
  braces : δ → Nat
  inverts : ∀ layout d, loads (dumps layout d) = .object d
  writes : ∀ layout d, ObjectText (strings d) (braces d) (dumps layout d)
  reads : ∀ text d, loads text = .object d → ∃ s b before t after, text = before ++ t ++ after ∧ Blank before ∧ Blank after ∧
    ObjectText s b t ∧ strings d ≤ s ∧ braces d ≤ b

inductive Failure where
  | valueError (text : String)
  | decodeError
  | raised
  deriving DecidableEq

def ticks : List Char := ['`','`','`']

/-- What is before the first three back-ticks, and what is behind them. -/
def splitTicks : List Char → Option (List Char × List Char)
  | [] => none
  | c::rest => if (c::rest).take 3 = ticks then some ([],rest.drop 2) else (splitTicks rest).map (fun p => (c::p.1,p.2))

/-- `(?:json)?`, in letters of either case. -/
def afterJson : List Char → List Char
  | j::s::o::n::rest =>
    if j ∈ ['j','J'] ∧ s ∈ ['s','S','ſ'] ∧ o ∈ ['o','O'] ∧ n ∈ ['n','N'] then rest else j::s::o::n::rest
  | t => t

/-- The group of the fence that is searched for, which ends at the next three back-ticks. -/
def fenceMatch (content : List Char) : Option (List Char) :=
  (splitTicks content).bind (fun p => (splitTicks ((afterJson p.2).dropWhile isSpace)).map Prod.fst)

/-- The text from the first brace that opens to the last that closes, if this comes later. -/
def cut (content : List Char) : Option (List Char) :=
  let rest := content.dropWhile (· ≠ '{')
  let piece := (rest.reverse.dropWhile (· ≠ '}')).reverse
  if piece = [] then none else some piece

section

variable {δ l : Type} (json : JsonModule δ l)

/-- What is loaded must be an object. -/
def checked : Loaded δ → Except Failure δ
  | .failed => .error .decodeError
  | .raised => .error .raised
  | .object d => .ok d
  | .other type => .error (.valueError s!"Expected JSON object, got {type}")

def parse (content : List Char) : Except Failure δ :=
  match json.loads content with
  | .failed =>
    match cut content with
    | none => .error .decodeError
    | some piece => checked (json.loads piece)
  | loaded => checked loaded

def extractJsonObject (content : List Char) : Except Failure δ :=
  let content := Text.strip isSpace content
  if content = [] then .error (.valueError "LLM returned empty content")
  else
    match fenceMatch content with
    | some inner => parse json (Text.strip isSpace inner)
    | none => parse json content

end

abbrev Spaces := {t : List Char // ∀ c ∈ t, isSpace c = true}

/-- Prose without braces and back-ticks. -/
abbrev Prose := {t : List Char // ∀ c ∈ t, c ≠ '{' ∧ c ≠ '}' ∧ c ≠ '`'}

/-- What is around the text of an object in a reply: nothing, a fence with white space, or prose. -/
inductive Wrapping where
  | bare
  | fence (tagged : Bool) (outside inside inside' outside' : Spaces)
  | prose (before after : Prose)

def tag (tagged : Bool) : List Char := if tagged then ['j','s','o','n'] else []

def Wrapping.around : Wrapping → List Char → List Char
  | .bare,t => t
  | .fence tagged outside inside inside' outside',t =>
    outside.val ++ (ticks ++ (tag tagged ++ (inside.val ++ (t ++ (inside'.val ++ (ticks ++ outside'.val))))))
  | .prose before after,t => before.val ++ (t ++ after.val)

/-- Three back-ticks twice, one after the other. -/
def Fenced (t : List Char) : Prop := ∃ a m c, t = a ++ (ticks ++ (m ++ (ticks ++ c)))

/-- No fence is found in the text of the object itself; and `json.loads` does not take the whole, with its prose, for another value. -/
def Wrapping.Clear {δ l : Type} (json : JsonModule δ l) : Wrapping → List Char → Prop
  | .bare,t => ¬Fenced t
  | .fence ..,t => ¬ticks <:+: t
  | .prose before after,t =>
    ¬Fenced t ∧
      (json.loads (Text.strip isSpace (before.val ++ (t ++ after.val))) = .failed ∨
        ∃ d, json.loads (Text.strip isSpace (before.val ++ (t ++ after.val))) = .object d)

section Texts

variable {t x y a b : List Char} {c : Char}

theorem splitTicks_cons : splitTicks (c::t) = if (c::t).take 3 = ticks then some ([],t.drop 2) else (splitTicks t).map (fun p => (c::p.1,p.2)) := rfl

theorem splitTicks_other (other : c ≠ '`') : splitTicks (c::t) = (splitTicks t).map (fun p => (c::p.1,p.2)) := by
  rw [splitTicks_cons,if_neg]
  intro same
  rw [List.take_succ_cons] at same
  exact other (List.cons.inj same).1

theorem splitTicks_ticks : splitTicks (ticks ++ t) = some ([],t) := rfl

theorem splitTicks_plain (plain : '`' ∉ x) : splitTicks (x ++ t) = (splitTicks t).map (fun p => (x ++ p.1,p.2)) := by
  induction x with
  | nil => simp
  | cons c x ih =>
    rw [List.mem_cons,not_or] at plain
    rw [List.cons_append,splitTicks_other (Ne.symm plain.1),ih plain.2,Option.map_map]
    rfl

theorem splitTicks_some (found : splitTicks t = some (x,y)) : t = x ++ (ticks ++ y) := by
  induction t generalizing x with
  | nil => cases found
  | cons c t ih =>
    rw [splitTicks_cons] at found
    split at found
    · rename_i here
      cases found
      have whole := List.take_append_drop 3 (c::t)
      rw [here] at whole
      exact whole.symm
    · obtain ⟨⟨x',y'⟩,later,same⟩ := Option.map_eq_some_iff.mp found
      cases same
      rw [ih later]
      rfl

theorem splitTicks_first (whole : t = a ++ (ticks ++ b)) : ∃ x y, splitTicks t = some (x,y) ∧ (ticks ++ b) <:+ (ticks ++ y) := by
  induction t generalizing a with
  | nil => simp [ticks] at whole
  | cons c t ih =>
    rw [splitTicks_cons]
    split
    · rename_i here
      refine ⟨[],t.drop 2,rfl,?_⟩
      have same : ticks ++ t.drop 2 = c::t := by
        have all := List.take_append_drop 3 (c::t)
        rwa [here] at all
      rw [same,whole]
      exact List.suffix_append a _
    · rename_i later
      cases a with
      | nil =>
        rw [List.nil_append] at whole
        rw [whole] at later
        exact absurd rfl later
      | cons d a =>
        obtain ⟨rfl,tails⟩ := List.cons.inj whole
        obtain ⟨x,y,found,inside⟩ := ih tails
        exact ⟨c::x,y,by rw [found]; rfl,inside⟩

theorem splitTicks_none : splitTicks t = none ↔ ¬ticks <:+: t := by
  constructor
  · rintro none_ ⟨a,b,whole⟩
    rw [List.append_assoc] at whole
    obtain ⟨x,y,found,_⟩ := splitTicks_first whole.symm
    rw [none_] at found
    cases found
  · intro absent
    by_contra some_
    obtain ⟨⟨x,y⟩,found⟩ := Option.ne_none_iff_exists'.mp some_
    exact absent ⟨x,y,by rw [List.append_assoc]; exact (splitTicks_some found).symm⟩

theorem infix_behind (plain : '`' ∉ x) (inside : ticks <:+: x ++ t) : ticks <:+: t := by
  by_contra absent
  have none_ := splitTicks_plain (t := t) plain
  rw [splitTicks_none.mpr absent,Option.map_none,splitTicks_none] at none_
  exact none_ inside

theorem skip_spec (t : List Char) : ∃ skipped, t = skipped ++ (afterJson t).dropWhile isSpace ∧ '`' ∉ skipped := by
  have spaces : '`' ∉ (afterJson t).takeWhile isSpace := by
    intro member
    have space := List.mem_takeWhile_imp member
    exact absurd space (by decide)
  have split : (afterJson t).takeWhile isSpace ++ (afterJson t).dropWhile isSpace = afterJson t := List.takeWhile_append_dropWhile
  have word : ∃ letters, t = letters ++ afterJson t ∧ '`' ∉ letters := by
    unfold afterJson
    split
    · rename_i j s o n rest
      split
      · rename_i letters
        refine ⟨[j,s,o,n],rfl,fun member => ?_⟩
        simp only [List.mem_cons,List.not_mem_nil,or_false] at letters member
        rcases member with rfl | rfl | rfl | rfl <;> simp at letters
      · exact ⟨[],rfl,List.not_mem_nil⟩
    · exact ⟨[],rfl,List.not_mem_nil⟩
  obtain ⟨letters,whole,plain⟩ := word
  refine ⟨letters ++ (afterJson t).takeWhile isSpace,?_,?_⟩
  · rw [List.append_assoc,split]
    exact whole
  · rw [List.mem_append,not_or]
    exact ⟨plain,spaces⟩

theorem fenceMatch_some {g : List Char} (found : fenceMatch t = some g) : ∃ a m c, t = a ++ (ticks ++ (m ++ (ticks ++ c))) ∧ g <:+: m := by
  obtain ⟨⟨x,y⟩,first,later⟩ := Option.bind_eq_some_iff.mp found
  obtain ⟨⟨g',c⟩,second,rfl⟩ := Option.map_eq_some_iff.mp later
  obtain ⟨skipped,split,_⟩ := skip_spec y
  refine ⟨x,skipped ++ g',c,?_,(List.suffix_append skipped g').isInfix⟩
  rw [splitTicks_some first,split,splitTicks_some second,List.append_assoc]

theorem fenceMatch_none (none_ : fenceMatch t = none) : ¬Fenced t := by
  rintro ⟨a,m,c,whole⟩
  obtain ⟨x,y,first,inside⟩ := splitTicks_first whole
  have behind : (m ++ (ticks ++ c)) <:+ y := by
    refine List.suffix_of_suffix_length_le ((List.suffix_append ticks _).trans inside) (List.suffix_append ticks y) ?_
    have size := inside.length_le
    simp only [List.length_append] at size ⊢
    omega
  obtain ⟨skipped,split,plain⟩ := skip_spec y
  have again : ticks <:+: (afterJson y).dropWhile isSpace := by
    refine infix_behind plain ?_
    rw [← split]
    exact List.IsInfix.trans ⟨m,c,List.append_assoc _ _ _⟩ behind.isInfix
  rw [fenceMatch,first,Option.bind_some,Option.map_eq_none_iff,splitTicks_none] at none_
  exact none_ again

theorem fence_within {before after m c : List Char} (plain : '`' ∉ before) (plain' : '`' ∉ after)
    (whole : before ++ (t ++ after) = a ++ (ticks ++ (m ++ (ticks ++ c)))) : ∃ a' c', t = a' ++ (ticks ++ (m ++ (ticks ++ c'))) := by
  have left : ∃ a', t ++ after = a' ++ (ticks ++ (m ++ (ticks ++ c))) := by
    rcases List.append_eq_append_iff.mp whole with ⟨gap,_,same⟩ | ⟨gap,rfl,same⟩
    · exact ⟨gap,same⟩
    · cases gap with
      | nil => exact ⟨[],same.symm⟩
      | cons d gap =>
        have tick : '`' = d := (List.cons.inj same).1
        exact absurd (List.mem_append_right a (tick ▸ List.mem_cons_self)) plain
  obtain ⟨a',left⟩ := left
  have regroup : t ++ after = (a' ++ (ticks ++ (m ++ ticks))) ++ c := by
    rw [left]
    simp only [List.append_assoc]
  rcases List.append_eq_append_iff.mp regroup with ⟨gap,same,rfl⟩ | ⟨gap,same,_⟩
  · rcases List.eq_nil_or_concat gap with rfl | ⟨gap,d,rfl⟩
    · exact ⟨a',[],by rw [List.append_nil,same,List.append_nil]⟩
    · rw [List.concat_eq_append] at same plain'
      have last : (a' ++ (ticks ++ (m ++ ['`','`']))) ++ ['`'] = (t ++ gap) ++ [d] := by
        rw [List.append_assoc t gap,← same]
        simp [ticks]
      have tick := List.singleton_inj.mp (List.append_inj' last rfl).2
      rw [← tick] at plain'
      exact absurd (List.mem_append_left c (List.mem_append_right gap List.mem_cons_self)) plain'
  · refine ⟨a',gap,?_⟩
    rw [same]
    simp only [List.append_assoc]

theorem strip_within (t : List Char) : Text.strip isSpace t <:+: t := by
  have front : t.dropWhile isSpace <:+: t := (List.dropWhile_suffix isSpace).isInfix
  refine List.IsInfix.trans ?_ front
  have back : (t.dropWhile isSpace).reverse.dropWhile isSpace <:+: (t.dropWhile isSpace).reverse := (List.dropWhile_suffix isSpace).isInfix
  have turned := List.reverse_infix.mpr back
  rwa [List.reverse_reverse] at turned

theorem cut_within {piece : List Char} (found : cut t = some piece) : piece <:+: t := by
  unfold cut at found
  dsimp only at found
  split at found
  · cases found
  · cases found
    have front : t.dropWhile (· ≠ '{') <:+: t := (List.dropWhile_suffix _).isInfix
    refine List.IsInfix.trans ?_ front
    have back : (t.dropWhile (· ≠ '{')).reverse.dropWhile (· ≠ '}') <:+: (t.dropWhile (· ≠ '{')).reverse := (List.dropWhile_suffix _).isInfix
    have turned := List.reverse_infix.mpr back
    rwa [List.reverse_reverse] at turned

theorem dropWhile_before {p : Char → Bool} (stop : p c = false) (x t : List Char) :
    (x ++ c::t).dropWhile p = x.dropWhile p ++ c::t := by
  induction x with
  | nil => rw [List.nil_append,List.dropWhile_nil,List.nil_append,List.dropWhile_cons_of_neg (by simp [stop])]
  | cons d x ih =>
    by_cases drop : p d
    · rw [List.cons_append,List.dropWhile_cons_of_pos drop,List.dropWhile_cons_of_pos drop,ih]
    · rw [List.cons_append,List.dropWhile_cons_of_neg drop,List.dropWhile_cons_of_neg drop,List.cons_append]

theorem strip_around {first last : Char} (start : isSpace first = false) (stop : isSpace last = false) (x y t : List Char) :
    Text.strip isSpace (x ++ (first::(t ++ [last]) ++ y)) =
      x.dropWhile isSpace ++ (first::(t ++ [last]) ++ (y.reverse.dropWhile isSpace).reverse) := by
  unfold Text.strip
  rw [List.cons_append,dropWhile_before start]
  have turned : (x.dropWhile isSpace ++ first::(t ++ [last] ++ y)).reverse = y.reverse ++ last::(x.dropWhile isSpace ++ first::t).reverse := by
    simp
  rw [turned,dropWhile_before stop]
  simp

/-- Prose leaves the braces to the text. -/
theorem cut_around {x y : List Char} (before : '{' ∉ x) (behind : '}' ∉ y) (t : List Char) :
    cut (x ++ ('{'::(t ++ ['}']) ++ y)) = some ('{'::(t ++ ['}'])) := by
  have front : x.dropWhile (· ≠ '{') = [] := by
    rw [List.dropWhile_eq_nil_iff]
    exact fun d member => decide_eq_true fun same => before (same ▸ member)
  have back : y.reverse.dropWhile (· ≠ '}') = [] := by
    rw [List.dropWhile_eq_nil_iff]
    exact fun d member => decide_eq_true fun same => behind (same ▸ List.mem_reverse.mp member)
  have turned : ('{'::(t ++ ['}'] ++ y)).reverse = y.reverse ++ '}'::('{'::t).reverse := by simp
  unfold cut
  dsimp only
  rw [List.cons_append,dropWhile_before (by decide),front,List.nil_append,turned,dropWhile_before (by decide),back,List.nil_append]
  simp

theorem afterJson_other (other : c ∉ ['j','J']) : afterJson (c::t) = c::t := by
  unfold afterJson
  split
  · rename_i whole
    obtain ⟨rfl,rfl⟩ := List.cons.inj whole
    rw [if_neg]
    exact fun letters => other letters.1
  · rfl

theorem spaces_dropped (spaces : ∀ d ∈ x, isSpace d = true) : x.dropWhile isSpace = [] := List.dropWhile_eq_nil_iff.mpr spaces

theorem spaces_plain (spaces : ∀ d ∈ x, isSpace d = true) : '`' ∉ x := fun member => absurd (spaces '`' member) (by decide)

theorem skip_tag (spaces : ∀ d ∈ x, isSpace d = true) (tagged : Bool) : (afterJson (tag tagged ++ (x ++ '{'::t))).dropWhile isSpace = '{'::t := by
  have skipped : (x ++ '{'::t).dropWhile isSpace = '{'::t := by
    rw [dropWhile_before (by decide),spaces_dropped spaces,List.nil_append]
  cases tagged with
  | true => exact skipped
  | false =>
    change (afterJson (x ++ '{'::t)).dropWhile isSpace = '{'::t
    cases x with
    | nil =>
      rw [List.nil_append,afterJson_other (by decide)]
      exact skipped
    | cons d x =>
      have space := spaces d List.mem_cons_self
      rw [List.cons_append,afterJson_other]
      · exact skipped
      · intro letter
        rcases List.mem_cons.mp letter with rfl | letter
        · exact absurd space (by decide)
        · rw [List.mem_singleton.mp letter] at space
          exact absurd space (by decide)

/-- A text that does not end in a back-tick begins no three of them. -/
theorem splitTicks_closed (other : c ≠ '`') (absent : splitTicks (x ++ [c]) = none) (t : List Char) :
    splitTicks (x ++ c::t) = (splitTicks t).map (fun p => (x ++ c::p.1,p.2)) := by
  induction x with
  | nil => exact splitTicks_other other
  | cons d x ih =>
    rw [List.cons_append,splitTicks_cons] at absent ⊢
    have same : (d::(x ++ c::t)).take 3 = ticks ↔ (d::(x ++ [c])).take 3 = ticks := by
      cases x with
      | nil => simp [ticks,other]
      | cons e x => cases x <;> simp
    split at absent
    · cases absent
    · rename_i later
      rw [if_neg (fun here => later (same.mp here)),ih (Option.map_eq_none_iff.mp absent),Option.map_map]
      rfl

/-- The part before the first three back-ticks of a text that has them. -/
theorem splitTicks_prefix (inside : ticks <:+: t) (behind : List Char) : ∃ g y, splitTicks (t ++ behind) = some (g,y) ∧ g <:+: t ∧ g ≠ t := by
  obtain ⟨a,b,rfl⟩ := inside
  have regroup : a ++ ticks ++ b ++ behind = a ++ (ticks ++ (b ++ behind)) := by simp only [List.append_assoc]
  obtain ⟨g,y,found,later⟩ := splitTicks_first regroup
  have whole := splitTicks_some found
  have size := congrArg List.length whole
  have least := later.length_le
  simp only [List.length_append] at size least
  have shorter : g.length < (a ++ ticks ++ b).length := by
    have three : ticks.length = 3 := rfl
    simp only [List.length_append]
    omega
  have front : g <+: a ++ ticks ++ b := by
    refine List.prefix_of_prefix_length_le ?_ (List.prefix_append _ behind) shorter.le
    rw [whole]
    exact List.prefix_append g _
  exact ⟨g,y,found,front.isInfix,fun same => absurd (congrArg List.length same) shorter.ne⟩

end Texts

section Reply

variable {δ l : Type} {json : JsonModule δ l} {layout : l} {d : δ} {t x y : List Char}

theorem part (inside : t <:+: json.dumps layout d) (read : json.loads t = .object d) : t = json.dumps layout d := by
  obtain ⟨before,after,whole⟩ := inside
  obtain ⟨s,b,space,t',space',rfl,_,_,object,strings,braces⟩ := json.reads t d read
  have text := json.writes layout d
  have regroup : json.dumps layout d = (before ++ space) ++ t' ++ (space' ++ after) := by
    rw [← whole]
    simp only [List.append_assoc]
  rw [regroup] at text
  obtain ⟨front,back⟩ := text.whole object strings braces
  obtain ⟨rfl,_⟩ := List.append_eq_nil_iff.mp front
  obtain ⟨_,rfl⟩ := List.append_eq_nil_iff.mp back
  rw [← whole,List.nil_append,List.append_nil]

theorem parse_part (inside : t <:+: json.dumps layout d) (proper : t ≠ json.dumps layout d) : parse json t ≠ .ok d := by
  intro parsed
  unfold parse at parsed
  cases read : json.loads t with
  | failed =>
    rw [read] at parsed
    dsimp only at parsed
    split at parsed
    · cases parsed
    · rename_i piece found
      cases again : json.loads piece with
      | failed => rw [again] at parsed; cases parsed
      | raised => rw [again] at parsed; cases parsed
      | other type => rw [again] at parsed; cases parsed
      | object d' =>
        rw [again] at parsed
        cases parsed
        have whole := part ((cut_within found).trans inside) again
        have least := (cut_within found).length_le
        rw [whole] at least
        exact proper (inside.eq_of_length_le least)
  | object d' =>
    rw [read] at parsed
    cases parsed
    exact proper (part inside read)
  | raised =>
    rw [read] at parsed
    cases parsed
  | other type =>
    rw [read] at parsed
    cases parsed

theorem parse_object (read : json.loads t = .object d) : parse json t = .ok d := by
  rw [parse,read]
  rfl

theorem dumps_shape (json : JsonModule δ l) (layout : l) (d : δ) : ∃ mid, json.dumps layout d = '{'::(mid ++ ['}']) := by
  have text := json.writes layout d
  obtain ⟨more,first⟩ := text.head
  obtain ⟨front,last⟩ := text.ends
  rw [first] at last
  cases front with
  | nil => exact absurd (List.cons.inj last).1 (by decide)
  | cons c mid =>
    rw [first]
    exact ⟨mid,congrArg (List.cons '{') (List.cons.inj last).2⟩

theorem object_edges (read : json.loads t = .object d) :
    (∀ c more, t = c::more → c = '{' ∨ isSpace c = true) ∧ ∀ c more, t = more ++ [c] → c = '}' ∨ isSpace c = true := by
  have space : ∀ c ∈ blanks, isSpace c = true := by
    intro c member
    simp only [blanks,List.mem_cons,List.not_mem_nil,or_false] at member
    rcases member with rfl | rfl | rfl | rfl <;> rfl
  obtain ⟨s,b,before,t',after,rfl,front,back,object,_⟩ := json.reads t d read
  refine ⟨fun c more split => ?_,fun c more split => ?_⟩
  · cases before with
    | nil =>
      obtain ⟨tail,rfl⟩ := object.head
      exact .inl (List.cons.inj split).1.symm
    | cons e before =>
      have same : e = c := (List.cons.inj split).1
      exact .inr (same ▸ space e (front e List.mem_cons_self))
  · rcases List.eq_nil_or_concat after with rfl | ⟨after,e,rfl⟩
    · obtain ⟨init,rfl⟩ := object.ends
      rw [List.append_nil,← List.append_assoc] at split
      exact .inl (List.singleton_inj.mp (List.append_inj' split rfl).2).symm
    · rw [List.concat_eq_append] at split back
      rw [← List.append_assoc] at split
      have same : e = c := List.singleton_inj.mp (List.append_inj' split rfl).2
      exact .inr (same ▸ space e (back e (List.mem_append_right _ List.mem_cons_self)))

theorem prose_blank {before after : Prose} {d' : δ}
    (read : json.loads (before.val.dropWhile isSpace ++ (json.dumps layout d ++ (after.val.reverse.dropWhile isSpace).reverse)) = .object d') :
    before.val.dropWhile isSpace = [] ∧ (after.val.reverse.dropWhile isSpace).reverse = [] := by
  obtain ⟨front,back⟩ := object_edges read
  constructor
  · cases left : before.val.dropWhile isSpace with
    | nil => rfl
    | cons c x =>
      rw [left] at front
      have kept : isSpace c = false := by
        have head := List.head?_dropWhile_not isSpace before.val
        rw [left] at head
        exact head
      have member : c ∈ before.val := (List.dropWhile_suffix isSpace).subset (left ▸ List.mem_cons_self)
      rcases front c _ rfl with brace | space
      · exact absurd brace (before.property c member).1
      · rw [kept] at space
        cases space
  · cases left : after.val.reverse.dropWhile isSpace with
    | nil => rfl
    | cons c x =>
      rw [left,List.reverse_cons] at back
      have kept : isSpace c = false := by
        have head := List.head?_dropWhile_not isSpace after.val.reverse
        rw [left] at head
        exact head
      have member : c ∈ after.val := List.mem_reverse.mp ((List.dropWhile_suffix isSpace).subset (left ▸ List.mem_cons_self))
      have last : before.val.dropWhile isSpace ++ (json.dumps layout d ++ (x.reverse ++ [c])) =
          before.val.dropWhile isSpace ++ (json.dumps layout d ++ x.reverse) ++ [c] := by simp only [List.append_assoc]
      rcases back c _ last with brace | space
      · exact absurd brace (after.property c member).2.1
      · rw [kept] at space
        cases space

theorem group_part {g a m c : List Char} (whole : json.dumps layout d = a ++ (ticks ++ (m ++ (ticks ++ c)))) (group : g <:+: m) :
    parse json (Text.strip isSpace g) ≠ .ok d := by
  have within : m <:+: json.dumps layout d := ⟨a ++ ticks,ticks ++ c,by rw [whole]; simp only [List.append_assoc]⟩
  have inside := (strip_within g).trans group
  refine parse_part (inside.trans within) (fun same => ?_)
  have size := congrArg List.length whole
  have least := inside.length_le
  rw [same] at least
  have three : ticks.length = 3 := rfl
  simp only [List.length_append] at size
  omega

/-- Without a fence the object is found unless the whole is taken for something else. -/
theorem parse_around (front : '{' ∉ x) (back : '}' ∉ y) (alone : ∀ d', json.loads (x ++ (json.dumps layout d ++ y)) = .object d' → x = [] ∧ y = []) :
    parse json (x ++ (json.dumps layout d ++ y)) = .ok d ↔
      json.loads (x ++ (json.dumps layout d ++ y)) = .failed ∨ ∃ d', json.loads (x ++ (json.dumps layout d ++ y)) = .object d' := by
  cases read : json.loads (x ++ (json.dumps layout d ++ y)) with
  | failed =>
    refine iff_of_true ?_ (.inl rfl)
    obtain ⟨mid,shape⟩ := dumps_shape json layout d
    have braces : cut (x ++ (json.dumps layout d ++ y)) = some (json.dumps layout d) := by
      rw [shape]
      exact cut_around front back mid
    rw [parse,read]
    dsimp only
    rw [braces]
    dsimp only
    rw [json.inverts]
    rfl
  | object d' =>
    refine iff_of_true ?_ (.inr ⟨d',rfl⟩)
    obtain ⟨rfl,rfl⟩ := alone d' read
    rw [List.nil_append,List.append_nil]
    exact parse_object (json.inverts layout d)
  | raised =>
    rw [parse,read]
    refine iff_of_false (fun parsed => nomatch parsed) ?_
    rintro (failed | ⟨d',object⟩)
    · cases failed
    · cases object
  | other type =>
    rw [parse,read]
    refine iff_of_false (fun parsed => nomatch parsed) ?_
    rintro (failed | ⟨d',object⟩)
    · cases failed
    · cases object

theorem extract_prose (before after : Prose) :
    extractJsonObject json ((Wrapping.prose before after).around (json.dumps layout d)) = .ok d ↔
      (Wrapping.prose before after).Clear json (json.dumps layout d) := by
  obtain ⟨mid,shape⟩ := dumps_shape json layout d
  have front : ∀ c ∈ before.val.dropWhile isSpace, c ≠ '{' ∧ c ≠ '}' ∧ c ≠ '`' := fun c member =>
    before.property c ((List.dropWhile_suffix isSpace).subset member)
  have back : ∀ c ∈ (after.val.reverse.dropWhile isSpace).reverse, c ≠ '{' ∧ c ≠ '}' ∧ c ≠ '`' := fun c member =>
    after.property c (List.mem_reverse.mp ((List.dropWhile_suffix isSpace).subset (List.mem_reverse.mp member)))
  have alone := @prose_blank δ l json layout d before after
  have stripped : Text.strip isSpace (before.val ++ (json.dumps layout d ++ after.val)) =
      before.val.dropWhile isSpace ++ (json.dumps layout d ++ (after.val.reverse.dropWhile isSpace).reverse) := by
    rw [shape]
    exact strip_around (by decide) (by decide) _ _ _
  unfold extractJsonObject Wrapping.Clear Wrapping.around
  dsimp only
  rw [stripped]
  generalize before.val.dropWhile isSpace = x at *
  generalize (after.val.reverse.dropWhile isSpace).reverse = y at *
  have nonempty : x ++ (json.dumps layout d ++ y) ≠ [] := by simp [shape]
  rw [if_neg nonempty]
  cases fence : fenceMatch (x ++ (json.dumps layout d ++ y)) with
  | some g =>
    obtain ⟨a,m,c,whole,group⟩ := fenceMatch_some fence
    obtain ⟨a',c',inside⟩ := fence_within (fun tick => (front _ tick).2.2 rfl) (fun tick => (back _ tick).2.2 rfl) whole
    exact iff_of_false (group_part inside group) (fun clear => clear.1 ⟨a',m,c',inside⟩)
  | none =>
    have clear : ¬Fenced (json.dumps layout d) := by
      rintro ⟨a,m,c,whole⟩
      refine fenceMatch_none fence ⟨x ++ a,m,c ++ y,?_⟩
      rw [whole]
      simp only [List.append_assoc]
    refine Iff.trans ?_ (and_iff_right clear).symm
    exact parse_around (fun brace => (front _ brace).1 rfl) (fun brace => (back _ brace).2.1 rfl) (fun _ => alone)

theorem extract_fence (tagged : Bool) (outside inside inside' outside' : Spaces) :
    extractJsonObject json ((Wrapping.fence tagged outside inside inside' outside').around (json.dumps layout d)) = .ok d ↔
      ¬ticks <:+: json.dumps layout d := by
  obtain ⟨mid,shape⟩ := dumps_shape json layout d
  have stripped : Text.strip isSpace ((Wrapping.fence tagged outside inside inside' outside').around (json.dumps layout d)) =
      ticks ++ (tag tagged ++ (inside.val ++ (json.dumps layout d ++ (inside'.val ++ ticks)))) := by
    have ends : (Wrapping.fence tagged outside inside inside' outside').around (json.dumps layout d) =
        outside.val ++ ('`'::((['`','`'] ++ (tag tagged ++ (inside.val ++ (json.dumps layout d ++ (inside'.val ++ ['`','`']))))) ++ ['`']) ++ outside'.val) := by
      simp [Wrapping.around,ticks]
    have spaces : ∀ c ∈ outside'.val.reverse, isSpace c = true := fun c member => outside'.property c (List.mem_reverse.mp member)
    rw [ends,strip_around (by decide) (by decide),spaces_dropped outside.property,spaces_dropped spaces]
    simp [ticks]
  have fence : fenceMatch (ticks ++ (tag tagged ++ (inside.val ++ (json.dumps layout d ++ (inside'.val ++ ticks))))) =
      (splitTicks (json.dumps layout d ++ (inside'.val ++ ticks))).map Prod.fst := by
    rw [fenceMatch,splitTicks_ticks,Option.bind_some,shape,List.cons_append,skip_tag inside.property]
  unfold extractJsonObject
  dsimp only
  rw [stripped,if_neg (by simp [ticks]),fence]
  by_cases early : ticks <:+: json.dumps layout d
  · obtain ⟨g,y,found,part,proper⟩ := splitTicks_prefix early (inside'.val ++ ticks)
    rw [found]
    refine iff_of_false (parse_part ((strip_within g).trans part) (fun same => proper ?_)) (not_not_intro early)
    exact part.eq_of_length_le (same ▸ (strip_within g).length_le)
  · have absent : splitTicks (('{'::mid) ++ ['}']) = none := by
      rw [splitTicks_none,List.cons_append,← shape]
      exact early
    have spaces : ∀ c ∈ inside'.val.reverse, isSpace c = true := fun c member => inside'.property c (List.mem_reverse.mp member)
    have found : splitTicks (json.dumps layout d ++ (inside'.val ++ ticks)) = some (json.dumps layout d ++ inside'.val,[]) := by
      have closed := splitTicks_closed (by decide) absent (inside'.val ++ (ticks ++ []))
      rw [splitTicks_plain (spaces_plain inside'.property),splitTicks_ticks] at closed
      rw [shape]
      simpa using closed
    have alone : Text.strip isSpace (json.dumps layout d ++ inside'.val) = json.dumps layout d := by
      have around := @strip_around '{' '}' (by decide) (by decide) [] inside'.val mid
      rw [spaces_dropped spaces] at around
      rw [shape]
      simpa using around
    rw [found]
    refine iff_of_true ?_ early
    change parse json (Text.strip isSpace (json.dumps layout d ++ inside'.val)) = .ok d
    rw [alone]
    exact parse_object (json.inverts layout d)

/-- An object comes through a reply if and only if what is around its text, and the text itself, leave it alone. -/
theorem extract_iff (json : JsonModule δ l) (layout : l) (d : δ) (w : Wrapping) :
    extractJsonObject json (w.around (json.dumps layout d)) = .ok d ↔ w.Clear json (json.dumps layout d) := by
  cases w with
  | prose before after => exact extract_prose before after
  | fence tagged outside inside inside' outside' => exact extract_fence tagged outside inside inside' outside'
  | bare =>
    have empty : ∀ c ∈ ([] : List Char), c ≠ '{' ∧ c ≠ '}' ∧ c ≠ '`' := by simp
    obtain ⟨mid,shape⟩ := dumps_shape json layout d
    have alone : Text.strip isSpace (json.dumps layout d) = json.dumps layout d := by
      have closed := @Text.strip_closed isSpace '{' '}' (by decide) (by decide) mid
      rwa [List.cons_append,← shape] at closed
    have prose := @extract_prose δ l json layout d ⟨[],empty⟩ ⟨[],empty⟩
    unfold Wrapping.around Wrapping.Clear at prose ⊢
    simp only [List.nil_append,List.append_nil,alone] at prose
    rw [prose]
    exact and_iff_left (.inr ⟨d,json.inverts layout d⟩)

end Reply

/-- A string with a fence, and an object that a list is of. -/
def sampleText : Bool → List Char
  | false => "\x7b\"a\":\"```x```\"\x7d".toList
  | true => "\x7b\x7d".toList

theorem sampleText_object (d : Bool) : ObjectText (if d then 0 else 2) 2 (sampleText d) := by
  cases d with
  | true =>
    refine ⟨?_,⟨[],['}'],rfl,by simp [Blank],.inl rfl⟩,⟨['{'],rfl⟩⟩
    exact .brace (.inl rfl) (.brace (.inr rfl) .nil)
  | false =>
    have key : Body ['a'] := .plain (by decide) (by decide) .nil
    have value : Body ("```x```".toList) := by
      repeat' first | exact Body.nil | refine Body.plain (by decide) (by decide) ?_
    refine ⟨?_,⟨[],_,rfl,by simp [Blank],.inr ⟨_,rfl⟩⟩,⟨"\x7b\"a\":\"```x```\"".toList,rfl⟩⟩
    exact .brace (.inl rfl) (.text key (.other (by decide) (by decide) (by decide) (by decide) (.text value (.brace (.inr rfl) .nil))))

def sample : JsonModule Bool Unit where
  loads t :=
    if t = sampleText false then .object false
    else if t = sampleText true then .object true
    else if t = "[\x7b\x7d]".toList then .other "list"
    else .failed
  dumps _ := sampleText
  strings d := if d then 0 else 2
  braces _ := 2
  inverts _ d := by cases d <;> decide
  writes _ := sampleText_object
  reads t d read := by
    have same : t = sampleText d := by
      split at read
      · cases read
        assumption
      · split at read
        · cases read
          assumption
        · split at read <;> cases read
    exact ⟨_,_,[],t,[],by simp,by simp [Blank],by simp [Blank],same ▸ sampleText_object d,le_rfl,le_rfl⟩

theorem fence_in_string :
    ¬(∀ d, extractJsonObject sample (Wrapping.bare.around (sample.dumps () d)) = .ok d) ∧
      ¬∀ before after : Prose, extractJsonObject sample ((Wrapping.prose before after).around (sample.dumps () true)) = .ok true := by
  constructor
  · intro all
    exact absurd (all false) (by decide)
  · intro all
    exact absurd (all ⟨['['],by simp⟩ ⟨[']'],by simp⟩) (by decide)

end Suixinji.Llm
