import Mathlib.Data.List.Infix

/-! Texts of JSON objects by their strings and braces: no part of such a text, but the whole of it, has as many of both and begins with a
brace. -/
namespace Suixinji.JsonObject

/-- What a backslash stands before. -/
def escapes : List Char := ['"','\\','/','b','f','n','r','t','u']

/-- What is between the quotes of a string. -/
inductive Body : List Char → Prop
  | nil : Body []
  | plain {c : Char} {cs : List Char} (quote : c ≠ '"') (slash : c ≠ '\\') (rest : Body cs) : Body (c::cs)
  | escape {c : Char} {cs : List Char} (known : c ∈ escapes) (rest : Body cs) : Body ('\\'::c::cs)

/-- A text of so many strings and so many braces outside of them. -/
inductive Lexed : Nat → Nat → List Char → Prop
  | nil : Lexed 0 0 []
  | text {body cs : List Char} {s b : Nat} (inside : Body body) (rest : Lexed s b cs) : Lexed (s + 1) b ('"'::(body ++ '"'::cs))
  | brace {c : Char} {cs : List Char} {s b : Nat} (brace : c = '{' ∨ c = '}') (rest : Lexed s b cs) : Lexed s (b + 1) (c::cs)
  | other {c : Char} {cs : List Char} {s b : Nat} (quote : c ≠ '"') (slash : c ≠ '\\') (first : c ≠ '{') (last : c ≠ '}')
    (rest : Lexed s b cs) : Lexed s b (c::cs)

def blanks : List Char := [' ','\t','\n','\r']

def Blank (cs : List Char) : Prop := ∀ c ∈ cs, c ∈ blanks

/-- The text of an object: the brace that ends it, or a key, comes after the first brace. -/
structure ObjectText (s b : Nat) (t : List Char) : Prop where
  lexed : Lexed s b t
  starts : ∃ space rest, t = '{'::(space ++ rest) ∧ Blank space ∧ (rest = ['}'] ∨ ∃ more, rest = '"'::more)
  ends : ∃ more, t = more ++ ['}']

/-- The quotes that no backslash stands before, where each backslash stands before what it may. -/
def quotes : Bool → List Char → Option Nat
  | _,[] => some 0
  | true,c::cs => if c ∈ escapes then quotes false cs else none
  | false,c::cs => if c = '\\' then quotes true cs else (quotes false cs).map (· + (decide (c = '"')).toNat)

section

variable {s b s' b' n : Nat} {t a body more : List Char}

theorem quotes_plain {c : Char} (slash : c ≠ '\\') : quotes false (c::more) = (quotes false more).map (· + (decide (c = '"')).toNat) := by
  rw [quotes,if_neg slash]

theorem quotes_other {c : Char} (quote : c ≠ '"') (slash : c ≠ '\\') : quotes false (c::more) = quotes false more := by
  rw [quotes_plain slash,decide_eq_false quote]
  cases quotes false more <;> rfl

theorem Body.quotes (inside : Body body) (rest : List Char) : quotes false (body ++ rest) = quotes false rest := by
  induction inside with
  | nil => rfl
  | plain quote slash _ ih => rw [List.cons_append,quotes_other quote slash,ih]
  | escape known _ ih =>
    rw [List.cons_append,List.cons_append,JsonObject.quotes,if_pos rfl,JsonObject.quotes,if_pos known]
    exact ih

theorem Lexed.quotes (lexed : Lexed s b t) (rest : List Char) : quotes false (t ++ rest) = (quotes false rest).map (2 * s + ·) := by
  induction lexed with
  | nil => simp
  | text inside _ ih =>
    rw [List.cons_append,quotes_plain (by decide),List.append_assoc,inside.quotes,List.cons_append,quotes_plain (by decide),ih]
    simp only [Option.map_map,decide_true,Bool.toNat_true]
    congr 1
    funext k
    simp only [Function.comp_apply]
    omega
  | brace brace _ ih =>
    rw [List.cons_append,quotes_other,ih]
    all_goals rcases brace with rfl | rfl <;> decide
  | other quote slash _ _ _ ih => rw [List.cons_append,quotes_other quote slash,ih]

/-- What comes before a text, misread or not, does not take its strings away. -/
theorem Lexed.quotes_after (lexed : Lexed s b ('{'::t)) (escaped : Bool) (a : List Char) (counted : JsonObject.quotes escaped (a ++ '{'::(t ++ more)) = some n) :
    2 * s ≤ n := by
  induction a generalizing escaped n with
  | nil =>
    cases escaped with
    | true => simp [JsonObject.quotes,escapes] at counted
    | false =>
      have split := lexed.quotes more
      rw [List.cons_append] at split
      rw [List.nil_append,split] at counted
      obtain ⟨k,_,rfl⟩ := Option.map_eq_some_iff.mp counted
      omega
  | cons c a ih =>
    rw [List.cons_append] at counted
    cases escaped with
    | true =>
      rw [JsonObject.quotes] at counted
      split at counted
      · exact ih false counted
      · cases counted
    | false =>
      rw [JsonObject.quotes] at counted
      split at counted
      · exact ih true counted
      · obtain ⟨k,fewer,rfl⟩ := Option.map_eq_some_iff.mp counted
        exact (ih false fewer).trans (Nat.le_add_right _ _)

/-- A string ends at its first quote. -/
theorem Body.unique {body' more' : List Char} (inside : Body body) (inside' : Body body')
    (same : body ++ '"'::more = body' ++ '"'::more') : body = body' ∧ more = more' := by
  induction inside generalizing body' with
  | nil =>
    cases inside' with
    | nil => exact ⟨rfl,(List.cons.inj same).2⟩
    | plain quote => exact absurd (List.cons.inj same).1.symm quote
    | escape => exact absurd (List.cons.inj same).1 (by decide)
  | plain quote slash _ ih =>
    cases inside' with
    | nil => exact absurd (List.cons.inj same).1 quote
    | plain _ _ inside' =>
      obtain ⟨first,tail⟩ := List.cons.inj same
      obtain ⟨bodies,behind⟩ := ih inside' tail
      exact ⟨congrArg₂ List.cons first bodies,behind⟩
    | escape => exact absurd (List.cons.inj same).1 slash
  | escape _ _ ih =>
    cases inside' with
    | nil => exact absurd (List.cons.inj same).1 (by decide)
    | plain _ slash => exact absurd (List.cons.inj same).1.symm slash
    | escape _ inside' =>
      obtain ⟨first,tail⟩ := List.cons.inj (List.cons.inj same).2
      obtain ⟨bodies,behind⟩ := ih inside' tail
      exact ⟨congrArg (List.cons '\\') (congrArg₂ List.cons first bodies),behind⟩

theorem lexed_text (lexed : Lexed s b ('"'::more)) : ∃ body cs s', Body body ∧ Lexed s' b cs ∧ more = body ++ '"'::cs ∧ s = s' + 1 := by
  generalize whole : '"'::more = t at lexed
  cases lexed with
  | nil => cases whole
  | text inside behind => exact ⟨_,_,_,inside,behind,(List.cons.inj whole).2,rfl⟩
  | brace brace =>
    rw [← (List.cons.inj whole).1] at brace
    exact absurd brace (by decide)
  | other quote => exact absurd (List.cons.inj whole).1.symm quote

theorem lexed_brace {c : Char} (brace : c = '{' ∨ c = '}') (lexed : Lexed s b (c::more)) : ∃ b', Lexed s b' more ∧ b = b' + 1 := by
  generalize whole : c::more = t at lexed
  cases lexed with
  | nil => cases whole
  | text =>
    rw [(List.cons.inj whole).1] at brace
    exact absurd brace (by decide)
  | brace _ behind => exact ⟨_,(List.cons.inj whole).2 ▸ behind,rfl⟩
  | other _ _ first last =>
    rw [(List.cons.inj whole).1] at brace
    exact absurd brace (not_or.mpr ⟨first,last⟩)

theorem lexed_other {c : Char} (quote : c ≠ '"') (first : c ≠ '{') (last : c ≠ '}') (lexed : Lexed s b (c::more)) : Lexed s b more := by
  generalize whole : c::more = t at lexed
  cases lexed with
  | nil => cases whole
  | text => exact absurd (List.cons.inj whole).1 quote
  | brace brace =>
    rw [← (List.cons.inj whole).1] at brace
    exact absurd brace (not_or.mpr ⟨first,last⟩)
  | other _ _ _ _ behind => exact (List.cons.inj whole).2 ▸ behind

/-- What is behind a text is a text, of the strings and braces that are left. -/
theorem Lexed.behind (lexed : Lexed s b t) (whole : Lexed s' b' (t ++ more)) : ∃ s₂ b₂, Lexed s₂ b₂ more ∧ s' = s + s₂ ∧ b' = b + b₂ := by
  induction lexed generalizing s' b' with
  | nil => exact ⟨s',b',whole,(Nat.zero_add _).symm,(Nat.zero_add _).symm⟩
  | text inside _ ih =>
    rw [List.cons_append,List.append_assoc,List.cons_append] at whole
    obtain ⟨body',cs',s₁,inside',lexed,split,rfl⟩ := lexed_text whole
    obtain ⟨_,rfl⟩ := inside.unique inside' split
    obtain ⟨s₂,b₂,last,strings,braces⟩ := ih lexed
    exact ⟨s₂,b₂,last,by omega,braces⟩
  | brace brace _ ih =>
    obtain ⟨b₁,lexed,rfl⟩ := lexed_brace brace whole
    obtain ⟨s₂,b₂,last,strings,braces⟩ := ih lexed
    exact ⟨s₂,b₂,last,strings,by omega⟩
  | other quote _ first last _ ih => exact ih (lexed_other quote first last whole)

theorem Lexed.brace_of_mem {c : Char} (brace : c = '{' ∨ c = '}') (lexed : Lexed s b t) (none_ : s = 0) (member : c ∈ t) : 0 < b := by
  induction lexed with
  | nil => cases member
  | text => exact absurd none_ (Nat.succ_ne_zero _)
  | brace => exact Nat.succ_pos _
  | other _ _ first last _ ih =>
    rcases List.mem_cons.mp member with rfl | later
    · exact absurd brace (not_or.mpr ⟨first,last⟩)
    · exact ih none_ later

theorem brace_not_blank {cs : List Char} (blank : Blank cs) {c : Char} (brace : c = '{' ∨ c = '}' ∨ c = '"') : c ∉ cs := by
  intro member
  have space := blank c member
  rcases brace with rfl | rfl | rfl <;> exact absurd space (by decide)

theorem Blank.quotes {cs : List Char} (blank : Blank cs) (more : List Char) : quotes false (cs ++ more) = quotes false more := by
  induction cs with
  | nil => rfl
  | cons c cs ih =>
    obtain ⟨space,others⟩ := List.forall_mem_cons.mp blank
    rw [List.cons_append,quotes_other,ih others]
    all_goals
      rintro rfl
      exact absurd space (by decide)

theorem ObjectText.head {t : List Char} (object : ObjectText s b t) : ∃ more, t = '{'::more := by
  obtain ⟨space,rest,rfl,_⟩ := object.starts
  exact ⟨_,rfl⟩

theorem ObjectText.whole {before after : List Char} (object : ObjectText s b (before ++ t ++ after)) (part : ObjectText s' b' t) (strings : s ≤ s')
    (braces : b ≤ b') : before = [] ∧ after = [] := by
  have counted : quotes false (before ++ t ++ after) = some (2 * s) := by
    have all := object.lexed.quotes []
    rwa [List.append_nil,quotes,Option.map_some,Nat.add_zero] at all
  obtain ⟨tail,rfl⟩ := part.head
  have start : before = [] := by
    cases before with
    | nil => rfl
    | cons first before =>
      exfalso
      obtain ⟨space,rest,split,blank,next⟩ := object.starts
      rw [List.append_assoc,List.cons_append] at split
      obtain ⟨rfl,tails⟩ := List.cons.inj split
      rcases next with rfl | ⟨more,rfl⟩
      · have there : '{' ∈ space ++ ['}'] := tails ▸ List.mem_append_right _ List.mem_cons_self
        rcases List.mem_append.mp there with inside | last
        · exact brace_not_blank blank (.inl rfl) inside
        · exact absurd (List.mem_singleton.mp last) (by decide)
      · rcases List.append_eq_append_iff.mp tails with ⟨gap,rfl,last⟩ | ⟨gap,rfl,last⟩
        · cases gap with
          | nil => exact absurd (List.cons.inj last).1 (by decide)
          | cons c gap =>
            obtain ⟨rfl,_⟩ := List.cons.inj last
            exact brace_not_blank blank (.inl rfl) (List.mem_append_right _ List.mem_cons_self)
        · cases gap with
          | nil => exact absurd (List.cons.inj last).1 (by decide)
          | cons c gap =>
            -- a quote is before the part, which has all of them
            obtain ⟨rfl,_⟩ := List.cons.inj last
            rw [List.append_assoc,List.cons_append,quotes_other (by decide) (by decide),List.append_assoc,blank.quotes,List.cons_append,
              quotes_plain (by decide)] at counted
            obtain ⟨k,fewer,total⟩ := Option.map_eq_some_iff.mp counted
            have least := part.lexed.quotes_after false gap fewer
            simp only [decide_true,Bool.toNat_true] at total
            omega
  subst start
  refine ⟨rfl,?_⟩
  rw [List.nil_append] at object counted
  obtain ⟨s₂,b₂,last,total,total'⟩ := part.lexed.behind object.lexed
  by_contra some_more
  obtain ⟨more,ends⟩ := object.ends
  have brace : '}' ∈ after := by
    obtain ⟨first,last,rfl⟩ := (List.eq_nil_or_concat after).resolve_left some_more
    rw [List.concat_eq_append,← List.append_assoc] at ends
    have same := (List.append_inj' ends rfl).2
    rw [List.concat_eq_append,List.singleton_inj.mp same]
    exact List.mem_append_right _ List.mem_cons_self
  have positive := last.brace_of_mem (.inr rfl) (by omega) brace
  omega

end

end Suixinji.JsonObject
