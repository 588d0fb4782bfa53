import Mathlib.Algebra.GroupWithZero.Nat
import Mathlib.Data.List.DropRight
import Mathlib.Data.List.Infix

/-! Texts as lists of characters: what is left without the space around it, what
one has in it, and the lines of a file. -/
namespace Suixinji.Text

instance lawfulText : LawfulBEq (List Char) := inferInstance

def strip (isSpace : Char → Bool) (text : List Char) : List Char :=
  ((text.dropWhile isSpace).reverse.dropWhile isSpace).reverse

/-- `str.isspace`, of one character. -/
def isSpace (c : Char) : Bool :=
  [9,10,11,12,13,28,29,30,31,32,133,160,5760,8192,8193,8194,8195,8196,8197,8198,8199,8200,8201,8202,8232,8233,8239,8287,12288].contains
    c.toNat

/-- `text.strip()`. -/
def stripped (text : String) : String := String.ofList (strip isSpace text.toList)

/-- `text.strip(chars)`. -/
def stripChars (chars : List Char) (text : String) : String := String.ofList (strip (· ∈ chars) text.toList)

/-- `part in text`. -/
def contains (text part : String) : Bool := part.toList <:+: text.toList

theorem contains_self (text : String) : contains text text = true := decide_eq_true List.infix_rfl

def mentionsAny (text : String) (words : List String) : Bool := words.any (contains text)

/-- A text that counts as true. -/
def present (text : Option String) : Bool := text.any (· ≠ "")

/-- The pieces between newlines, the one after the last included. -/
def lines : List Char → List (List Char)
  | [] => [[]]
  | c::rest =>
    if c = '\n' then []::lines rest
    else
      match lines rest with
      | [] => [[c]]
      | line::more => (c::line)::more

theorem strip_closed {isSpace : Char → Bool} {first last : Char} (before : isSpace first = false) (after : isSpace last = false)
    (text : List Char) : strip isSpace (first::text ++ [last]) = first::text ++ [last] := by
  unfold strip
  rw [List.cons_append,List.dropWhile_cons_of_neg (by simp [before]),← List.cons_append,List.reverse_append]
  rw [List.reverse_singleton,List.singleton_append,List.dropWhile_cons_of_neg (by simp [after])]
  simp

theorem strip_strip (isSpace : Char → Bool) (text : List Char) : strip isSpace (strip isSpace text) = strip isSpace text := by
  change ((List.rdropWhile isSpace (text.dropWhile isSpace)).dropWhile isSpace).rdropWhile isSpace = List.rdropWhile isSpace (text.dropWhile isSpace)
  have left : (List.rdropWhile isSpace (text.dropWhile isSpace)).dropWhile isSpace = List.rdropWhile isSpace (text.dropWhile isSpace) := by
    apply List.dropWhile_eq_self_iff.mpr
    intro some_left
    have start := (List.rdropWhile_prefix isSpace (text.dropWhile isSpace)).getElem some_left
    rw [start]
    exact List.dropWhile_get_zero_not isSpace text _
  rw [left,List.rdropWhile_idempotent]

theorem lines_append {line : List Char} (plain : '\n' ∉ line) (rest : List Char) : lines (line ++ '\n' :: rest) = line::lines rest := by
  induction line with
  | nil => simp [lines]
  | cons c line ih =>
    rw [List.mem_cons,not_or] at plain
    rw [List.cons_append,lines,if_neg (Ne.symm plain.1),ih plain.2]

/-- A character before the words of the rest: apart from the first of them, or in it. -/
def extend (apart : Bool) (c : Char) : List (List Char) → List (List Char)
  | [] => [[c]]
  | word::more => if apart then [c]::word::more else (c::word)::more

/-- The pieces between white space, none of them empty. -/
def words (isSpace : Char → Bool) : List Char → List (List Char)
  | [] => []
  | c::rest => if isSpace c then words isSpace rest else extend (rest.head?.all isSpace) c (words isSpace rest)

/-- The words of a text with one blank between them. -/
def collapse (isSpace : Char → Bool) (text : List Char) : List Char := [' '].intercalate (words isSpace text)

def slice (n : Nat) (s : String) : String := String.ofList (s.toList.take n)

theorem slice_length (n : Nat) (s : String) : (slice n s).length ≤ n := by
  rw [slice,String.length_ofList]
  exact List.length_take_le n _

theorem slice_le {m n : Nat} (within : m < n) (s : String) : (slice n s).length ≤ m ↔ s.length ≤ m := by
  rw [slice,String.length_ofList,List.length_take,String.length_toList]
  omega

section Words

variable {isSpace : Char → Bool}

theorem words_space {c : Char} (space : isSpace c) (rest : List Char) : words isSpace (c::rest) = words isSpace rest :=
  if_pos space

theorem words_letter {c : Char} (plain : isSpace c = false) (rest : List Char) :
    words isSpace (c::rest) = extend (rest.head?.all isSpace) c (words isSpace rest) :=
  if_neg (by simp [plain])

theorem words_last {c : Char} (plain : isSpace c = false) : words isSpace [c] = [[c]] := words_letter plain []

theorem words_before_space {c d : Char} (plain : isSpace c = false) (space : isSpace d) (rest : List Char) :
    words isSpace (c::d::rest) = [c]::words isSpace rest := by
  rw [words_letter plain,words_space space]
  cases words isSpace rest with
  | nil => rfl
  | cons word more => exact if_pos space

theorem words_start {d : Char} (plain : isSpace d = false) (rest : List Char) :
    ∃ word more, words isSpace (d::rest) = (d::word)::more := by
  rw [words_letter plain]
  cases words isSpace rest with
  | nil => exact ⟨[],[],rfl⟩
  | cons word more =>
    cases apart : rest.head?.all isSpace with
    | true => exact ⟨[],word::more,rfl⟩
    | false => exact ⟨word,more,rfl⟩

theorem words_within {c d : Char} (plain : isSpace c = false) (plain' : isSpace d = false) {rest word : List Char}
    {more : List (List Char)} (tail : words isSpace (d::rest) = word::more) : words isSpace (c::d::rest) = (c::word)::more := by
  rw [words_letter plain,tail]
  exact if_neg (by simp [plain'])

theorem words_plain (text : List Char) : ∀ word ∈ words isSpace text, word ≠ [] ∧ ∀ c ∈ word, isSpace c = false := by
  induction text with
  | nil => simp [words]
  | cons c rest ih =>
    cases plain : isSpace c with
    | true => rwa [words_space plain]
    | false =>
      have single : [c] ≠ [] ∧ ∀ d ∈ [c], isSpace d = false := ⟨List.cons_ne_nil _ _,by simpa using plain⟩
      cases rest with
      | nil => rw [words_last plain]; simpa using plain
      | cons d rest =>
        cases inner : isSpace d with
        | true =>
          rw [words_before_space plain inner]
          rw [words_space inner] at ih
          exact List.forall_mem_cons.mpr ⟨single,ih⟩
        | false =>
          obtain ⟨word,more,tail⟩ := words_start inner rest
          rw [words_within plain inner tail]
          rw [tail] at ih
          obtain ⟨first,others⟩ := List.forall_mem_cons.mp ih
          exact List.forall_mem_cons.mpr ⟨⟨List.cons_ne_nil _ _,List.forall_mem_cons.mpr ⟨plain,first.2⟩⟩,others⟩

theorem words_of_word {word : List Char} (some_text : word ≠ []) (plain : ∀ c ∈ word, isSpace c = false) :
    words isSpace word = [word] := by
  induction word with
  | nil => exact absurd rfl some_text
  | cons c rest ih =>
    obtain ⟨head,tail⟩ := List.forall_mem_cons.mp plain
    cases rest with
    | nil => exact words_last head
    | cons d rest => exact words_within head (tail d List.mem_cons_self) (ih (List.cons_ne_nil _ _) tail)

theorem words_append {word : List Char} (some_text : word ≠ []) (plain : ∀ c ∈ word, isSpace c = false) {space : Char}
    (blank : isSpace space) (rest : List Char) : words isSpace (word ++ space::rest) = word::words isSpace rest := by
  induction word with
  | nil => exact absurd rfl some_text
  | cons c tail ih =>
    obtain ⟨head,others⟩ := List.forall_mem_cons.mp plain
    cases tail with
    | nil => exact words_before_space head blank rest
    | cons d tail => exact words_within head (others d List.mem_cons_self) (ih (List.cons_ne_nil _ _) others)

theorem words_intercalate (blank : isSpace ' ') {pieces : List (List Char)}
    (plain : ∀ word ∈ pieces, word ≠ [] ∧ ∀ c ∈ word, isSpace c = false) : words isSpace ([' '].intercalate pieces) = pieces := by
  induction pieces with
  | nil => rfl
  | cons word more ih =>
    obtain ⟨⟨some_text,letters⟩,others⟩ := List.forall_mem_cons.mp plain
    cases more with
    | nil => simpa using words_of_word some_text letters
    | cons next more =>
      rw [List.intercalate_cons_cons,List.append_assoc,List.singleton_append,words_append some_text letters blank,ih others]

theorem collapse_collapse (blank : isSpace ' ') (text : List Char) : collapse isSpace (collapse isSpace text) = collapse isSpace text := by
  rw [collapse,collapse,words_intercalate blank (words_plain text)]

theorem extend_flatten (apart : Bool) (c : Char) (pieces : List (List Char)) : (extend apart c pieces).flatten = c::pieces.flatten := by
  cases pieces with
  | nil => rfl
  | cons word more => cases apart <;> rfl

theorem words_flatten (text : List Char) : (words isSpace text).flatten = text.filter (fun c => !isSpace c) := by
  induction text with
  | nil => rfl
  | cons c rest ih =>
    cases plain : isSpace c with
    | true => rw [words_space plain,ih,List.filter_cons_of_neg (by simp [plain])]
    | false => rw [words_letter plain,extend_flatten,ih,List.filter_cons_of_pos (by simp [plain])]

theorem filter_intercalate (blank : isSpace ' ') (pieces : List (List Char)) :
    ([' '].intercalate pieces).filter (fun c => !isSpace c) = pieces.flatten.filter (fun c => !isSpace c) := by
  induction pieces with
  | nil => rfl
  | cons word more ih =>
    cases more with
    | nil => simp
    | cons next more =>
      rw [List.intercalate_cons_cons,List.filter_append,List.filter_append,ih,List.flatten_cons,List.filter_append]
      simp [blank]

theorem collapse_filter (blank : isSpace ' ') (text : List Char) :
    (collapse isSpace text).filter (fun c => !isSpace c) = text.filter (fun c => !isSpace c) := by
  rw [collapse,filter_intercalate blank,words_flatten,List.filter_filter]
  simp

theorem collapse_blank {text : List Char} (blank : ∀ c ∈ text, isSpace c) : collapse isSpace text = [] := by
  suffices empty : words isSpace text = [] by rw [collapse,empty]; rfl
  induction text with
  | nil => rfl
  | cons c rest ih =>
    obtain ⟨first,others⟩ := List.forall_mem_cons.mp blank
    rw [words_space first,ih others]

/-- The room the words take with a blank after each. -/
def room (pieces : List (List Char)) : Nat := (pieces.map (fun word => word.length + 1)).sum

@[simp] theorem room_cons (word : List Char) (more : List (List Char)) : room (word::more) = word.length + 1 + room more := by
  simp [room]

/-- One blank more than the text is room enough, and a text that starts with a blank has it to spare. -/
theorem words_room (isSpace : Char → Bool) (text : List Char) :
    room (words isSpace text) ≤ text.length + 1 ∧ (text.head?.any isSpace → room (words isSpace text) ≤ text.length) := by
  induction text with
  | nil => exact ⟨Nat.zero_le _,fun _ => Nat.zero_le _⟩
  | cons c rest ih =>
    cases plain : isSpace c with
    | true =>
      rw [words_space plain]
      exact ⟨Nat.le_succ_of_le ih.1,fun _ => ih.1⟩
    | false =>
      refine ⟨?_,by simp [plain]⟩
      cases rest with
      | nil => simp [words_last plain,room]
      | cons d rest =>
        cases inner : isSpace d with
        | true =>
          have spare := ih.2 (by simpa using inner)
          rw [words_space inner] at spare
          rw [words_before_space plain inner,room_cons]
          simp only [List.length_cons,List.length_nil] at spare ⊢
          omega
        | false =>
          obtain ⟨word,more,tail⟩ := words_start inner rest
          rw [tail] at ih
          rw [words_within plain inner tail]
          simp only [room_cons,List.length_cons] at ih ⊢
          omega

theorem intercalate_length (word : List Char) (more : List (List Char)) :
    ([' '].intercalate (word::more)).length + 1 = room (word::more) := by
  induction more generalizing word with
  | nil => simp [room]
  | cons next more ih =>
    rw [List.intercalate_cons_cons,room_cons,← ih next]
    simp only [List.length_append,List.length_singleton]
    omega

theorem collapse_length (text : List Char) : (collapse isSpace text).length ≤ text.length := by
  have fits := (words_room isSpace text).1
  rw [collapse]
  cases pieces : words isSpace text with
  | nil => exact Nat.zero_le _
  | cons word more =>
    rw [pieces,← intercalate_length] at fits
    exact Nat.le_of_succ_le_succ fits

end Words

end Suixinji.Text
