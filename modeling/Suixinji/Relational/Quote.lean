import Mathlib.Logic.Function.Basic
import Mathlib.Order.Basic

/-! Percent encoding of the UTF-8 bytes of a text, and texts joined by a separator: the encoding is
a prefix code, so both can be read back. -/
namespace Suixinji.Quote

variable {α β : Type}

/-- No code is the start of another one, and none is empty. -/
structure PrefixCode (code : α → List β) : Prop where
  some_one : ∀ a, code a ≠ []
  apart : ∀ a b xs ys, code a ++ xs = code b ++ ys → a = b

theorem PrefixCode.injective {code : α → List β} (prefix_ : PrefixCode code) : Function.Injective (fun as : List α => as.flatMap code) := by
  intro as bs same
  induction as generalizing bs with
  | nil =>
    cases bs with
    | nil => rfl
    | cons b bs =>
      dsimp only at same
      rw [List.flatMap_nil,List.flatMap_cons] at same
      exact absurd (List.append_eq_nil_iff.mp same.symm).1 (prefix_.some_one b)
  | cons a as ih =>
    cases bs with
    | nil =>
      dsimp only at same
      rw [List.flatMap_nil,List.flatMap_cons] at same
      exact absurd (List.append_eq_nil_iff.mp same).1 (prefix_.some_one a)
    | cons b bs =>
      dsimp only at same
      rw [List.flatMap_cons,List.flatMap_cons] at same
      obtain rfl := prefix_.apart a b _ _ same
      rw [ih (List.append_cancel_left same)]

/-- The bytes that `quote` leaves with `safe="-_."`: letters, digits and four marks. -/
def safe (b : UInt8) : Bool :=
  let c := Char.ofNat b.toNat
  c.isAlphanum || c ∈ ['_','.','-','~']

def hexUpper (n : Nat) : Char := if n < 10 then Char.ofNat (48 + n) else Char.ofNat (55 + n)

def encode (b : UInt8) : List Char :=
  if safe b then [Char.ofNat b.toNat] else ['%',hexUpper (b.toNat / 16),hexUpper (b.toNat % 16)]

/-- `urllib.parse.quote(s, safe="-_.")`. -/
def quote (s : String) : String := String.ofList (s.toByteArray.data.toList.flatMap encode)

theorem toNat_ofNat : ∀ n < 256, (Char.ofNat n).toNat = n := by decide +kernel

theorem ofNat_injective {m n : Nat} (hm : m < 256) (hn : n < 256) (same : Char.ofNat m = Char.ofNat n) : m = n := by
  rw [← toNat_ofNat m hm,← toNat_ofNat n hn,same]

theorem hexUpper_injective : ∀ m < 16, ∀ n < 16, hexUpper m = hexUpper n → m = n := by decide

theorem encode_prefixCode : PrefixCode encode where
  some_one b := by
    unfold encode
    split <;> exact List.cons_ne_nil _ _
  apart a b xs ys same := by
    have smallA := a.toNat_lt
    have smallB := b.toNat_lt
    have marked {c : UInt8} (plain : safe c = true) : Char.ofNat c.toNat ≠ '%' := by
      intro percent
      unfold safe at plain
      rw [percent] at plain
      exact absurd plain (by decide)
    unfold encode at same
    apply UInt8.toNat_inj.mp
    by_cases plainA : safe a = true <;> by_cases plainB : safe b = true
    · rw [if_pos plainA,if_pos plainB] at same
      exact ofNat_injective smallA smallB (List.cons.inj same).1
    · rw [if_pos plainA,if_neg plainB] at same
      exact absurd (List.cons.inj same).1 (marked plainA)
    · rw [if_neg plainA,if_pos plainB] at same
      exact absurd (List.cons.inj same).1.symm (marked plainB)
    · rw [if_neg plainA,if_neg plainB] at same
      obtain ⟨_,rest⟩ := List.cons.inj same
      obtain ⟨high,rest⟩ := List.cons.inj rest
      obtain ⟨low,_⟩ := List.cons.inj rest
      have highs := hexUpper_injective _ (by omega) _ (by omega) high
      have lows := hexUpper_injective _ (by omega) _ (by omega) low
      omega

theorem quote_injective : Function.Injective quote := by
  intro s t same
  have codes := String.ofList_injective same
  have bytes := encode_prefixCode.injective codes
  apply String.toByteArray_inj.mp
  exact ByteArray.ext (Array.toList_inj.mp bytes)

theorem hexUpper_alphanum : ∀ n < 16, (hexUpper n).isAlphanum = true := by decide

theorem mem_quote {s : String} {c : Char} (inside : c ∈ (quote s).toList) : c.isAlphanum = true ∨ c ∈ ['_','.','-','~','%'] := by
  rw [quote,String.toList_ofList] at inside
  obtain ⟨b,_,member⟩ := List.mem_flatMap.mp inside
  have small := b.toNat_lt
  unfold encode at member
  split at member
  · rename_i plain
    rw [List.mem_singleton.mp member]
    unfold safe at plain
    rcases Bool.or_eq_true_iff.mp plain with letter | mark
    · exact .inl letter
    · rw [decide_eq_true_iff] at mark
      exact .inr (List.mem_append_left ['%'] mark)
  · simp only [List.mem_cons,List.not_mem_nil,or_false] at member
    rcases member with rfl | rfl | rfl
    · exact .inr (by decide)
    · exact .inl (hexUpper_alphanum _ (by omega))
    · exact .inl (hexUpper_alphanum _ (by omega))

/-- Texts without the separator are read back from what they are joined to. -/
theorem join_injective [DecidableEq α] {sep : α} {as bs : List (List α)} (cleanA : ∀ a ∈ as, sep ∉ a) (cleanB : ∀ b ∈ bs, sep ∉ b)
    (some_a : as ≠ []) (some_b : bs ≠ []) (same : [sep].intercalate as = [sep].intercalate bs) : as = bs := by
  rw [← List.splitOn_intercalate sep cleanA some_a,same,List.splitOn_intercalate sep cleanB some_b]

/-- The number that decimal digits spell. -/
def natOf (digits : List Char) : Nat := Nat.ofDigitChars 10 digits 0

theorem natOf_repr (n : Nat) : natOf n.repr.toList = n := by
  rw [natOf,Nat.toList_repr]
  exact Nat.ofDigitChars_ten_toDigits

def intOf (text : String) : Int :=
  match text.toList with
  | '-'::digits => -(natOf digits)
  | digits => natOf digits

theorem intOf_repr : Function.LeftInverse intOf Int.repr := by
  intro a
  rw [Int.repr_eq_if]
  split
  · rename_i positive
    have unsigned : '-' ∉ a.toNat.repr.toList := by
      rw [Nat.toList_repr]
      exact fun inside => absurd (Nat.isDigit_of_mem_toDigits (by decide) (by decide) inside) (by decide)
    unfold intOf
    split
    · rename_i digits same
      exact absurd List.mem_cons_self (same ▸ unsigned)
    · rw [natOf_repr,Int.toNat_of_nonneg positive]
  · rename_i negative
    have sign : intOf ("-" ++ (-a).toNat.repr) = -(natOf (-a).toNat.repr.toList) := by
      unfold intOf
      rw [String.toList_append]
      rfl
    rw [sign,natOf_repr]
    omega

end Suixinji.Quote
