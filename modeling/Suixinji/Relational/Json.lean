import Mathlib.Logic.Basic

/-! JSON texts of strings, nulls and objects, as a dump without ASCII escaping
writes them: what is read back, and why a text is one line. -/
namespace Suixinji.Json

inductive Value where
  | null
  | text (s : String)
  | object (fields : List (String × Value))

def hexDigit (n : Nat) : Char := if n < 10 then Char.ofNat (48 + n) else Char.ofNat (87 + n)

def escape (c : Char) : List Char :=
  if c = '"' then ['\\','"']
  else if c = '\\' then ['\\','\\']
  else if c = '\n' then ['\\','n']
  else if c = '\r' then ['\\','r']
  else if c = '\t' then ['\\','t']
  else if c = Char.ofNat 8 then ['\\','b']
  else if c = Char.ofNat 12 then ['\\','f']
  else if c.toNat < 32 then ['\\','u','0','0',hexDigit (c.toNat / 16),hexDigit (c.toNat % 16)]
  else [c]

def quoted (s : String) : List Char := '"' :: s.toList.flatMap escape ++ ['"']

mutual

def print : Value → List Char
  | .null => "null".toList
  | .text s => quoted s
  | .object fields => '{' :: printFields fields ++ ['}']

def printFields : List (String × Value) → List Char
  | [] => []
  | [(k,v)] => quoted k ++ [':',' '] ++ print v
  | (k,v)::(k',v')::rest => quoted k ++ [':',' '] ++ print v ++ [',',' '] ++ printFields ((k',v')::rest)

end

def hexValue (c : Char) : Option Nat :=
  if '0' ≤ c ∧ c ≤ '9' then some (c.toNat - 48)
  else if 'a' ≤ c ∧ c ≤ 'f' then some (c.toNat - 87)
  else none

def unescape : Char → Option Char
  | '"' => some '"'
  | '\\' => some '\\'
  | '/' => some '/'
  | 'n' => some '\n'
  | 'r' => some '\r'
  | 't' => some '\t'
  | 'b' => some (Char.ofNat 8)
  | 'f' => some (Char.ofNat 12)
  | _ => none

/-- A string after its opening quote, and what follows its closing one. -/
def parseText : List Char → Option (List Char × List Char)
  | [] => none
  | '"' :: rest => some ([],rest)
  | '\\' :: 'u' :: a::b::c::d::rest => do
    let code := ((← hexValue a) * 16 + (← hexValue b)) * 256 + ((← hexValue c) * 16 + (← hexValue d))
    let (text,rest) ← parseText rest
    some (Char.ofNat code::text,rest)
  | '\\' :: c::rest => do
    let c ← unescape c
    let (text,rest) ← parseText rest
    some (c::text,rest)
  | c::rest =>
    if c.toNat < 32 then none
    else do
      let (text,rest) ← parseText rest
      some (c::text,rest)

mutual

def parse : Nat → List Char → Option (Value × List Char)
  | _+1,'n' :: 'u' :: 'l' :: 'l' :: rest => some (.null,rest)
  | _+1,'"' :: rest => do
    let (text,rest) ← parseText rest
    some (.text (String.ofList text),rest)
  | _+1,'{' :: '}' :: rest => some (.object [],rest)
  | n+1,'{' :: rest => do
    let (fields,rest) ← parseFields n rest
    some (.object fields,rest)
  | _,_ => none

def parseFields : Nat → List Char → Option (List (String × Value) × List Char)
  | n+1,'"' :: rest => do
    let (key,rest) ← parseText rest
    match rest with
    | ':' :: ' ' :: rest => do
      let (value,rest) ← parse n rest
      match rest with
      | '}' :: rest => some ([(String.ofList key,value)],rest)
      | ',' :: ' ' :: rest => do
        let (fields,rest) ← parseFields n rest
        some ((String.ofList key,value)::fields,rest)
      | _ => none
    | _ => none
  | _,_ => none

end

def loads (text : List Char) : Option Value :=
  match parse text.length text with
  | some (value,[]) => some value
  | _ => none

theorem hexValue_hexDigit : ∀ n < 16, hexValue (hexDigit n) = some n := by decide

theorem parseText_plain {c : Char} {rest : List Char} (quote : c ≠ '"') (slash : c ≠ '\\') (printable : ¬c.toNat < 32) :
    parseText (c::rest) = (parseText rest).map (fun p => (c::p.1,p.2)) := by
  conv =>
    lhs
    unfold parseText
  split
  · contradiction
  · rename_i same
    cases same
    contradiction
  · rename_i same
    cases same
    contradiction
  · rename_i same
    cases same
    contradiction
  · rename_i same
    cases same
    rw [if_neg printable]
    cases parseText rest <;> rfl

/-- An escaped character is read back as itself. -/
theorem parseText_escape (c : Char) (rest : List Char) :
    parseText (escape c ++ rest) = (parseText rest).map (fun p => (c::p.1,p.2)) := by
  have named : ∀ c ∈ ['"','\\','\n','\r','\t',Char.ofNat 8,Char.ofNat 12], ∃ name, escape c = ['\\',name] ∧ name ≠ 'u' ∧
      unescape name = some c := by
    intro c inside
    simp only [List.mem_cons,List.not_mem_nil,or_false] at inside
    rcases inside with rfl | rfl | rfl | rfl | rfl | rfl | rfl <;> exact ⟨_,rfl,by decide,rfl⟩
  by_cases special : c ∈ ['"','\\','\n','\r','\t',Char.ofNat 8,Char.ofNat 12]
  · obtain ⟨name,same,apart,back⟩ := named c special
    rw [same]
    simp [parseText,back,apart]
    cases parseText rest <;> rfl
  simp only [List.mem_cons,List.not_mem_nil,or_false,not_or] at special
  obtain ⟨quote,slash,line,ret,tab,eight,twelve⟩ := special
  by_cases control : c.toNat < 32
  · have coded : escape c = ['\\','u','0','0',hexDigit (c.toNat / 16),hexDigit (c.toNat % 16)] := by
      simp only [escape,quote,slash,line,ret,tab,eight,twelve,control,if_true,if_false]
    have zero : hexValue '0' = some 0 := by decide
    have high := hexValue_hexDigit (c.toNat / 16) (by omega)
    have low := hexValue_hexDigit (c.toNat % 16) (by omega)
    have code : (0 * 16 + 0) * 256 + (c.toNat / 16 * 16 + c.toNat % 16) = c.toNat := by omega
    rw [coded]
    simp only [List.cons_append,List.nil_append,parseText,zero,high,low,Option.bind_eq_bind,Option.bind_some,code,Char.ofNat_toNat]
    cases parseText rest <;> rfl
  · have plain : escape c = [c] := by
      simp only [escape,quote,slash,line,ret,tab,eight,twelve,control,if_false]
    rw [plain]
    exact parseText_plain quote slash control

theorem parseText_quoted (s : List Char) (rest : List Char) : parseText (s.flatMap escape ++ '"' :: rest) = some (s,rest) := by
  induction s with
  | nil => rfl
  | cons c s ih =>
    rw [List.flatMap_cons,List.append_assoc,parseText_escape,ih]
    rfl

theorem parseText_toList (s : String) (rest : List Char) :
    parseText (s.toList.flatMap escape ++ '"' :: rest) = some (s.toList,rest) := parseText_quoted s.toList rest

theorem printFields_cons (key : String) (value : Value) (rest : List (String × Value)) :
    ∃ tail, printFields ((key,value)::rest) = '"' :: tail := by
  cases rest <;> exact ⟨_,rfl⟩

mutual

/-- What was printed is read back, with what follows left over. -/
theorem parse_print (value : Value) (n : Nat) (rest : List Char) (fuel : (print value).length ≤ n) :
    parse n (print value ++ rest) = some (value,rest) := by
  match value with
  | .null =>
    obtain ⟨n,rfl⟩ : ∃ m, n = m + 1 := ⟨n - 1,by simp [print] at fuel; omega⟩
    rfl
  | .text s =>
    obtain ⟨n,rfl⟩ : ∃ m, n = m + 1 := ⟨n - 1,by simp [print,quoted] at fuel; omega⟩
    simp only [print,quoted,List.cons_append,List.append_assoc,List.nil_append,parse,parseText_toList,Option.bind_eq_bind,
      Option.bind_some,String.ofList_toList]
  | .object [] =>
    obtain ⟨n,rfl⟩ : ∃ m, n = m + 1 := ⟨n - 1,by simp [print] at fuel; omega⟩
    rfl
  | .object ((key,value)::fields) =>
    obtain ⟨n,rfl⟩ : ∃ m, n = m + 1 := ⟨n - 1,by simp [print] at fuel; omega⟩
    have inner := parseFields_print key value fields n rest (by simp [print] at fuel; omega)
    obtain ⟨tail,starts⟩ := printFields_cons key value fields
    rw [starts] at inner
    simp only [print,starts,List.cons_append,List.append_assoc,List.nil_append] at inner ⊢
    have opened : parse (n+1) ('{' :: '"' :: (tail ++ '}' :: rest)) =
        (parseFields n ('"' :: (tail ++ '}' :: rest))).bind (fun p => some (.object p.1,p.2)) := rfl
    rw [opened,inner]
    rfl
termination_by sizeOf value

theorem parseFields_print (key : String) (value : Value) (fields : List (String × Value)) (n : Nat) (rest : List Char)
    (fuel : (printFields ((key,value)::fields)).length ≤ n) :
    parseFields n (printFields ((key,value)::fields) ++ '}' :: rest) = some ((key,value)::fields,rest) := by
  match fields with
  | [] =>
    obtain ⟨n,rfl⟩ : ∃ m, n = m + 1 := ⟨n - 1,by simp [printFields,quoted] at fuel; omega⟩
    have inner := parse_print value n ('}' :: rest) (by simp [printFields,quoted] at fuel; omega)
    simp only [printFields,quoted,List.cons_append,List.append_assoc,List.nil_append,parseFields,parseText_toList,
      Option.bind_eq_bind,Option.bind_some,inner,String.ofList_toList]
  | (key',value')::fields =>
    obtain ⟨n,rfl⟩ : ∃ m, n = m + 1 := ⟨n - 1,by simp [printFields,quoted] at fuel; omega⟩
    have inner := parse_print value n (',' :: ' ' :: (printFields ((key',value')::fields) ++ '}' :: rest))
      (by simp [printFields,quoted] at fuel; omega)
    have later := parseFields_print key' value' fields n rest (by
      simp only [printFields,quoted,List.length_append,List.length_cons] at fuel
      omega)
    simp only [printFields,quoted,List.cons_append,List.append_assoc,List.nil_append,parseFields,parseText_toList,
      Option.bind_eq_bind,Option.bind_some,inner,later,String.ofList_toList]
termination_by sizeOf value + sizeOf fields

end

theorem loads_print (value : Value) : loads (print value) = some value := by
  have parsed := parse_print value (print value).length [] (Nat.le_refl _)
  rw [List.append_nil] at parsed
  unfold loads
  rw [parsed]

theorem plain_hexDigit : ∀ n < 16, hexDigit n ≠ '\n' := by decide

theorem plain_escape (c : Char) : '\n' ∉ escape c := by
  have high := plain_hexDigit (c.toNat / 16)
  have low := plain_hexDigit (c.toNat % 16) (by omega)
  unfold escape
  repeat' split
  all_goals try decide
  · rename_i control
    simp [high (by omega) |>.symm,low.symm]
  · rename_i line _ _ _ _ _
    simpa using Ne.symm line

theorem plain_quoted (s : String) : '\n' ∉ quoted s := by
  simp [quoted,plain_escape]

mutual

theorem plain_print (value : Value) : '\n' ∉ print value := by
  match value with
  | .null => decide
  | .text s => exact plain_quoted s
  | .object fields => simp [print,plain_printFields fields]
termination_by sizeOf value

theorem plain_printFields (fields : List (String × Value)) : '\n' ∉ printFields fields := by
  match fields with
  | [] => decide
  | [(key,value)] => simp [printFields,plain_quoted,plain_print value]
  | (key,value)::(key',value')::rest =>
    simp [printFields,plain_quoted,plain_print value,plain_printFields ((key',value')::rest)]
termination_by sizeOf fields

end

end Suixinji.Json
