import Suixinji.Relational.Packing

/-! Long replies cut into messages (core/text_chunks.py). -/
namespace Suixinji.Deliveries

open Packing

structure Cut where
  chunks : List String := []
  pending : List Char := []
  size : Nat := 0

def Cut.step (maxBytes : Nat) (cut : Cut) (char : Char) : Cut :=
  let width := char.utf8Size
  let cut := if cut.pending ≠ [] ∧ maxBytes < cut.size + width then {chunks := cut.chunks ++ [String.ofList cut.pending]} else cut
  { cut with pending := cut.pending ++ [char],size := cut.size + width }

def Cut.finish (cut : Cut) : List String :=
  if cut.pending ≠ [] ∨ cut.chunks = [] then cut.chunks ++ [String.ofList cut.pending] else cut.chunks

def textChunks (text : String) (maxBytes : Nat := 6000) : List String := (text.toList.foldl (Cut.step maxBytes) {}).finish

/-- What a message may be: a text of so many bytes, or one character. -/
def Sendable (maxBytes : Nat) (chunk : String) : Prop := chunk.utf8ByteSize ≤ maxBytes ∨ ∃ c, chunk = String.singleton c

structure Cut.Sound (cut : Cut) : Prop where
  sized : cut.size = total Char.utf8Size cut.pending
  begun : cut.pending = [] → cut.chunks = []

variable {cut : Cut} {maxBytes : Nat}

theorem Cut.step_full {char : Char} (full : cut.pending ≠ [] ∧ maxBytes < cut.size + char.utf8Size) :
    cut.step maxBytes char = {chunks := cut.chunks ++ [String.ofList cut.pending],pending := [char],size := char.utf8Size} := by
  simp [Cut.step,if_pos full]

theorem Cut.step_room {char : Char} (room : ¬(cut.pending ≠ [] ∧ maxBytes < cut.size + char.utf8Size)) :
    cut.step maxBytes char = {cut with pending := cut.pending ++ [char],size := cut.size + char.utf8Size} := by
  simp [Cut.step,if_neg room]

theorem Cut.Sound.step (sound : cut.Sound) (char : Char) : (cut.step maxBytes char).Sound := by
  by_cases full : cut.pending ≠ [] ∧ maxBytes < cut.size + char.utf8Size
  · rw [Cut.step_full full]
    exact ⟨(@total_singleton Char Char.utf8Size char).symm,fun none_ => absurd none_ (List.cons_ne_nil _ _)⟩
  · rw [Cut.step_room full]
    refine ⟨?_,fun none_ => absurd none_ (List.append_ne_nil_of_right_ne_nil _ (List.cons_ne_nil _ _))⟩
    rw [total_append,total_singleton,sound.sized]

theorem finish_foldl (sound : cut.Sound) (rest : List Char) : (rest.foldl (Cut.step maxBytes) cut).finish =
    cut.chunks ++ (pack Char.utf8Size maxBytes cut.pending rest).map String.ofList := by
  induction rest generalizing cut with
  | nil =>
    have last : cut.pending ≠ [] ∨ cut.chunks = [] := (Classical.em (cut.pending = [])).symm.imp id sound.begun
    rw [List.foldl_nil,Cut.finish,if_pos last]
    rfl
  | cons char rest ih =>
    rw [List.foldl_cons,ih (sound.step char),pack,← sound.sized]
    by_cases full : cut.pending ≠ [] ∧ maxBytes < cut.size + char.utf8Size
    · rw [Cut.step_full full,if_pos full,List.map_cons,List.append_assoc]
      rfl
    · rw [Cut.step_room full,if_neg full]

theorem textChunks_eq (text : String) (maxBytes : Nat) :
    textChunks text maxBytes = (pack Char.utf8Size maxBytes [] text.toList).map String.ofList :=
  finish_foldl ⟨rfl,fun _ => rfl⟩ text.toList

theorem utf8ByteSize_ofList (piece : List Char) : (String.ofList piece).utf8ByteSize = total Char.utf8Size piece := by
  induction piece with
  | nil => rfl
  | cons c piece ih =>
    rw [← List.singleton_append,String.ofList_append,String.utf8ByteSize_append,ih,total_append,total_singleton]
    exact congrArg (· + _) String.utf8ByteSize_singleton

theorem sendable_ofList {piece : List Char} : Sendable maxBytes (String.ofList piece) ↔ Fits Char.utf8Size maxBytes piece := by
  have single : ∀ c, String.ofList piece = String.singleton c ↔ piece = [c] := by
    intro c
    rw [← String.toList_inj,String.toList_ofList,String.toList_singleton]
  rw [Sendable,Fits,utf8ByteSize_ofList]
  exact or_congr_right (exists_congr single)

theorem text_chunks_fewest (text : String) (maxBytes : Nat) :
    String.join (textChunks text maxBytes) = text ∧
    (∀ chunk ∈ textChunks text maxBytes, Sendable maxBytes chunk) ∧
    (text ≠ "" → ∀ chunk ∈ textChunks text maxBytes, chunk ≠ "") ∧
    ∀ parts : List String, String.join parts = text → (∀ part ∈ parts, Sendable maxBytes part) →
      (textChunks text maxBytes).length ≤ max 1 parts.length := by
  rw [textChunks_eq]
  refine ⟨?_,?_,?_,?_⟩
  · rw [← String.toList_inj,String.toList_join,List.flatMap_map]
    simp only [String.toList_ofList,List.flatMap_id']
    exact pack_flatten [] text.toList
  · intro chunk member
    obtain ⟨piece,inside,rfl⟩ := List.mem_map.mp member
    exact sendable_ofList.mpr (pack_fits (.inl (Nat.zero_le _)) piece inside)
  · intro some_text chunk member
    obtain ⟨piece,inside,rfl⟩ := List.mem_map.mp member
    have letters : text.toList ≠ [] := fun none_ => some_text (String.toList_eq_nil_iff.mp none_)
    exact fun none_ => pack_begun (.inr letters) piece inside (String.ofList_eq_empty_iff.mp none_)
  · intro parts whole fit
    rw [List.length_map]
    cases letters : text.toList with
    | nil => exact le_max_left _ _
    | cons c rest =>
      have first : pack Char.utf8Size maxBytes [] (c::rest) = pack Char.utf8Size maxBytes [c] rest := by
        rw [pack,if_neg (fun h => h.1 rfl)]
        rfl
      have cut : (parts.map String.toList).flatten = [] ++ [c] ++ rest := by
        rw [← List.flatMap_def,← String.toList_join,whole,letters]
        rfl
      have pieces : ∀ piece ∈ parts.map String.toList, Fits Char.utf8Size maxBytes piece := by
        intro piece member
        obtain ⟨part,inside,rfl⟩ := List.mem_map.mp member
        rw [← sendable_ofList,String.ofList_toList]
        exact fit part inside
      have fewest := pack_fewest (List.cons_ne_nil c []) [] pieces cut
      rw [List.length_map] at fewest
      rw [first]
      exact fewest.trans (le_max_right _ _)

end Suixinji.Deliveries
