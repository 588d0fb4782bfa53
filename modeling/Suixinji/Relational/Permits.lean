import Mathlib.Data.List.Basic

/-! Resources that give out permits, and the clients that hold them. -/
namespace Suixinji.Permits

variable {γ ι : Type}

/-- Of every resource the free permits and the held ones are all there are. -/
def Balanced (holds : γ → ι → Bool) (capacity free : ι → Nat) (clients : List γ) : Prop :=
  ∀ r, free r + clients.countP (fun c => holds c r) = capacity r

variable {holds : γ → ι → Bool} {capacity free free' : ι → Nat} {clients : List γ} {c c' : γ} {i : Nat}

theorem Balanced.nil : Balanced holds capacity capacity [] := fun _ => rfl

theorem Balanced.push (balanced : Balanced holds capacity free clients) (taken : ∀ r, free' r + (holds c r).toNat = free r) :
    Balanced holds capacity free' (clients ++ [c]) := by
  intro r
  have before := balanced r
  have here := taken r
  rw [List.countP_append,List.countP_singleton]
  cases held : holds c r <;> simp only [held,Bool.toNat_true,Bool.toNat_false,if_true,Bool.false_eq_true,if_false] at here ⊢ <;> omega

theorem countP_split (c' : γ) (p : γ → Bool) (there : clients[i]? = some c) :
    (clients.set i c').countP p + (p c).toNat = clients.countP p + (p c').toNat := by
  obtain ⟨bound,same⟩ := List.getElem?_eq_some_iff.mp there
  have inside : (p c).toNat ≤ clients.countP p := by
    cases here : p c with
    | false => exact Nat.zero_le _
    | true => exact List.countP_pos_iff.mpr ⟨c,List.mem_of_getElem? there,here⟩
  rw [List.countP_set bound,same]
  cases here : p c <;> cases here' : p c' <;>
    simp only [here,Bool.toNat_true,Bool.toNat_false,if_true,Bool.false_eq_true,if_false] at inside ⊢ <;> omega

/-- A client goes on: what it takes is gone, what it gives back is free. -/
theorem Balanced.set (balanced : Balanced holds capacity free clients) (there : clients[i]? = some c)
    (moved : ∀ r, free' r + (holds c' r).toNat = free r + (holds c r).toNat) : Balanced holds capacity free' (clients.set i c') := by
  intro r
  have before := balanced r
  have here := moved r
  have counted := countP_split c' (fun c => holds c r) there
  omega

theorem Balanced.room (balanced : Balanced holds capacity free clients) (there : c ∈ clients) (r : ι) :
    free r + (holds c r).toNat ≤ capacity r := by
  have before := balanced r
  cases held : holds c r with
  | false =>
    rw [Bool.toNat_false]
    omega
  | true =>
    have counted : 0 < clients.countP (fun c => holds c r) := List.countP_pos_iff.mpr ⟨c,there,held⟩
    rw [Bool.toNat_true]
    omega

/-- A resource of one permit is taken exactly where some client holds it. -/
theorem Balanced.taken_iff (balanced : Balanced holds capacity free clients) {r : ι} (single : capacity r = 1) :
    free r = 0 ↔ ∃ c ∈ clients, holds c r := by
  have before := balanced r
  rw [← List.countP_pos_iff (p := fun c => holds c r)]
  omega

end Suixinji.Permits
