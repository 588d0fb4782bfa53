import Suixinji.Relational.Table
import Suixinji.Relational.Transition

/-! Rows with versions: what was read of a table is the row as it stands, or outdated for
ever. So a write that compares versions writes what it would have written had it read the
row just then, and a system of reads and such writes does what one of whole operations does. -/
namespace Suixinji.Optimistic
open Relational Transition

variable {ρ κ : Type} {key : ρ → κ} {version : ρ → Nat} {t u v : Table key} {r m : ρ}

/-- The row as it stands, or as it stood in an earlier version. -/
def Known (version : ρ → Nat) (t : Table key) (r : ρ) : Prop :=
  ∃ m ∈ t, key m = key r ∧ (version r < version m ∨ m = r)

/-- No row goes, and a row that changes gets a later version. -/
def Later (version : ρ → Nat) (t u : Table key) : Prop := ∀ r ∈ t, Known version u r

theorem Known.of_mem (member : r ∈ t) : Known version t r := ⟨r,member,rfl,.inr rfl⟩

theorem Known.later (known : Known version t r) (later : Later version t u) : Known version u r := by
  obtain ⟨m,member,same,rest⟩ := known
  obtain ⟨n,there,same',rest'⟩ := later m member
  refine ⟨n,there,same'.trans same,?_⟩
  rcases rest with newer | rfl
  · rcases rest' with newest | rfl
    · exact .inl (Nat.lt_trans newer newest)
    · exact .inl newer
  · exact rest'

section
variable [DecidableEq κ]

theorem Known.found (known : Known version t r) :
    ∃ m, t.find? (key r) = some m ∧ (version r < version m ∨ m = r) := by
  obtain ⟨m,member,same,rest⟩ := known
  exact ⟨m,Table.find?_eq_some.mpr ⟨member,same⟩,rest⟩

/-- The row that has the version that was read is the row that was read. -/
theorem Known.current (known : Known version t r) (found : t.find? (key r) = some m) (unmoved : version m = version r) :
    m = r := by
  obtain ⟨n,found',rest⟩ := known.found
  obtain rfl := Option.some.inj (found.symm.trans found')
  exact rest.resolve_left (by omega)

theorem Later.put (member : m ∈ t) (same : key r = key m) (newer : version m < version r) : Later version t (t.put r) := by
  intro n inside
  by_cases here : key n = key r
  · obtain rfl := t.unique inside member (here.trans same)
    exact ⟨r,Table.mem_put.mpr (.inr ⟨rfl,n,member,here⟩),same,.inl newer⟩
  · exact .of_mem (Table.mem_put.mpr (.inl ⟨inside,here⟩))

theorem Later.insert (inserted : t.insert r = some u) : Later version t u :=
  fun _ inside => .of_mem ((Table.mem_insert inserted).mpr (.inl inside))

end

theorem Later.refl : Later version t t := fun _ member => .of_mem member

theorem Later.trans (first : Later version t u) (second : Later version u v) : Later version t v :=
  fun r member => (first r member).later second

variable {σ τ α β : Type} {Step : σ → α → σ → Prop} {Whole : τ → β → τ → Prop}

/-- Every step of a run is, for those who see only a part of the state, one step of another
system or none: so is the run. -/
theorem matched (seen : σ → τ) (P : σ → Prop) (preserved : ∀ s a t, P s → Step s a t → P t)
    (single : ∀ s a t, P s → Step s a t → seen t = seen s ∨ ∃ b, Whole (seen s) b (seen t)) {s t : σ} {as : List α}
    (run : Run Step s as t) (initial : P s) : ∃ bs, Run Whole (seen s) bs (seen t) := by
  induction run with
  | nil s => exact ⟨[],.nil _⟩
  | cons head _ ih =>
    obtain ⟨bs,rest⟩ := ih (preserved _ _ _ initial head)
    rcases single _ _ _ initial head with idle | ⟨b,step⟩
    · exact ⟨bs,idle ▸ rest⟩
    · exact ⟨b::bs,.cons step rest⟩

end Suixinji.Optimistic
