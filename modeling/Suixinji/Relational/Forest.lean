import Mathlib.Data.List.Basic
import Mathlib.Logic.Relation

/-! Links from node to node of which each node has at most one. While links are only ever
added from one end of a chain to a chain that ends elsewhere, every chain has an end. -/
namespace Suixinji.Forest
open Relation

variable {κ : Type} {link link' : κ → Option κ} {a b c r s t : κ}

/-- The one node is linked to the other. -/
def Linked (link : κ → Option κ) (a b : κ) : Prop := link a = some b

/-- The one node leads to the other, by no link or several. -/
def Leads (link : κ → Option κ) : κ → κ → Prop := ReflTransGen (Linked link)

/-- The chain from the node ends at the other. -/
structure Ends (link : κ → Option κ) (a r : κ) : Prop where
  leads : Leads link a r
  root : link r = none

theorem Leads.mono (more : ∀ a b, link a = some b → link' a = some b) (leads : Leads link a b) : Leads link' a b :=
  ReflTransGen.mono more a b leads

/-- Of two nodes on a chain one leads to the other. -/
theorem Leads.comparable (first : Leads link a b) (second : Leads link a c) : Leads link b c ∨ Leads link c b :=
  ReflTransGen.total_of_right_unique (fun _ _ _ one other => Option.some.inj (one.symm.trans other)) first second

/-- The end of a chain leads nowhere else. -/
theorem Leads.eq_of_root (leads : Leads link r b) (root : link r = none) : b = r := by
  rcases ReflTransGen.cases_head leads with same | ⟨c,step,_⟩
  · exact same.symm
  · rw [Linked,root] at step
    cases step

theorem Ends.refl (root : link r = none) : Ends link r r := ⟨.refl,root⟩

theorem Ends.head (step : link a = some b) (ends : Ends link b r) : Ends link a r := ⟨.head step ends.leads,ends.root⟩

theorem Ends.of_leads (leads : Leads link a b) (ends : Ends link b r) : Ends link a r := ⟨leads.trans ends.leads,ends.root⟩

/-- A node on a chain ends where the chain does. -/
theorem Ends.along (ends : Ends link a r) (leads : Leads link a b) : Ends link b r := by
  refine ⟨?_,ends.root⟩
  rcases leads.comparable ends.leads with forth | back
  · exact forth
  · rw [back.eq_of_root ends.root]
    exact .refl

theorem Ends.unique (one : Ends link a r) (other : Ends link a s) : r = s :=
  (one.along other.leads).leads.eq_of_root other.root

/-- No chain that ends comes by a node twice. -/
theorem Ends.acyclic (ends : Ends link a r) : ¬TransGen (Linked link) a a := by
  intro cycle
  have around : ∀ b, Leads link a b → TransGen (Linked link) b b := by
    intro b leads
    induction leads with
    | refl => exact cycle
    | tail _ step ih =>
      obtain ⟨c,next,back⟩ := TransGen.head'_iff.mp ih
      obtain rfl := Option.some.inj (step.symm.trans next)
      exact .tail' back step
  obtain ⟨c,next,_⟩ := TransGen.head'_iff.mp (around r ends.leads)
  rw [Linked,ends.root] at next
  cases next

/-- The node gets a link, and the links of the others stay. -/
structure Grafted (link link' : κ → Option κ) (r t : κ) : Prop where
  root : link r = none
  linked : link' r = some t
  others : ∀ a ≠ r, link' a = link a

theorem Grafted.mono (grafted : Grafted link link' r t) (a b : κ) (step : link a = some b) : link' a = some b := by
  rw [grafted.others a ?_]
  · exact step
  · rintro rfl
    rw [grafted.root] at step
    cases step

/-- The chains that ended at the node now end where the chain of its link does. -/
theorem Ends.grafted [DecidableEq κ] (ends : Ends link a s) (grafted : Grafted link link' r t) (target : Ends link t b)
    (apart : b ≠ r) : Ends link' a (if s = r then b else s) := by
  have there : Ends link' t b := ⟨target.leads.mono grafted.mono,(grafted.others b apart).trans target.root⟩
  split
  · rename_i same
    have leads : Leads link' a r := same ▸ ends.leads.mono grafted.mono
    exact .of_leads leads (.head grafted.linked there)
  · rename_i other
    exact ⟨ends.leads.mono grafted.mono,(grafted.others s other).trans ends.root⟩

/-- Chains that ended together end together. -/
theorem Ends.together [DecidableEq κ] (grafted : Grafted link link' r t) (target : Ends link t b) (apart : b ≠ r)
    (one : Ends link a s) (other : Ends link c s) : ∃ u, Ends link' a u ∧ Ends link' c u :=
  ⟨_,one.grafted grafted target apart,other.grafted grafted target apart⟩

/-- Where so many links lead, or the chain ends. -/
def follow (link : κ → Option κ) : Nat → κ → κ
  | 0, a => a
  | n + 1, a => (link a).elim a (follow link n)

theorem Ends.follow_eq [DecidableEq κ] (ends : Ends link a r) {nodes : List κ}
    (listed : ∀ b, Leads link a b → link b ≠ none → b ∈ nodes) : follow link nodes.length a = r := by
  obtain ⟨leads,root⟩ := ends
  induction leads using ReflTransGen.head_induction_on generalizing nodes with
  | refl =>
    cases nodes with
    | nil => rfl
    | cons _ _ => rw [List.length_cons,follow,root]; rfl
  | @head a b step leads ih =>
    have inside : a ∈ nodes := listed a .refl (by rw [show link a = some b from step]; simp)
    have away : ∀ c, Leads link b c → c ≠ a := by
      rintro c further rfl
      exact Ends.acyclic ⟨.head step leads,root⟩ (TransGen.head'_iff.mpr ⟨b,step,further⟩)
    have rest : follow link (nodes.erase a).length b = r :=
      ih (fun c further linked => (List.mem_erase_of_ne (away c further)).mpr (listed c (.head step further) linked))
    have count : nodes.length = (nodes.erase a).length + 1 := by
      have positive := List.length_pos_of_mem inside
      rw [List.length_erase_of_mem inside]
      omega
    rw [count,follow,show link a = some b from step]
    exact rest

end Suixinji.Forest
