import Mathlib.Data.List.Basic
import Mathlib.Logic.Relation

/-! Depth-first search for a cycle, with the nodes already seen and those on the
path. A search that meets no cycle leaves an order in which every node comes
after its parents, and in such an order there is always a node to go on with. -/
namespace Suixinji.Search

variable {α : Type} [DecidableEq α]

structure Marks (α : Type) where
  visited : List α
  active : List α

/-- `any` over the nodes: it stops at the first that reports a cycle. -/
def visitAny (visit : α → Marks α → Option (Bool × Marks α)) : List α → Marks α → Option (Bool × Marks α)
  | [],marks => some (false,marks)
  | node::rest,marks => do
    let (found,marks) ← visit node marks
    if found then some (true,marks) else visitAny visit rest marks

def visit (parents : α → List α) : Nat → α → Marks α → Option (Bool × Marks α)
  | 0,_,_ => none
  | fuel+1,node,marks =>
    if node ∈ marks.active then some (true,marks)
    else if node ∈ marks.visited then some (false,marks)
    else do
      let (found,after) ← visitAny (visit parents fuel) (parents node) ⟨node::marks.visited,node::marks.active⟩
      some (found,{ after with active := after.active.erase node })

/-- A path has no more nodes than the graph, so one more call than that is enough. -/
def hasCycle (parents : α → List α) (nodes : List α) : Option Bool :=
  (visitAny (visit parents (nodes.length + 1)) nodes ⟨[],[]⟩).map (·.1)

/-- The latest node first, each with its parents among those after it in the list. -/
inductive Ordered (parents : α → List α) : List α → Prop
  | nil : Ordered parents []
  | cons {node : α} {done : List α} : (∀ p ∈ parents node, p ∈ done) → Ordered parents done → Ordered parents (node::done)

/-- What has been seen is on the path or in order. -/
def Marks.Settles (marks : Marks α) (done : List α) : Prop := ∀ node ∈ marks.visited, node ∈ marks.active ∨ node ∈ done

section Order

variable {parents : α → List α}

omit [DecidableEq α] in
theorem visitAny_ordered {step : α → Marks α → Option (Bool × Marks α)}
    (each : ∀ node marks after done, step node marks = some (false,after) → Ordered parents done → marks.Settles done →
      after.active = marks.active ∧ ∃ more, Ordered parents more ∧ done ⊆ more ∧ after.Settles more ∧ node ∈ more) :
    ∀ (nodes : List α) (marks after : Marks α) (done : List α), visitAny step nodes marks = some (false,after) →
      Ordered parents done → marks.Settles done →
      after.active = marks.active ∧ ∃ more, Ordered parents more ∧ done ⊆ more ∧ after.Settles more ∧ nodes ⊆ more := by
  intro nodes
  induction nodes with
  | nil =>
    intro marks after done ran ordered settles
    obtain rfl : marks = after := by simpa [visitAny] using ran
    exact ⟨rfl,done,ordered,fun _ inside => inside,settles,List.nil_subset done⟩
  | cons node rest ih =>
    intro marks after done ran ordered settles
    obtain ⟨⟨found,middle⟩,first,ran⟩ := Option.bind_eq_some_iff.mp ran
    cases found with
    | true => simp at ran
    | false =>
      obtain ⟨kept,more,ordered,grown,settles,there⟩ := each node marks middle done first ordered settles
      obtain ⟨kept',final,ordered,grown',settles,rest_there⟩ := ih middle after more ran ordered settles
      refine ⟨kept'.trans kept,final,ordered,fun _ inside => grown' (grown inside),settles,?_⟩
      intro other member
      rcases List.mem_cons.mp member with rfl | member
      · exact grown' there
      · exact rest_there member

theorem visit_ordered (fuel : Nat) : ∀ (node : α) (marks after : Marks α) (done : List α),
    visit parents fuel node marks = some (false,after) → Ordered parents done → marks.Settles done →
    after.active = marks.active ∧ ∃ more, Ordered parents more ∧ done ⊆ more ∧ after.Settles more ∧ node ∈ more := by
  induction fuel with
  | zero => intro node marks after done ran; simp [visit] at ran
  | succ fuel ih =>
    intro node marks after done ran ordered settles
    unfold visit at ran
    by_cases active : node ∈ marks.active
    · simp [active] at ran
    · rw [if_neg active] at ran
      by_cases seen : node ∈ marks.visited
      · obtain rfl : marks = after := by simpa [seen] using ran
        exact ⟨rfl,done,ordered,fun _ inside => inside,settles,(settles node seen).resolve_left active⟩
      · rw [if_neg seen] at ran
        obtain ⟨⟨found,middle⟩,inner,ran⟩ := Option.bind_eq_some_iff.mp ran
        obtain ⟨rfl,rfl⟩ : found = false ∧ { middle with active := middle.active.erase node } = after := by simpa using ran
        have entered : Marks.Settles ⟨node::marks.visited,node::marks.active⟩ done := by
          intro other member
          rcases List.mem_cons.mp member with rfl | member
          · exact .inl List.mem_cons_self
          · exact (settles other member).imp_left (List.mem_cons_of_mem node)
        obtain ⟨kept,more,ordered,grown,settles,there⟩ := visitAny_ordered ih _ _ middle done inner ordered entered
        have left : middle.active.erase node = marks.active := by rw [kept]; simp
        -- the node leaves the path once all its parents are in order
        refine ⟨left,node::more,.cons there ordered,fun _ inside => List.mem_cons_of_mem node (grown inside),?_,List.mem_cons_self⟩
        intro other member
        change other ∈ middle.active.erase node ∨ _
        rw [left]
        rcases settles other member with path | inside
        · rw [kept] at path
          rcases List.mem_cons.mp path with rfl | path
          · exact .inr List.mem_cons_self
          · exact .inl path
        · exact .inr (List.mem_cons_of_mem node inside)

theorem ordered_of_hasCycle {nodes : List α} (none_found : hasCycle parents nodes = some false) :
    ∃ done, Ordered parents done ∧ nodes ⊆ done := by
  obtain ⟨⟨found,after⟩,ran,rfl⟩ := Option.map_eq_some_iff.mp none_found
  obtain ⟨-,done,ordered,-,-,there⟩ := visitAny_ordered (visit_ordered _) nodes ⟨[],[]⟩ after [] ran .nil (fun _ seen => absurd seen List.not_mem_nil)
  exact ⟨done,ordered,there⟩

omit [DecidableEq α] in
theorem Ordered.next {done : List α} (ordered : Ordered parents done) (finished : α → Prop)
    (waiting : ∃ node ∈ done, ¬finished node) : ∃ node ∈ done, ¬finished node ∧ ∀ p ∈ parents node, finished p := by
  induction ordered with
  | nil =>
    obtain ⟨node,member,-⟩ := waiting
    cases member
  | @cons head done before ordered ih =>
    by_cases earlier : ∃ node ∈ done, ¬finished node
    · obtain ⟨node,member,rest⟩ := ih earlier
      exact ⟨node,List.mem_cons_of_mem head member,rest⟩
    · simp only [not_exists,not_and,not_not] at earlier
      obtain ⟨node,member,waits⟩ := waiting
      rcases List.mem_cons.mp member with rfl | member
      · exact ⟨node,List.mem_cons_self,waits,fun p parent => earlier p (before p parent)⟩
      · exact absurd (earlier node member) waits

omit [DecidableEq α] in
theorem Ordered.acc {done : List α} (ordered : Ordered parents done) : ∀ node ∈ done, Acc (fun p node => p ∈ parents node) node := by
  induction ordered with
  | nil => exact fun node member => absurd member List.not_mem_nil
  | cons before ordered ih => exact List.forall_mem_cons.mpr ⟨.intro _ (fun p parent => ih p (before p parent)),ih⟩

omit [DecidableEq α] in
/-- In such an order no way leads from a node back to it. -/
theorem Ordered.acyclic {done : List α} (ordered : Ordered parents done) {node : α} (member : node ∈ done) :
    ¬Relation.TransGen (fun node p => p ∈ parents node) node node := by
  intro cycle
  have reached := (ordered.acc node member).transGen
  rw [← Relation.transGen_swap] at cycle
  induction reached with
  | intro node _ ih => exact ih node cycle member cycle

end Order

section Fuel

variable {parents : α → List α} {nodes : List α}

/-- The nodes a search has yet to meet. -/
def Marks.unseen (marks : Marks α) (nodes : List α) : Nat := (nodes.filter (fun node => decide (node ∉ marks.visited))).length

theorem Marks.unseen_le {before after : Marks α} (grown : before.visited ⊆ after.visited) (nodes : List α) :
    after.unseen nodes ≤ before.unseen nodes := by
  apply List.Sublist.length_le
  apply List.monotone_filter_right
  intro node fresh
  simp only [decide_eq_true_eq] at fresh ⊢
  exact fun seen => fresh (grown seen)

theorem Marks.unseen_lt {marks : Marks α} {node : α} (there : node ∈ nodes) (fresh : node ∉ marks.visited) (path : List α) :
    Marks.unseen ⟨node::marks.visited,path⟩ nodes < marks.unseen nodes := by
  unfold Marks.unseen
  have narrower : nodes.filter (fun n => decide (n ∉ node::marks.visited)) =
      (nodes.filter (fun n => decide (n ∉ marks.visited))).filter (fun n => decide (n ≠ node)) := by
    rw [List.filter_filter]
    apply List.filter_congr
    intro n _
    simp
  rw [narrower]
  apply List.length_filter_lt_length_iff_exists.mpr
  exact ⟨node,List.mem_filter.mpr ⟨there,by simpa using fresh⟩,by simp⟩

theorem visitAny_isSome {step : α → Marks α → Option (Bool × Marks α)} {bound : Nat}
    (each : ∀ node ∈ nodes, ∀ marks, marks.unseen nodes < bound →
      ∃ found after, step node marks = some (found,after) ∧ marks.visited ⊆ after.visited) :
    ∀ (some_nodes : List α), some_nodes ⊆ nodes → ∀ marks, marks.unseen nodes < bound →
      ∃ found after, visitAny step some_nodes marks = some (found,after) ∧ marks.visited ⊆ after.visited := by
  intro some_nodes
  induction some_nodes with
  | nil => exact fun _ marks _ => ⟨false,marks,rfl,fun _ seen => seen⟩
  | cons node rest ih =>
    intro inside marks enough
    obtain ⟨found,middle,first,grown⟩ := each node (inside List.mem_cons_self) marks enough
    cases found with
    | true => exact ⟨true,middle,by simp [visitAny,first],grown⟩
    | false =>
      obtain ⟨found,after,ran,grown'⟩ := ih (fun n member => inside (List.mem_cons_of_mem node member)) middle
        (Nat.lt_of_le_of_lt (Marks.unseen_le grown nodes) enough)
      exact ⟨found,after,by simp [visitAny,first,ran],fun n seen => grown' (grown seen)⟩

theorem visit_isSome (closed : ∀ node ∈ nodes, parents node ⊆ nodes) (fuel : Nat) : ∀ node ∈ nodes, ∀ marks : Marks α,
    marks.unseen nodes < fuel → ∃ found after, visit parents fuel node marks = some (found,after) ∧ marks.visited ⊆ after.visited := by
  induction fuel with
  | zero => intro node there marks enough; exact absurd enough (Nat.not_lt_zero _)
  | succ fuel ih =>
    intro node there marks enough
    unfold visit
    by_cases active : node ∈ marks.active
    · exact ⟨true,marks,if_pos active,fun _ seen => seen⟩
    rw [if_neg active]
    by_cases seen : node ∈ marks.visited
    · exact ⟨false,marks,if_pos seen,fun _ seen => seen⟩
    rw [if_neg seen]
    -- each call marks its node, so there is one fewer to meet below it
    have fewer := Marks.unseen_lt there seen (node::marks.active)
    obtain ⟨found,after,ran,grown⟩ := visitAny_isSome ih (parents node) (closed node there) ⟨node::marks.visited,node::marks.active⟩
      (by omega)
    exact ⟨found,{ after with active := after.active.erase node },by simp [ran],
      fun n earlier => grown (List.mem_cons_of_mem node earlier)⟩

theorem hasCycle_isSome (closed : ∀ node ∈ nodes, parents node ⊆ nodes) : (hasCycle parents nodes).isSome := by
  have room : Marks.unseen ⟨[],[]⟩ nodes < nodes.length + 1 := Nat.lt_succ_of_le (List.length_filter_le _ _)
  obtain ⟨found,after,ran,-⟩ := visitAny_isSome (visit_isSome closed _) nodes (fun _ member => member) ⟨[],[]⟩ room
  simp [hasCycle,ran]

end Fuel

end Suixinji.Search
