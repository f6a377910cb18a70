import Mathlib

/- Graphs whose nodes refer to one another, each reference counted as often as it occurs.
   What is reached from a set of roots is the least set that holds them and is closed under
   references; what lies outside of it is referred to by nothing inside. -/
namespace CountedGraphs

variable {α : Type}

/-- How often the nodes of a list refer to a node. -/
def inward [DecidableEq α] (refs : α → List α) (nodes : List α) (q : α) : Nat :=
  (nodes.map fun p => (refs p).count q).sum

/-- What a path of references leads to from a root. -/
inductive Reached (refs : α → List α) (root : α → Prop) : α → Prop where
  | root {p} (here : root p) : Reached refs root p
  | next {p q} (there : Reached refs root p) (edge : q ∈ refs p) : Reached refs root q

section Inward
variable [DecidableEq α] {refs : α → List α} {nodes nodes' : List α} {p q : α}

@[simp] theorem inward_nil : inward refs [] q = 0 := rfl

@[simp] theorem inward_cons :
    inward refs (p :: nodes) q = (refs p).count q + inward refs nodes q := by
  simp [inward]

@[simp] theorem inward_append :
    inward refs (nodes ++ nodes') q = inward refs nodes q + inward refs nodes' q := by
  simp [inward]

theorem inward_perm (same : nodes.Perm nodes') : inward refs nodes q = inward refs nodes' q :=
  (same.map _).sum_eq

theorem inward_erase (member : p ∈ nodes) :
    inward refs nodes q = (refs p).count q + inward refs (nodes.erase p) q := by
  rw [inward_perm (List.perm_cons_erase member), inward_cons]

theorem inward_congr {refs' : α → List α} (same : ∀ p ∈ nodes, refs' p = refs p) :
    inward refs' nodes q = inward refs nodes q := by
  unfold inward
  congr 1
  exact List.map_congr_left fun p member => by rw [same p member]

theorem count_le_inward (member : p ∈ nodes) : (refs p).count q ≤ inward refs nodes q := by
  have split := @inward_erase _ _ refs _ _ q member
  omega

theorem inward_pos (member : p ∈ nodes) (edge : q ∈ refs p) : 0 < inward refs nodes q :=
  Nat.lt_of_lt_of_le (List.count_pos_iff.2 edge) (count_le_inward member)

theorem inward_pos_iff : 0 < inward refs nodes q ↔ ∃ p ∈ nodes, q ∈ refs p := by
  constructor
  · intro positive
    induction nodes with
    | nil => simp at positive
    | cons first rest ih =>
      by_cases here : q ∈ refs first
      · exact ⟨first, List.mem_cons_self, here⟩
      · rw [inward_cons, List.count_eq_zero.2 here, Nat.zero_add] at positive
        obtain ⟨p, member, edge⟩ := ih positive
        exact ⟨p, List.mem_cons_of_mem _ member, edge⟩
  · rintro ⟨p, member, edge⟩
    exact inward_pos member edge

theorem inward_subset (nodup : nodes.Nodup) (subset : nodes ⊆ nodes') :
    inward refs nodes q ≤ inward refs nodes' q := by
  induction nodes generalizing nodes' with
  | nil => simp
  | cons first rest ih =>
    rw [List.nodup_cons] at nodup
    have later : rest ⊆ nodes'.erase first := by
      intro x member
      have other : x ≠ first := fun same => nodup.1 (same ▸ member)
      exact (List.mem_erase_of_ne other).2 (subset (List.mem_cons_of_mem _ member))
    have tail := ih nodup.2 later
    rw [inward_cons, inward_erase (subset List.mem_cons_self)]
    omega

end Inward

section Reaching
variable {refs : α → List α} {root : α → Prop} {p : α}

theorem reached_least (keep : α → Prop) (roots : ∀ p, root p → keep p)
    (closed : ∀ p, keep p → ∀ q ∈ refs p, keep q) (reached : Reached refs root p) : keep p := by
  induction reached with
  | root here => exact roots _ here
  | next there edge ih => exact closed _ ih _ edge

/-- Where references lead down in rank, nodes that are all referred to from among
    themselves are none. -/
theorem nil_of_rank [DecidableEq α] {nodes : List α} (rank : α → Nat)
    (supported : ∀ p ∈ nodes, ∃ q ∈ nodes, rank p < rank q) : nodes = [] := by
  by_contra some_node
  obtain ⟨top, member, greatest⟩ : ∃ top ∈ nodes, ∀ p ∈ nodes, rank p ≤ rank top := by
    have inhabited : nodes.toFinset.Nonempty := by
      obtain ⟨p, member⟩ := List.exists_mem_of_ne_nil _ some_node
      exact ⟨p, List.mem_toFinset.2 member⟩
    obtain ⟨top, member, greatest⟩ := nodes.toFinset.exists_max_image rank inhabited
    exact ⟨top, List.mem_toFinset.1 member, fun p here => greatest p (List.mem_toFinset.2 here)⟩
  obtain ⟨q, there, above⟩ := supported top member
  have below := greatest q there
  omega

end Reaching
end CountedGraphs
