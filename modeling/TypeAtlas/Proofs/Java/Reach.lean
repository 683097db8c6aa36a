import TypeAtlas.Java.Tree

namespace TypeAtlas.Java.Tree

theorem Reachable.of_item {items : List Tree} {t n : Tree} (ht : t ∈ items)
    (h : Reachable t n) : Reachable (.list items) n := by
  induction h with
  | start hwithin => exact .start (.item ht hwithin)
  | step _ hpart hwithin ih => exact .step ih hpart hwithin

theorem Reachable.of_part {k : Kind} {parts : List (Part × Tree)} {p : Part} {t n : Tree}
    (ht : (p, t) ∈ parts) (h : Reachable t n) : Reachable (.node k parts) n := by
  induction h with
  | start hwithin => exact .step (.start .here) ht hwithin
  | step _ hpart hwithin ih => exact .step ih hpart hwithin

theorem mem_nodesOfList {items : List Tree} {n : Tree} :
    n ∈ nodesOfList items ↔ ∃ t ∈ items, n ∈ t.nodes := by
  induction items with
  | nil => simp [nodesOfList]
  | cons t items ih => simp [nodesOfList, ih]

theorem mem_nodesOfParts {parts : List (Part × Tree)} {n : Tree} :
    n ∈ nodesOfParts parts ↔ ∃ p t, (p, t) ∈ parts ∧ n ∈ t.nodes := by
  induction parts with
  | nil => simp [nodesOfParts]
  | cons entry parts ih =>
    obtain ⟨p, t⟩ := entry
    simp only [nodesOfParts, List.mem_append, ih, List.mem_cons, Prod.mk.injEq]
    constructor
    · rintro (h | ⟨q, u, hu, h⟩)
      · exact ⟨p, t, .inl ⟨rfl, rfl⟩, h⟩
      · exact ⟨q, u, .inr hu, h⟩
    · rintro ⟨q, u, ⟨rfl, rfl⟩ | hu, h⟩
      · exact .inl h
      · exact .inr ⟨q, u, hu, h⟩

theorem mem_nodes_node {k : Kind} {parts : List (Part × Tree)} {n : Tree} :
    n ∈ (Tree.node k parts).nodes ↔ n = .node k parts ∨ n ∈ nodesOfParts parts := by
  rw [nodes, List.mem_cons]

theorem mem_nodes_of_within {k : Kind} {parts : List (Part × Tree)} {t : Tree}
    (h : Within (.node k parts) t) : Tree.node k parts ∈ t.nodes := by
  induction h with
  | here => exact mem_nodes_node.mpr (.inl rfl)
  | @item u items hu _ ih =>
    rw [nodes]
    exact mem_nodesOfList.mpr ⟨u, hu, ih⟩

/-- The nodes below a node of a tree are among those of the tree. -/
theorem mem_nodes_trans (t : Tree) {m n : Tree} (hm : m ∈ t.nodes) (hn : n ∈ m.nodes) :
    n ∈ t.nodes := by
  match t with
  | .node k parts =>
    obtain rfl | hbelow := mem_nodes_node.mp hm
    · exact hn
    · obtain ⟨p, u, hu, hmu⟩ := mem_nodesOfParts.mp hbelow
      have hlt := List.sizeOf_lt_of_mem hu
      have hnu := mem_nodes_trans u hmu hn
      exact mem_nodes_node.mpr (.inr (mem_nodesOfParts.mpr ⟨p, u, hu, hnu⟩))
  | .list items =>
    rw [nodes] at hm ⊢
    obtain ⟨u, hu, hmu⟩ := mem_nodesOfList.mp hm
    have hlt := List.sizeOf_lt_of_mem hu
    exact mem_nodesOfList.mpr ⟨u, hu, mem_nodes_trans u hmu hn⟩
termination_by sizeOf t
decreasing_by
  · simp at hlt ⊢
    omega
  · simp
    omega

theorem reachable_of_mem_nodes (t : Tree) {n : Tree} (h : n ∈ t.nodes) : Reachable t n := by
  match t with
  | .node k parts =>
    obtain rfl | hbelow := mem_nodes_node.mp h
    · exact .start .here
    · obtain ⟨p, u, hu, hn⟩ := mem_nodesOfParts.mp hbelow
      have hlt := List.sizeOf_lt_of_mem hu
      exact (reachable_of_mem_nodes u hn).of_part hu
  | .list items =>
    rw [nodes] at h
    obtain ⟨u, hu, hn⟩ := mem_nodesOfList.mp h
    have hlt := List.sizeOf_lt_of_mem hu
    exact (reachable_of_mem_nodes u hn).of_item hu
termination_by sizeOf t
decreasing_by
  · simp at hlt ⊢
    omega
  · simp
    omega

/-- The nodes that a walk meets are those that can be reached. -/
theorem mem_nodes_iff {t n : Tree} : n ∈ t.nodes ↔ Reachable t n := by
  constructor
  · exact reachable_of_mem_nodes t
  · intro h
    induction h with
    | start hwithin => exact mem_nodes_of_within hwithin
    | step _ hpart hwithin ih =>
      refine mem_nodes_trans t ih ?_
      have hinside := mem_nodesOfParts.mpr ⟨_, _, hpart, mem_nodes_of_within hwithin⟩
      exact mem_nodes_node.mpr (.inr hinside)

end TypeAtlas.Java.Tree
