import PlainJs.Proofs.Visited

namespace PlainJs

/-- A node and the nodes around it, innermost first. -/
structure Site where
  around : List (Sigma Node)
  node : Sigma Node

namespace Node

variable {c : Cat}

/-- The places of a tree that stands in the nodes of `around`. -/
def sites (around : List (Sigma Node)) {c : Cat} (n : Node c) : List Site :=
  ⟨around, ⟨c, n⟩⟩ :: n.children.attach.flatMap fun ⟨⟨_, k⟩, _⟩ => sites (⟨c, n⟩ :: around) k
termination_by sizeOf n
decreasing_by exact sizeOf_lt_of_mem_children ‹_›

theorem sites_eq (around : List (Sigma Node)) (n : Node c) :
    n.sites around = ⟨around, ⟨c, n⟩⟩ :: n.children.flatMap fun k => k.2.sites (⟨c, n⟩ :: around) := by
  rw [sites, List.flatMap_subtype (g := fun k => k.2.sites (⟨c, n⟩ :: around)) fun _ _ => rfl,
    List.unattach_attach]

theorem filterMap_sites {β : Type} (f : Site → Option β) (around : List (Sigma Node)) (n : Node c) :
    (n.sites around).filterMap f = (f ⟨around, ⟨c, n⟩⟩).toList ++
      n.children.flatMap fun k => (k.2.sites (⟨c, n⟩ :: around)).filterMap f := by
  rw [sites_eq, List.filterMap_cons, List.filterMap_flatMap]
  cases f ⟨around, ⟨c, n⟩⟩ <;> rfl

/-- The nodes of a tree in visiting order. -/
def nodes (n : Node c) : List (Sigma Node) := (n.sites []).map (·.node)

theorem map_node_sites (around : List (Sigma Node)) (n : Node c) :
    (n.sites around).map (·.node) = n.nodes := by
  induction n using partsInduction generalizing around with
  | step n ih =>
    rw [nodes, sites_eq, sites_eq, List.map_cons, List.map_cons, List.map_flatMap, List.map_flatMap]
    congr 1
    exact List.flatMap_congr fun k hk => (ih hk _).trans (ih hk _).symm

variable {d : Cat} {n : Node c} {k : Sigma Node}

theorem nodes_eq (n : Node c) : n.nodes = ⟨c, n⟩ :: n.children.flatMap fun k => k.2.nodes := by
  rw [nodes, sites_eq, List.map_cons, List.map_flatMap]
  simp only [map_node_sites]

theorem mem_nodes : k ∈ n.nodes ↔ k = ⟨c, n⟩ ∨ ∃ m ∈ n.children, k ∈ m.2.nodes := by
  rw [nodes_eq, List.mem_cons, List.mem_flatMap]

theorem mem_nodes_self : ⟨c, n⟩ ∈ n.nodes := mem_nodes.mpr (.inl rfl)

theorem mem_nodes_of_part {m : Sigma Node} (hm : m ∈ n.children) (hk : k ∈ m.2.nodes) : k ∈ n.nodes :=
  mem_nodes.mpr (.inr ⟨m, hm, hk⟩)

end Node

end PlainJs
