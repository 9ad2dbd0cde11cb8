import SchemaBindings.Proofs.Schema.References
import SchemaBindings.Proofs.Schema.ScopePaths

namespace SchemaBindings.Schema

/-- The ids that a node leads to: its nested nodes and groups, the declarations in the types that it
names, and its scope. -/
def Node.links (n : Node) : List UInt64 :=
  n.declared ++ n.references ++ if n.isTopLevel then [] else [n.scopeId]

section Links

variable {n : Node}

theorem Node.nested_mem_links {entry : NamedId} (h : entry ∈ n.nested) : entry.id ∈ n.links := by
  have hdeclared : entry.id ∈ n.declared := List.mem_append_left _ (List.mem_map_of_mem h)
  exact List.mem_append_left _ (List.mem_append_left _ hdeclared)

theorem Node.group_mem_links {group : String × UInt64} (h : group ∈ n.groups) :
    group.2 ∈ n.links := by
  have hdeclared : group.2 ∈ n.declared := List.mem_append_right _ (List.mem_map_of_mem h)
  exact List.mem_append_left _ (List.mem_append_left _ hdeclared)

theorem Node.reference_mem_links {id : UInt64} (h : id ∈ n.references) : id ∈ n.links :=
  List.mem_append_left _ (List.mem_append_right _ h)

theorem Node.scope_mem_links (h : ¬n.isTopLevel = true) : n.scopeId ∈ n.links := by
  rw [links, if_neg h]
  exact List.mem_append_right _ (List.mem_singleton_self _)

end Links

namespace Graph

variable {g g₁ g₂ : Graph} {id : UInt64} {n : Node}

/-- Links lead from an id to another. The last id on the way may stand for no node. -/
inductive Reaches (g : Graph) (start : UInt64) : UInt64 → Prop where
  | start : Reaches g start start
  | link {id target : UInt64} {n : Node} (h : Reaches g start id) (hn : g.find? id = some n)
      (hl : target ∈ n.links) : Reaches g start target

/-- Two graphs have the same nodes under some ids, which no link leads out of. -/
structure AgreeOn (g₁ g₂ : Graph) (S : UInt64 → Prop) : Prop where
  same : ∀ id, S id → g₁.find? id = g₂.find? id
  closed : ∀ id n, S id → g₁.find? id = some n → ∀ target ∈ n.links, S target

theorem agreeOn_self (g : Graph) : AgreeOn g g fun _ => True :=
  ⟨fun _ _ => rfl, fun _ _ _ _ _ _ => trivial⟩

theorem agreeOn_reaches {start : UInt64}
    (h : ∀ id, g₁.Reaches start id → g₁.find? id = g₂.find? id) :
    AgreeOn g₁ g₂ (g₁.Reaches start) :=
  ⟨h, fun _ _ hid hn _ hl => .link hid hn hl⟩

theorem AgreeOn.find_eq {S : UInt64 → Prop} (h : AgreeOn g₁ g₂ S) (hid : S id) :
    g₁.find id = g₂.find id := by
  rw [find, find, h.same id hid]

theorem find?_eq_some_iff : g.find? id = some n ↔ n ∈ g.nodes ∧ n.id = id := by
  constructor
  · exact fun h => ⟨mem_of_find? h, id_of_find? h⟩
  · rintro ⟨hn, rfl⟩
    cases hm : g.find? n.id with
    | none => exact absurd (List.find?_eq_none.1 hm n hn) (by simp)
    | some m =>
      have hid : m.id = n.id := id_of_find? hm
      rw [List.inj_on_of_nodup_map g.distinct (mem_of_find? hm) hn hid]

theorem find?_eq_of_mem_iff (h : ∀ n, n.id = id → (n ∈ g₁.nodes ↔ n ∈ g₂.nodes)) :
    g₁.find? id = g₂.find? id := by
  ext n
  rw [find?_eq_some_iff, find?_eq_some_iff]
  exact and_congr_left (h n)

theorem exists_ofNodes {nodes : List Node} (h : (nodes.map Node.id).Nodup) :
    ∃ g, ofNodes nodes = .ok g := by
  have hnone : firstRepeated [] nodes = none := by simp [firstRepeated_eq_none_iff, h]
  unfold ofNodes
  split
  · next hsome => cases hsome.symm.trans hnone
  · exact ⟨_, rfl⟩

end Graph
end SchemaBindings.Schema
