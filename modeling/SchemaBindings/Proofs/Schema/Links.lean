import Mathlib.Data.Finset.Card
import Mathlib.Logic.Relation
import SchemaBindings.Schema.Graph

namespace SchemaBindings.Schema

open Relation

theorem Node.mem_groups {n : Node} {name : String} {id : UInt64} :
    (name, id) ∈ n.groups ↔ n.kind = .structNode ∧
      ∃ s, n.struct? = some s ∧ ∃ f ∈ s.fields, f.name = name ∧ f.body = .group id := by
  have hid : ∀ f : Field, f.groupId? = some id ↔ f.body = .group id := by
    intro f
    unfold Field.groupId?
    cases f.body <;> simp
  unfold Node.groups
  split
  next s hk hs =>
    simp only [StructInfo.groups, List.mem_filterMap, Option.map_eq_some_iff, Prod.mk.injEq]
    constructor
    · rintro ⟨f, hf, i, hi, rfl, rfl⟩
      exact ⟨hk, s, hs, f, hf, rfl, (hid f).1 hi⟩
    · rintro ⟨-, s', hs', f, hf, hn, hb⟩
      cases hs.symm.trans hs'
      exact ⟨f, hf, id, (hid f).2 hb, hn, rfl⟩
  next hn =>
    simp only [List.not_mem_nil, false_iff]
    rintro ⟨hk, s, hs, -⟩
    exact hn s hk hs

/-- The ids of the nodes that are declared inside a node, by nested entries and as groups. -/
def Node.declared (n : Node) : List UInt64 :=
  n.nested.map NamedId.id ++ n.groups.map Prod.snd

namespace Graph

variable {g : Graph} {n m : Node} {id : UInt64}

theorem mem_of_find? (h : g.find? id = some n) : n ∈ g.nodes :=
  List.mem_of_find?_eq_some h

theorem find_eq_ok_iff : g.find id = .ok n ↔ g.find? id = some n := by
  unfold find
  cases g.find? id <;> simp

theorem find_of_find?_none (h : g.find? id = none) :
    g.find id = .error (.ofCause (.unknownNode id)) := by
  simp [find, h]

theorem nodes_of_ofNodes {nodes : List Node} {g : Graph} (h : ofNodes nodes = .ok g) :
    g.nodes = nodes := by
  unfold ofNodes at h
  split at h
  · cases h
  · cases h
    rfl

/-- `m` is the node of a group field of the struct `n`. -/
def GroupOf (g : Graph) (n m : Node) : Prop :=
  ∃ group ∈ n.groups, g.find? group.2 = some m

/-- `m` is declared inside `n`. -/
def Declares (g : Graph) (n m : Node) : Prop :=
  ∃ id ∈ n.declared, g.find? id = some m

theorem GroupOf.declares (h : g.GroupOf n m) : g.Declares n m := by
  obtain ⟨group, hg, hm⟩ := h
  exact ⟨group.2, List.mem_append_right _ (List.mem_map_of_mem hg), hm⟩

theorem Declares.mem (h : g.Declares n m) : m ∈ g.nodes := by
  obtain ⟨id, -, hm⟩ := h
  exact mem_of_find? hm

theorem GroupOf.mem (h : g.GroupOf n m) : m ∈ g.nodes :=
  h.declares.mem

/-- No node leads back to itself. -/
def Acyclic (R : Node → Node → Prop) : Prop :=
  ∀ n, ¬TransGen R n n

theorem Acyclic.mono {R S : Node → Node → Prop} (h : Acyclic S) (hRS : ∀ n m, R n m → S n m) :
    Acyclic R :=
  fun n hn => h n (TransGen.mono hRS n n hn)

/-- Links along which a number falls do not lead back. -/
theorem acyclic_of_rank {R : Node → Node → Prop} (rank : Node → Nat)
    (hmem : ∀ n m, R n m → m ∈ g.nodes)
    (h : ∀ n ∈ g.nodes, ∀ m, R n m → rank m < rank n) : Acyclic R := by
  have hlt : ∀ n m, n ∈ g.nodes → TransGen R n m → m ∈ g.nodes ∧ rank m < rank n := by
    intro n m hn hnm
    induction hnm with
    | single hr => exact ⟨hmem _ _ hr, h n hn _ hr⟩
    | tail _ hr ih => exact ⟨hmem _ _ hr, (h _ ih.1 _ hr).trans ih.2⟩
  intro n hn
  obtain ⟨m, -, hr⟩ := TransGen.tail'_iff.1 hn
  exact lt_irrefl _ (hlt n n (hmem _ _ hr) hn).2

open Classical in
/-- How many nodes of the graph links lead to. -/
noncomputable def reachCount (g : Graph) (R : Node → Node → Prop) (n : Node) : Nat :=
  (g.nodes.toFinset.filter fun m => TransGen R n m).card

theorem reachCount_lt {R : Node → Node → Prop} (hR : Acyclic R) (h : R n m) (hm : m ∈ g.nodes) :
    g.reachCount R m < g.reachCount R n := by
  classical
  unfold reachCount
  apply Finset.card_lt_card
  rw [Finset.ssubset_iff_of_subset]
  · refine ⟨m, ?_, ?_⟩
    · exact Finset.mem_filter.2 ⟨List.mem_toFinset.2 hm, TransGen.single h⟩
    · intro hmm
      exact hR m (Finset.mem_filter.1 hmm).2
  · intro k hk
    have hk' := Finset.mem_filter.1 hk
    exact Finset.mem_filter.2 ⟨hk'.1, TransGen.head h hk'.2⟩

/-- The depth that recursion along links is given is enough when they do not lead back. -/
theorem reachCount_lt_depthBound (R : Node → Node → Prop) :
    g.reachCount R n < g.depthBound := by
  classical
  have hf : g.reachCount R n ≤ g.nodes.toFinset.card := Finset.card_filter_le _ _
  have hl : g.nodes.toFinset.card ≤ g.nodes.length := List.toFinset_card_le g.nodes
  unfold depthBound size
  omega

end Graph
end SchemaBindings.Schema
