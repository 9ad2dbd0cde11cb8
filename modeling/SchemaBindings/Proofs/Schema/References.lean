import SchemaBindings.Proofs.Schema.Links

namespace SchemaBindings.Schema

open Relation

/-- The ids of the declarations that a type is made of. -/
def TypeRef.references : TypeRef → List UInt64
  | plain .enum typeId | plain .struct typeId | plain .interface typeId => [typeId]
  | plain .. => []
  | listOf element => element.references

theorem TypeRef.references_of_enum {t : TypeRef} (h : t.kind = .enum) :
    t.references = [t.typeId] := by
  cases t with
  | plain kind typeId =>
    cases h
    rfl
  | listOf element => cases h

/-- The declarations that the bindings of a slot name: those in the type of a struct or list. -/
def SlotField.references (slot : SlotField) : List UInt64 :=
  match slot.type.kind with
  | .struct | .list => slot.type.references
  | _ => []

def Field.references (f : Field) : List UInt64 :=
  match f.body with
  | .slot slot => slot.references
  | .group _ => []

/-- The declarations that the bindings of a constant name. Unlike a slot, an enumerant is named by
its enum. -/
def ConstInfo.references (c : ConstInfo) : List UInt64 :=
  match c.type.kind with
  | .struct | .list | .enum => c.type.references
  | _ => []

/-- The declarations that the bindings of a node name, its nested nodes and groups left out. -/
def Node.references (n : Node) : List UInt64 :=
  match n.kind, n.struct?, n.const? with
  | .structNode, some s, _ => s.fields.flatMap Field.references
  | .constNode, _, some c => c.references
  | _, _, _ => []

/-- A type of listed kinds in which every list has an element type. -/
def TypeRef.IsProper : TypeRef → Prop
  | plain kind _ => kind ∈ Kind.listed ∧ kind ≠ .list
  | listOf element => element.IsProper

theorem TypeRef.IsProper.kind_listed {t : TypeRef} (h : t.IsProper) : t.kind ∈ Kind.listed := by
  cases t with
  | plain kind typeId => exact h.1
  | listOf element => simp [TypeRef.kind, Kind.listed]

/-- A struct and a constant have their payloads, and the types in them are proper. -/
structure Node.Complete (n : Node) : Prop where
  struct : n.kind = .structNode → ∃ s, n.struct? = some s ∧
    ∀ f ∈ s.fields, ∀ slot, f.body = .slot slot → slot.type.IsProper
  const : n.kind = .constNode → ∃ c, n.const? = some c ∧ c.type.IsProper

namespace Graph

/-- `m` is the scope of the nested node `n`. -/
def ScopedIn (g : Graph) (n m : Node) : Prop :=
  n.scopeId ≠ 0 ∧ g.find? n.scopeId = some m

/-- The scopes around a node end at one without scope, and each lists the node inside it. -/
inductive ScopeChain (g : Graph) : Node → Prop where
  | top {n : Node} (h : n.scopeId = 0) : ScopeChain g n
  | nested {n scope : Node} (hs : g.ScopedIn n scope) (hl : ∃ entry ∈ scope.nested, entry.id = n.id)
      (hc : ScopeChain g scope) : ScopeChain g n

/-- An id stands for a node that can be named. -/
def Resolves (g : Graph) (id : UInt64) : Prop :=
  ∃ n, g.find? id = some n ∧ g.ScopeChain n

/-- The links of a node lead where they should: nested entries and group fields to nodes other than
files, group fields to structs, and references to nodes that can be named. -/
structure WellLinked (g : Graph) (n : Node) : Prop where
  declared : ∀ id ∈ n.declared, ∃ m, g.find? id = some m ∧ m.kind ≠ .fileNode
  groups : ∀ group ∈ n.groups, ∀ m, g.find? group.2 = some m → m.kind = .structNode
  references : ∀ id ∈ n.references, g.Resolves id

/-- A group and the groups inside it are structs. -/
def GroupTree (g : Graph) (n : Node) : Prop :=
  ∀ m, ReflTransGen g.GroupOf n m →
    m.kind = .structNode ∧ ∀ group ∈ m.groups, ∃ k, g.find? group.2 = some k

/-- An id stands for such a group. -/
def IsGroup (g : Graph) (id : UInt64) : Prop :=
  ∃ n, g.find? id = some n ∧ g.GroupTree n

/-- All that is declared inside a node, over any number of levels, is well linked. -/
def WellLinkedBelow (g : Graph) (n : Node) : Prop :=
  ∀ m, ReflTransGen g.Declares n m → g.WellLinked m

/-- An id stands for a node that can be declared inside another, with all that is inside it. -/
def Declarable (g : Graph) (id : UInt64) : Prop :=
  ∃ n, g.find? id = some n ∧ n.kind ≠ .fileNode ∧ g.WellLinkedBelow n

variable {g : Graph} {n : Node}

theorem scopeChain_iff (h : n.scopeId ≠ 0) :
    g.ScopeChain n ↔ ∃ scope, g.find? n.scopeId = some scope ∧
      (∃ entry ∈ scope.nested, entry.id = n.id) ∧ g.ScopeChain scope := by
  constructor
  · intro hc
    cases hc with
    | top h0 => exact absurd h0 h
    | nested hs hl hc => exact ⟨_, hs.2, hl, hc⟩
  · rintro ⟨scope, hs, hl, hc⟩
    exact .nested ⟨h, hs⟩ hl hc

theorem groupTree_iff :
    g.GroupTree n ↔ n.kind = .structNode ∧ ∀ group ∈ n.groups, g.IsGroup group.2 := by
  constructor
  · intro h
    obtain ⟨hk, hg⟩ := h n .refl
    refine ⟨hk, fun group hgroup => ?_⟩
    obtain ⟨m, hm⟩ := hg group hgroup
    exact ⟨m, hm, fun k hk => h k (.head ⟨group, hgroup, hm⟩ hk)⟩
  · rintro ⟨hk, hg⟩ m hm
    rcases ReflTransGen.cases_head hm with rfl | ⟨k, ⟨group, hgroup, hfind⟩, hm⟩
    · refine ⟨hk, fun group hgroup => ?_⟩
      obtain ⟨k, hfind, -⟩ := hg group hgroup
      exact ⟨k, hfind⟩
    · obtain ⟨k', hfind', htree⟩ := hg group hgroup
      cases hfind.symm.trans hfind'
      exact htree m hm

theorem WellLinkedBelow.step {m : Node} (h : g.WellLinkedBelow n) (hm : g.Declares n m) :
    g.WellLinkedBelow m :=
  fun k hk => h k (.head hm hk)

/-- The groups of a well-linked struct are structs throughout. -/
theorem WellLinkedBelow.groupTree {m : Node} (h : g.WellLinkedBelow n) (hm : g.GroupOf n m) :
    g.GroupTree m := by
  have hstruct : ∀ {n m : Node}, g.WellLinkedBelow n → g.GroupOf n m → m.kind = .structNode := by
    rintro n m h ⟨group, hgroup, hfind⟩
    exact (h n .refl).groups group hgroup m hfind
  have hbelow : ∀ k, ReflTransGen g.GroupOf m k → g.WellLinkedBelow k ∧ k.kind = .structNode := by
    intro k hk
    induction hk with
    | refl => exact ⟨h.step hm.declares, hstruct h hm⟩
    | tail _ hstep ih => exact ⟨ih.1.step hstep.declares, hstruct ih.1 hstep⟩
  intro k hk
  refine ⟨(hbelow k hk).2, fun group hgroup => ?_⟩
  obtain ⟨l, hl, -⟩ := ((hbelow k hk).1 k .refl).declared group.2
    (List.mem_append_right _ (List.mem_map_of_mem hgroup))
  exact ⟨l, hl⟩

/-- Well-linkedness below a node, from what is declared in it. -/
theorem wellLinkedBelow_iff :
    g.WellLinkedBelow n ↔
      (∀ entry ∈ n.nested, g.Declarable entry.id) ∧ (∀ group ∈ n.groups, g.Declarable group.2) ∧
      (∀ id ∈ n.references, g.Resolves id) ∧ ∀ group ∈ n.groups, g.IsGroup group.2 := by
  constructor
  · intro h
    have hdecl : ∀ id ∈ n.declared, g.Declarable id := by
      intro id hid
      obtain ⟨m, hm, hk⟩ := (h n .refl).declared id hid
      exact ⟨m, hm, hk, h.step ⟨id, hid, hm⟩⟩
    have hgroup : ∀ group ∈ n.groups, g.Declarable group.2 := fun group hg =>
      hdecl _ (List.mem_append_right _ (List.mem_map_of_mem hg))
    refine ⟨fun entry he => hdecl _ (List.mem_append_left _ (List.mem_map_of_mem he)), hgroup,
      (h n .refl).references, fun group hg => ?_⟩
    obtain ⟨m, hm, -⟩ := hgroup group hg
    exact ⟨m, hm, h.groupTree ⟨group, hg, hm⟩⟩
  · rintro ⟨hnested, hgroups, hrefs, htrees⟩
    have hdecl : ∀ id ∈ n.declared, g.Declarable id := by
      intro id hid
      rcases List.mem_append.1 hid with hid | hid
      · obtain ⟨entry, he, rfl⟩ := List.mem_map.1 hid
        exact hnested entry he
      · obtain ⟨group, hg, rfl⟩ := List.mem_map.1 hid
        exact hgroups group hg
    intro k hk
    rcases ReflTransGen.cases_head hk with rfl | ⟨m, ⟨id, hid, hm⟩, hk⟩
    · refine ⟨fun id hid => ?_, fun group hg m hm => ?_, hrefs⟩
      · obtain ⟨m, hm, hfile, -⟩ := hdecl id hid
        exact ⟨m, hm, hfile⟩
      · obtain ⟨m', hm', htree⟩ := htrees group hg
        cases hm.symm.trans hm'
        exact (htree m .refl).1
    · obtain ⟨m', hm', -, hbelow⟩ := hdecl id hid
      cases hm.symm.trans hm'
      exact hbelow k hk

end Graph
end SchemaBindings.Schema
