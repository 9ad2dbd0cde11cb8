import SchemaBindings.Schema.Failure
import SchemaBindings.Schema.Node

namespace SchemaBindings.Schema

/-- Nodes that can be told apart by their ids. -/
structure Graph where
  nodes : List Node
  distinct : (nodes.map Node.id).Nodup

namespace Graph

/-- The first id that has occurred before. -/
def firstRepeated (seen : List UInt64) : List Node → Option UInt64
  | [] => none
  | n :: ns => if n.id ∈ seen then some n.id else firstRepeated (n.id :: seen) ns

theorem firstRepeated_eq_none_iff (seen : List UInt64) (ns : List Node) :
    firstRepeated seen ns = none ↔
      (ns.map Node.id).Nodup ∧ ∀ n ∈ ns, n.id ∉ seen := by
  induction ns generalizing seen with
  | nil => simp [firstRepeated]
  | cons n ns ih =>
    by_cases h : n.id ∈ seen
    · simp [firstRepeated, h]
    · simp only [firstRepeated, h, if_false, ih, List.map_cons, List.nodup_cons, List.mem_cons,
        List.mem_map, not_or, forall_eq_or_imp, not_false_eq_true, true_and]
      constructor
      · rintro ⟨hd, hs⟩
        exact ⟨⟨by rintro ⟨m, hm, he⟩; exact (hs m hm).1 he, hd⟩, fun m hm => (hs m hm).2⟩
      · rintro ⟨⟨hn, hd⟩, hs⟩
        exact ⟨hd, fun m hm => ⟨fun he => hn ⟨m, hm, he⟩, hs m hm⟩⟩

/-- Indexes nodes by id; a repeated id is an error. -/
def ofNodes (nodes : List Node) : Except Failure Graph :=
  match h : firstRepeated [] nodes with
  | some id => .error (.ofCause (.duplicateNode id))
  | none => .ok ⟨nodes, ((firstRepeated_eq_none_iff [] nodes).1 h).1⟩

def size (g : Graph) : Nat :=
  g.nodes.length

def find? (g : Graph) (id : UInt64) : Option Node :=
  g.nodes.find? fun n => n.id == id

def find (g : Graph) (id : UInt64) : Except Failure Node :=
  match g.find? id with
  | some n => .ok n
  | none => .error (.ofCause (.unknownNode id))

/-- The scope of a nested node and the name under which it declares the node. -/
def scopedName (g : Graph) (n : Node) : Except Failure (Node × String) := do
  let scope ← (g.find n.scopeId).mapError (.within (.scopeOf n.displayName))
  match scope.nestedName? n.id with
  | some name => .ok (scope, name)
  | none => .error (.ofCause (.scopeMismatch n.displayName n.id scope.displayName scope.id))

/-- No chain of distinct nodes is longer than this. -/
def depthBound (g : Graph) : Nat :=
  g.size + 1

end Graph

end SchemaBindings.Schema
