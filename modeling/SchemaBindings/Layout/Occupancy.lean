import SchemaBindings.Layout.Slot
import SchemaBindings.Schema.Graph

namespace SchemaBindings.Layout

open SchemaBindings.Schema

/-- The slot of a union's discriminant. -/
def discriminantSlots (s : StructInfo) : List Slot :=
  if s.hasUnion then [⟨.uint16, s.discriminantOffset⟩] else []

/-- The slot a field occupies itself; void fields occupy none. -/
def fieldSlots (f : SlotField) : List Slot :=
  if sectionOf f.type.kind = .none then [] else [⟨f.type.kind, f.offset⟩]

/-- The slots that a field of `owner` brings; a group brings those of its node. -/
def fieldCandidates (g : Graph) (owner : Node) (ofGroup : Node → Except Failure (List Slot))
    (f : Field) : Except Failure (List Slot) :=
  match f.body with
  | .slot slot => .ok (fieldSlots slot)
  | .group id => do
    ofGroup (← (g.find id).mapError (.within (.groupField owner.displayName f.name)))

/-- The slots of a struct, its discriminant first, then those of its fields in order. The depth
bounds how far groups may be nested. -/
def candidates (g : Graph) : Nat → Node → Except Failure (List Slot)
  | 0, _ => .error (.ofCause .endlessLinks)
  | depth + 1, n =>
    match n.kind, n.struct? with
    | .structNode, some s => do
      let fields ← s.fields.mapM (fieldCandidates g n (candidates g depth))
      return discriminantSlots s ++ fields.flatten
    | _, _ => .error ((Failure.ofCause (.noSlots n.kind)).within (.node n.displayName))

/-- Leaves out every slot that the slot kept before it contains. -/
def dropContained (last : Option Slot) : List Slot → List Slot
  | [] => []
  | s :: rest =>
    if last.any (·.contains s) then dropContained last rest
    else s :: dropContained (some s) rest

/-- The slots a struct and its groups occupy, in order, none of them inside another. Widths are
powers of two, so slots that overlap are nested, and the order puts the outer one first. -/
def occupied (g : Graph) (n : Node) : Except Failure (List Slot) := do
  let all ← candidates g g.depthBound n
  return dropContained none (all.mergeSort fun s o => !o.before s)

end SchemaBindings.Layout
