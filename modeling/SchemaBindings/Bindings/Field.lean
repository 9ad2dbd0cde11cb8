import SchemaBindings.Bindings.Accessor
import SchemaBindings.Bindings.Resolve
import SchemaBindings.Layout.Occupancy

namespace SchemaBindings.Bindings

open SchemaBindings.Schema SchemaBindings.Layout

/-- The default of a pointer field, kept in the encoded form of the declaring node. -/
def pointerDefault? (nodeId : UInt64) (slot : SlotField) (sized : Bool) : Option PointerDefault :=
  if slot.default.isZero then none
  else some
    { nodeId := nodeId
      byteOffset := slot.defaultOffset.toNat * 8
      size? := if sized && slot.default.size != 0 then some slot.default.size else none }

def voidAccessors : List (Verb × Operation) :=
  [(.has, .answerFalse), (.get, .answerUndefined), (.set, .nothing)]

def dataAccessors (slot : SlotField) : List (Verb × Operation) :=
  let mask? := defaultMask? slot.default
  [(.has, .testData slot.type.kind slot.offset),
    (.get, .readData slot.type.kind slot.offset mask?),
    (.set, .writeData slot.type.kind slot.offset mask?)]

def pointerAccessors (shape : PointerShape) (index : UInt32) (default? : Option PointerDefault) :
    List (Verb × Operation) :=
  [(.has, .testPointer index), (.get, .readPointer shape index default?),
    (.set, .writePointer shape index), (.init, .initPointer shape index),
    (.adopt, .adoptPointer shape index), (.disown, .disownPointer shape index)]

def groupAccessors (type : String) (slots : List Slot) : List (Verb × Operation) :=
  [(.has, .testSlots slots), (.get, .viewGroup type), (.init, .clearSlots slots type)]

/-- The accessors of a slot field, by the kind of its type. Capabilities have none. -/
def slotAccessors (nodeId : UInt64) (slot : SlotField) : Generation (List (Verb × Operation)) :=
  match slot.type.kind with
  | .void => return voidAccessors
  | .text => return pointerAccessors .text slot.offset (pointerDefault? nodeId slot true)
  | .data => return pointerAccessors .data slot.offset (pointerDefault? nodeId slot true)
  | .struct => do
    let type ← typeExpr slot.type
    return pointerAccessors (.struct type) slot.offset (pointerDefault? nodeId slot false)
  | .list => do
    let type ← typeExpr slot.type
    return pointerAccessors (.list type) slot.offset (pointerDefault? nodeId slot false)
  | .interface => return []
  | .anyPointer => return pointerAccessors .any slot.offset (pointerDefault? nodeId slot false)
  | kind =>
    if (accessorSuffix? kind).isSome then return dataAccessors slot
    else .fail (.noDataAccessor kind)

/-- The bindings of a field of the struct `s`, which the node with the given id declares. A group's
class is declared inside `scope` under the title-cased field name. -/
def fieldBindings (scope : String) (nodeId : UInt64) (s : StructInfo) (f : Field) :
    Generation FieldBindings :=
  .within (.field f.name) do
    let accessors ← (match f.body with
      | .slot slot => slotAccessors nodeId slot
      | .group id => do
        let group ← Generation.find id
        let slots ← Generation.ofExcept (occupied (← read).graph group)
        return groupAccessors (scope ++ "." ++ titleCase f.name) slots)
    return ⟨scope, f.name, UnionTag.ofField? s f, accessors⟩

/-- Whether a field has accessors; capabilities have none. -/
def hasAccessors (f : Field) : Bool :=
  match f.body with
  | .slot slot => slot.type.kind != .interface
  | .group _ => true

end SchemaBindings.Bindings
