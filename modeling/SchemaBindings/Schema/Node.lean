import SchemaBindings.Schema.Value

namespace SchemaBindings.Schema

/-- The placement of a field inside its struct. The offset counts units of the type's own width,
or pointers; `defaultOffset` is where the node's encoded form holds a pointer default, in words. -/
structure SlotField where
  offset : UInt32
  type : TypeRef
  default : Value
  defaultOffset : UInt32
  deriving DecidableEq, Repr, Inhabited

inductive FieldBody where
  | slot (slot : SlotField)
  | group (id : UInt64)
  deriving DecidableEq, Repr, Inhabited

structure Field where
  name : String
  codeOrder : UInt16
  discriminant : UInt16
  body : FieldBody
  deriving DecidableEq, Repr, Inhabited

/-- The discriminant of fields outside a union. -/
def noDiscriminant : UInt16 := 0xffff

namespace Field

def inUnion (f : Field) : Bool :=
  f.discriminant != noDiscriminant

def groupId? (f : Field) : Option UInt64 :=
  match f.body with
  | .group id => some id
  | .slot _ => none

end Field

/-- The payload of a struct or group. Sizes are in words and pointers, the discriminant offset in
units of sixteen bits. -/
structure StructInfo where
  dataWords : UInt16
  pointers : UInt16
  listEncoding : UInt16
  isGroup : Bool
  discriminantCount : UInt16
  discriminantOffset : UInt32
  fields : List Field
  deriving DecidableEq, Repr, Inhabited

namespace StructInfo

def hasUnion (s : StructInfo) : Bool :=
  s.discriminantCount != 0

/-- The fields that are groups, in order, with the ids of their nodes. -/
def groups (s : StructInfo) : List (String × UInt64) :=
  s.fields.filterMap fun f => f.groupId?.map fun id => (f.name, id)

end StructInfo

/-- An enumerant or a method. -/
structure Member where
  name : String
  codeOrder : UInt16
  deriving DecidableEq, Repr, Inhabited

structure ConstInfo where
  type : TypeRef
  value : Value
  valueOffset : UInt32
  deriving DecidableEq, Repr, Inhabited

/-- A name for a node: in a scope that nests it, or in a file that imports it. -/
structure NamedId where
  name : String
  id : UInt64
  deriving DecidableEq, Repr, Inhabited

/-- A text attached to a node. -/
structure Annotated where
  id : UInt64
  text : String
  deriving DecidableEq, Repr, Inhabited

/-- A schema declaration. The payloads are independent of `kind`; a checked request sets exactly
the one that fits. -/
structure Node where
  id : UInt64
  kind : NodeKind
  displayName : String
  prefixLength : Int
  scopeId : UInt64
  nested : List NamedId
  annotations : List Annotated
  encoded : List UInt8
  struct? : Option StructInfo
  enumerants? : Option (List Member)
  methods? : Option (List Member)
  const? : Option ConstInfo
  deriving DecidableEq, Repr, Inhabited

namespace Node

/-- The bytes of the display name after its scope prefix, or of all of it when the prefix length
is no cut inside it. The cut may fall inside a character. -/
def shortName (n : Node) : List UInt8 :=
  let bytes := n.displayName.toUTF8.toList
  if 0 < n.prefixLength ∧ n.prefixLength ≤ bytes.length then bytes.drop n.prefixLength.toNat
  else bytes

/-- The text of the first annotation with the given id. -/
def annotationText? (n : Node) (id : UInt64) : Option String :=
  (n.annotations.find? fun a => a.id == id).map Annotated.text

/-- Nodes without an enclosing scope are files. -/
def isTopLevel (n : Node) : Bool :=
  n.scopeId == 0

/-- The name under which the node declares the node with the given id. -/
def nestedName? (n : Node) (id : UInt64) : Option String :=
  (n.nested.find? fun m => m.id == id).map NamedId.name

/-- The groups of the node, if it is a struct with its payload. -/
def groups (n : Node) : List (String × UInt64) :=
  match n.kind, n.struct? with
  | .structNode, some s => s.groups
  | _, _ => []

end Node

/-- A file selected for generation. -/
structure RequestedFile where
  id : UInt64
  filename : String
  imports : List NamedId
  deriving DecidableEq, Repr, Inhabited

structure Request where
  nodes : List Node
  files : List RequestedFile
  deriving DecidableEq, Repr, Inhabited

end SchemaBindings.Schema
