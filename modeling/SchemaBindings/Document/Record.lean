import SchemaBindings.Number.Binary

namespace SchemaBindings.Document

open SchemaBindings.Number

/-- A type as written: the element type and the id are independent of the kind's name. -/
inductive TypeRecord where
  | leaf (kind : String) (typeId : UInt64)
  | containing (kind : String) (typeId : UInt64) (element : TypeRecord)
  deriving DecidableEq, Repr

namespace TypeRecord

def empty : TypeRecord := leaf "" 0

instance : Inhabited TypeRecord := ⟨empty⟩

def kind : TypeRecord → String
  | leaf kind _ => kind
  | containing kind _ _ => kind

def typeId : TypeRecord → UInt64
  | leaf _ typeId => typeId
  | containing _ typeId _ => typeId

def element? : TypeRecord → Option TypeRecord
  | leaf .. => none
  | containing _ _ element => some element

def make (kind : String) (typeId : UInt64) : Option TypeRecord → TypeRecord
  | none => leaf kind typeId
  | some element => containing kind typeId element

end TypeRecord

structure ValueRecord where
  kind : String
  bool : Bool
  int : Int64
  uint : UInt64
  float : Double
  floatBits? : Option UInt64
  enum : UInt16
  text : String
  data : String
  present : Bool
  deriving DecidableEq, Repr, Inhabited

structure SlotRecord where
  offset : UInt32
  type : TypeRecord
  default? : Option ValueRecord
  defaultOffset : UInt32
  deriving DecidableEq, Repr, Inhabited

/-- A field as written; `groupId?` is the node of a group field. -/
structure FieldRecord where
  name : String
  codeOrder : UInt16
  discriminant? : Option UInt16
  slot? : Option SlotRecord
  groupId? : Option UInt64
  deriving DecidableEq, Repr, Inhabited

structure StructRecord where
  dataWords : UInt16
  pointers : UInt16
  listEncoding : UInt16
  isGroup : Bool
  discriminantCount : UInt16
  discriminantOffset : UInt32
  fields : List FieldRecord
  deriving DecidableEq, Repr, Inhabited

/-- An enumerant or a method. -/
structure MemberRecord where
  name : String
  codeOrder : UInt16
  deriving DecidableEq, Repr, Inhabited

structure ConstRecord where
  type : TypeRecord
  value : ValueRecord
  valueOffset : UInt32
  deriving DecidableEq, Repr, Inhabited

structure NamedRecord where
  name : String
  id : UInt64
  deriving DecidableEq, Repr, Inhabited

structure AnnotationRecord where
  id : UInt64
  text : String
  deriving DecidableEq, Repr, Inhabited

/-- A node as written. An enum payload holds its list of enumerants, which may be absent from it. -/
structure NodeRecord where
  id : UInt64
  kind : String
  displayName : String
  prefixLength : Int64
  scopeId : UInt64
  encoded : String
  nested : List NamedRecord
  annotations : List AnnotationRecord
  struct? : Option StructRecord
  enum? : Option (Option (List MemberRecord))
  interface? : Option (List MemberRecord)
  const? : Option ConstRecord
  deriving DecidableEq, Repr, Inhabited

structure FileRecord where
  id : UInt64
  filename : String
  imports : List NamedRecord
  deriving DecidableEq, Repr, Inhabited

end SchemaBindings.Document

namespace SchemaBindings

/-- A request as written; a list that is absent differs from an empty one. -/
structure Document where
  nodes? : Option (List Document.NodeRecord)
  files? : Option (List Document.FileRecord)
  deriving DecidableEq, Repr, Inhabited

end SchemaBindings
