import SchemaBindings.Schema.Kind
import SchemaBindings.Number.Binary

namespace SchemaBindings.Schema

open SchemaBindings.Number

/-- A reference to a type. `plain` is a type without element type; enums, structs and interfaces
are told apart by `typeId`. -/
inductive TypeRef where
  | plain (kind : Kind) (typeId : UInt64)
  | listOf (element : TypeRef)
  deriving DecidableEq, Repr, Inhabited

namespace TypeRef

def kind : TypeRef → Kind
  | plain kind _ => kind
  | listOf _ => .list

def typeId : TypeRef → UInt64
  | plain _ typeId => typeId
  | listOf _ => 0

def element? : TypeRef → Option TypeRef
  | plain .. => none
  | listOf element => some element

end TypeRef

/-- A default value or the value of a constant. The member that belongs to `kind` is the
meaningful one; `present` tells a non-null pointer. -/
structure Value where
  kind : Kind
  bool : Bool
  int : Int64
  uint : UInt64
  float : Double
  enum : UInt16
  text : String
  data : List UInt8
  present : Bool
  deriving DecidableEq, Repr, Inhabited

namespace Value

/-- The value of a kind when nothing is given. -/
def zero (kind : Kind) : Value :=
  ⟨kind, false, 0, 0, ⟨0⟩, 0, "", [], false⟩

/-- Whether the value is the one that zeroed storage holds; a pointer is zero when it is absent. -/
def isZero (v : Value) : Bool :=
  match v.kind with
  | .void => true
  | .bool => !v.bool
  | .int8 | .int16 | .int32 | .int64 => v.int == 0
  | .uint8 | .uint16 | .uint32 | .uint64 => v.uint == 0
  | .float32 | .float64 => v.float.isZero
  | .enum => v.enum == 0
  | _ => !v.present

/-- The number of bytes of a text or data value, zero for all others. -/
def size (v : Value) : Nat :=
  match v.kind with
  | .text => v.text.utf8ByteSize
  | .data => v.data.length
  | _ => 0

end Value

end SchemaBindings.Schema
