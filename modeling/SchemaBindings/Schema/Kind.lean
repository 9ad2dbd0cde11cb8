namespace SchemaBindings.Schema

/-- The shape of a type or value. A code outside the listed ones is kept as it is; its kind is
called unknown. -/
inductive Kind where
  | void
  | bool
  | int8
  | int16
  | int32
  | int64
  | uint8
  | uint16
  | uint32
  | uint64
  | float32
  | float64
  | text
  | data
  | list
  | enum
  | struct
  | interface
  | anyPointer
  | unlisted (code : Int) (outside : code < 0 ∨ 18 < code)
  deriving DecidableEq, Repr

namespace Kind

instance : Inhabited Kind := ⟨void⟩

/-- The listed kinds, each at the position of its code. -/
def listed : List Kind :=
  [void, bool, int8, int16, int32, int64, uint8, uint16, uint32, uint64, float32, float64,
    text, data, list, enum, struct, interface, anyPointer]

def code : Kind → Int
  | void => 0
  | bool => 1
  | int8 => 2
  | int16 => 3
  | int32 => 4
  | int64 => 5
  | uint8 => 6
  | uint16 => 7
  | uint32 => 8
  | uint64 => 9
  | float32 => 10
  | float64 => 11
  | text => 12
  | data => 13
  | list => 14
  | enum => 15
  | struct => 16
  | interface => 17
  | anyPointer => 18
  | unlisted code _ => code

def ofCode (code : Int) : Kind :=
  if outside : code < 0 ∨ 18 < code then unlisted code outside
  else listed.getD code.toNat void

def name : Kind → String
  | void => "void"
  | bool => "bool"
  | int8 => "int8"
  | int16 => "int16"
  | int32 => "int32"
  | int64 => "int64"
  | uint8 => "uint8"
  | uint16 => "uint16"
  | uint32 => "uint32"
  | uint64 => "uint64"
  | float32 => "float32"
  | float64 => "float64"
  | text => "text"
  | data => "data"
  | list => "list"
  | enum => "enum"
  | struct => "struct"
  | interface => "interface"
  | anyPointer => "anyPointer"
  | unlisted .. => "unknown"

/-- The kind with the given name; `object` is an older name of `anyPointer`. -/
def ofName? (s : String) : Option Kind :=
  if s = "object" then some anyPointer
  else listed.find? fun k => k.name = s

/-- Kinds whose values are reached through a pointer. -/
def isPointer : Kind → Bool
  | text | data | list | struct | interface | anyPointer => true
  | _ => false

end Kind

/-- Which payload a node carries. -/
inductive NodeKind where
  | fileNode
  | structNode
  | enumNode
  | interfaceNode
  | constNode
  | annotationNode
  | unlistedNode
  deriving DecidableEq, Repr, Inhabited

namespace NodeKind

/-- The listed node kinds, each at the position of its code. -/
def listed : List NodeKind :=
  [fileNode, structNode, enumNode, interfaceNode, constNode, annotationNode]

def ofCode (code : Int) : NodeKind :=
  if code < 0 then unlistedNode else listed.getD code.toNat unlistedNode

def name : NodeKind → String
  | fileNode => "file"
  | structNode => "struct"
  | enumNode => "enum"
  | interfaceNode => "interface"
  | constNode => "const"
  | annotationNode => "annotation"
  | unlistedNode => "unknown"

def ofName? (s : String) : Option NodeKind :=
  listed.find? fun k => k.name = s

end NodeKind

end SchemaBindings.Schema
