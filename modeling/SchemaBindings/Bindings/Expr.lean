import SchemaBindings.Bindings.Name
import SchemaBindings.Number.Written
import SchemaBindings.Schema.Kind

namespace SchemaBindings.Bindings

open SchemaBindings.Text SchemaBindings.Number SchemaBindings.Schema

/-- The head of a qualified name: the file being generated, another file under its local name, or
a file under the name it is provided as. -/
inductive Root where
  | own
  | foreign (fileId : UInt64)
  | provided (fileId : UInt64)
  deriving DecidableEq, Repr

def Root.text : Root → String
  | own => "module"
  | foreign fileId => importName fileId
  | provided fileId => moduleName fileId

/-- A declaration, named by the path that leads to it from a file. -/
structure QualifiedName where
  root : Root
  path : List String
  deriving DecidableEq, Repr

namespace QualifiedName

def child (q : QualifiedName) (name : String) : QualifiedName :=
  ⟨q.root, q.path ++ [name]⟩

def text (q : QualifiedName) : String :=
  q.path.foldl (fun text name => text ++ "." ++ name) q.root.text

end QualifiedName

/-- The runtime's list classes, chosen by the kind of the elements. -/
inductive ListClass where
  | primitives
  | blobs
  | enums
  | structs
  | lists
  deriving DecidableEq, Repr

def ListClass.text : ListClass → String
  | primitives => "capnp.list.ListOfPrimitives"
  | blobs => "capnp.list.ListOfBlobs"
  | enums => "capnp.list.ListOfEnums"
  | structs => "capnp.list.ListOfStructs"
  | lists => "capnp.list.ListOfLists"

def ListClass.ofElement : Kind → ListClass
  | .text | .data => blobs
  | .struct | .interface | .anyPointer => structs
  | .list => lists
  | .enum => enums
  | _ => primitives

/-- The runtime's class for a scalar or blob. -/
def runtimeClass? : Kind → Option String
  | .void => some "capnp.prim.Void"
  | .bool => some "capnp.prim.bool"
  | .int8 => some "capnp.prim.int8_t"
  | .int16 => some "capnp.prim.int16_t"
  | .int32 => some "capnp.prim.int32_t"
  | .int64 => some "capnp.prim.int64_t"
  | .uint8 => some "capnp.prim.uint8_t"
  | .uint16 => some "capnp.prim.uint16_t"
  | .uint32 => some "capnp.prim.uint32_t"
  | .uint64 => some "capnp.prim.uint64_t"
  | .float32 => some "capnp.prim.float32_t"
  | .float64 => some "capnp.prim.float64_t"
  | .text => some "capnp.blob.Text"
  | .data => some "capnp.blob.Data"
  | _ => none

/-- The class that accessors of a type work with. The class of an untyped pointer comes from the
caller, so its expression is empty. -/
inductive TypeExpr where
  | runtime (name : String)
  | declared (name : QualifiedName)
  | list (of : ListClass) (element : TypeExpr)
  | untyped
  deriving DecidableEq, Repr

def TypeExpr.text : TypeExpr → String
  | runtime name => name
  | declared name => name.text
  | list of element => of.text ++ "(" ++ element.text ++ ")"
  | untyped => ""

/-- The two halves of a 64-bit number: the upper one keeps the sign, the lower one has none. -/
structure WordPair where
  high : Int
  low : Nat
  deriving DecidableEq, Repr

namespace WordPair

def ofInt (i : Int) : WordPair :=
  ⟨i / (twoPow 32 : Int), (i % (twoPow 32 : Int)).toNat⟩

def text (p : WordPair) : String :=
  "[" ++ signedDecimal p.high ++ ", " ++ decimal p.low ++ "]"

end WordPair

/-- The value of a scalar constant. -/
inductive Literal where
  | undefined
  | boolean (value : Bool)
  | integer (value : Int)
  | words (value : WordPair)
  | single (value : Double)
  | double (value : Double)
  | enumerant (type : QualifiedName) (key : String)
  deriving DecidableEq, Repr

/-- NaN and the infinities have names; every other number is written with the fewest digits that
read back as it. -/
def realText (format : BinaryFormat) (pattern : Nat) (x : Double) : String :=
  if x.isNaN then "NaN"
  else if x.isInfinite then (if x.isNegative then "-Infinity" else "Infinity")
  else format.text pattern

def Literal.text : Literal → String
  | undefined => "undefined"
  | boolean value => if value then "true" else "false"
  | integer value => signedDecimal value
  | words value => value.text
  | single value => realText binary32 value.narrow value
  | double value => realText binary64 value.pattern value
  | enumerant type key => type.text ++ "." ++ key

end SchemaBindings.Bindings
