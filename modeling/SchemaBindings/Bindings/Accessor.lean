import SchemaBindings.Bindings.Code
import SchemaBindings.Layout.Slot
import SchemaBindings.Schema.Node

namespace SchemaBindings.Bindings

open SchemaBindings.Schema SchemaBindings.Layout SchemaBindings.Text

/-- What an accessor is called before the name of its field. -/
inductive Verb where
  | has
  | get
  | set
  | init
  | adopt
  | disown
  deriving DecidableEq, Repr

namespace Verb

def text : Verb → String
  | has => "has"
  | get => "get"
  | set => "set"
  | init => "init"
  | adopt => "adopt"
  | disown => "disown"

/-- The accessors that a reader offers too. -/
def isReading : Verb → Bool
  | has | get => true
  | _ => false

end Verb

/-- Membership in a union: the member's tag and where the struct keeps the active tag. -/
structure UnionTag where
  value : UInt16
  offset : UInt32
  deriving DecidableEq, Repr

namespace UnionTag

def ofField? (s : StructInfo) (f : Field) : Option UnionTag :=
  if f.inUnion then some ⟨f.discriminant, s.discriminantOffset⟩ else none

def inactiveMemberError : String :=
  "Must check which() before get()ing a union member."

/-- The statement before an accessor's own: a presence test of an inactive member answers false, a
read of it fails, and a write makes it the active one. -/
def guard (t : UnionTag) : Verb → Statement
  | .has => .answerFalseUnless t.value
  | .get | .disown => .failUnless t.value inactiveMemberError
  | .set | .init | .adopt =>
    .perform (.storage .builder (.setData "uint16" false) t.offset.toNat
      [.scalar (.number t.value.toNat)])

end UnionTag

/-- How the value behind a pointer is accessed. -/
inductive PointerShape where
  | text
  | data
  | struct (type : TypeExpr)
  | list (type : TypeExpr)
  | any
  deriving DecidableEq, Repr

/-- A pointer default: the encoded form of a node from a byte on, and a size for blobs. -/
structure PointerDefault where
  nodeId : UInt64
  byteOffset : Nat
  size? : Option Nat
  deriving DecidableEq, Repr

def PointerDefault.arguments (d : PointerDefault) : List Argument :=
  .embedded d.nodeId d.byteOffset :: d.size?.toList.map .count

/-- What an accessor does once its guard has passed. -/
inductive Operation where
  | nothing
  | answerFalse
  | answerUndefined
  | testData (kind : Kind) (offset : UInt32)
  | readData (kind : Kind) (offset : UInt32) (mask? : Option Mask)
  | writeData (kind : Kind) (offset : UInt32) (mask? : Option Mask)
  | testPointer (index : UInt32)
  | readPointer (shape : PointerShape) (index : UInt32) (default? : Option PointerDefault)
  | writePointer (shape : PointerShape) (index : UInt32)
  | initPointer (shape : PointerShape) (index : UInt32)
  | adoptPointer (shape : PointerShape) (index : UInt32)
  | disownPointer (shape : PointerShape) (index : UInt32)
  | testSlots (slots : List Slot)
  | viewGroup (type : String)
  | clearSlots (slots : List Slot) (type : String)
  deriving DecidableEq, Repr

def suffixOf (kind : Kind) : String :=
  (accessorSuffix? kind).getD ""

/-- The presence test of one slot. -/
def slotTest (view : View) (s : Slot) : Test :=
  match s.place with
  | .pointers => ⟨true, .storage view .isPointerNull s.offset.toNat []⟩
  | _ => ⟨false, .storage view (.hasData (suffixOf s.kind)) s.offset.toNat []⟩

/-- The statement that resets one slot to zero. -/
def slotClear (s : Slot) : Statement :=
  match s.place with
  | .pointers => .perform (.storage .builder .clearPointer s.offset.toNat [])
  | _ =>
    .perform (.storage .builder (.setData (suffixOf s.kind) false) s.offset.toNat
      [.scalar (zeroScalar s.kind)])

def maskArguments (mask? : Option Mask) : List Argument :=
  mask?.toList.map .scalar

namespace PointerShape

/-- The class of the value; that of an untyped pointer comes from the caller. -/
def typeExpr : PointerShape → TypeExpr
  | text => .runtime "capnp.blob.Text"
  | data => .runtime "capnp.blob.Data"
  | struct type | list type => type
  | any => .untyped

def type : PointerShape → Argument
  | any => .given "type"
  | shape => .classOf shape.typeExpr

/-- The start of the names of the helpers for a shape. -/
def helperName : PointerShape → String
  | text => "textBlob"
  | data => "dataBlob"
  | struct _ => "struct"
  | list _ => "list"
  | any => "object"

/-- The class that helpers for a shape are handed; those for blobs need none. -/
def helperType? : PointerShape → Option Argument
  | text | data => none
  | shape => some shape.type

def readAnswer (view : View) (index : Nat) (initial : List Argument) : PointerShape → Answer
  | struct type =>
    let size := match view with
      | .reader => []
      | .builder => [.sizeOf type]
    .structView type view (.storage view .getStruct index (size ++ initial))
  | any =>
    .result (.pointer (.helper ("objectGetFrom" ++ view.className)) (some (.given "type")) view
      index initial)
  | shape =>
    .result (.pointer (.classMethod shape.typeExpr ("get" ++ view.className)) none view index
      initial)

def writeCall (index : Nat) (shape : PointerShape) : Call :=
  .pointer (.helper (shape.helperName ++ "Set")) shape.helperType? .builder index [.given "value"]

def initAnswer (index : Nat) : PointerShape → Answer
  | struct type => .structView type .builder (.storage .builder .initStruct index [.sizeOf type])
  | list type =>
    .result (.pointer (.helper "listInit") (some (.classOf type)) .builder index [.given "size"])
  | any => .result (.pointer (.helper "objectInit") none .builder index [.given "arguments"])
  | shape =>
    .result (.pointer (.classMethod shape.typeExpr "initBuilder") none .builder index
      [.given "size"])

def adoptCall (index : Nat) : PointerShape → Call
  | any =>
    .pointer (.helper "objectAdopt") (some (.given "type")) .builder index [.given "value"]
  | shape => .pointer (.helper "structAdopt") (some shape.type) .builder index [.given "value"]

def disownCall (index : Nat) (shape : PointerShape) : Call :=
  .pointer (.helper (shape.helperName ++ "Disown")) shape.helperType? .builder index []

end PointerShape

namespace Operation

/-- The parameters of the accessor. An untyped pointer takes the class from the caller. -/
def parameters : Operation → String
  | nothing | writeData .. => "value"
  | readPointer .any .. | disownPointer .any .. | initPointer .any .. => "type"
  | writePointer .any .. | adoptPointer .any .. => "type, value"
  | writePointer .. | adoptPointer .. => "value"
  | initPointer (.struct _) .. => ""
  | initPointer .. => "size"
  | _ => ""

/-- The statements of an accessor behind its guard. -/
def statements (view : View) : Operation → List Statement
  | nothing => []
  | answerFalse => [.answer (.anyOf [])]
  | answerUndefined => [.answer .undefined]
  | testData kind offset =>
    [.answer (.anyOf [⟨false, .storage view (.hasData (suffixOf kind)) offset.toNat []⟩])]
  | readData kind offset mask? =>
    [.answer (.result (.storage view (.getData (suffixOf kind) mask?.isSome) offset.toNat
      (maskArguments mask?)))]
  | writeData kind offset mask? =>
    [.perform (.storage .builder (.setData (suffixOf kind) mask?.isSome) offset.toNat
      (.given "value" :: maskArguments mask?))]
  | testPointer index => [.answer (.anyOf [⟨true, .storage view .isPointerNull index.toNat []⟩])]
  | readPointer shape index default? =>
    [.answer (shape.readAnswer view index.toNat
      ((default?.map PointerDefault.arguments).getD []))]
  | writePointer shape index => [.perform (shape.writeCall index.toNat)]
  | initPointer shape index => [.answer (shape.initAnswer index.toNat)]
  | adoptPointer shape index => [.perform (shape.adoptCall index.toNat)]
  | disownPointer shape index => [.answer (.result (shape.disownCall index.toNat))]
  | testSlots slots => [.answer (.anyOf (slots.map (slotTest view)))]
  | viewGroup type => [.answer (.groupView type view)]
  | clearSlots slots type => slots.map slotClear ++ [.answer (.groupView type .builder)]

/-- The text between the braces of an accessor. Accessors that go through all slots of a group take
more than a line. -/
def layout (depth : Nat) (statements : List String) : Operation → String
  | testSlots _ =>
    "\n" ++ indent (depth + 1) ++ String.intercalate " " statements ++ "\n" ++ indent depth
  | clearSlots .. =>
    "\n" ++ String.join (statements.map fun s => indent (depth + 1) ++ s ++ "\n") ++ indent depth
  | _ => " " ++ String.join (statements.map (· ++ " "))

end Operation

/-- The accessors of one field. A field without any, such as a capability, has no predicate
either. -/
structure FieldBindings where
  scope : String
  name : String
  tag? : Option UnionTag
  accessors : List (Verb × Operation)
  deriving DecidableEq, Repr

namespace FieldBindings

/-- What an accessor runs: its guard, if the field is in a union, and then its own statements. -/
def body (b : FieldBindings) (view : View) (verb : Verb) (operation : Operation) :
    List Statement :=
  (b.tag?.map fun tag => tag.guard verb).toList ++ operation.statements view

def accessorText (b : FieldBindings) (view : View) (depth : Nat) (verb : Verb)
    (operation : Operation) : String :=
  indent depth ++ "this." ++ verb.text ++ titleCase b.name ++ " = function("
    ++ operation.parameters ++ ") \x7b"
    ++ operation.layout depth ((b.body view verb operation).map (Statement.text (depth + 1)))
    ++ "\x7d;\n"

/-- The predicate that tells whether a union member is the active one. -/
def predicateText (b : FieldBindings) (depth : Nat) : String :=
  if b.tag?.isNone then ""
  else
    indent depth ++ "this.is" ++ titleCase b.name
      ++ " = function() \x7b return this.which() === " ++ b.scope ++ "." ++ upperSnake b.name
      ++ "; \x7d;\n"

/-- The accessors that a view offers. -/
def accessorsOf (b : FieldBindings) : View → List (Verb × Operation)
  | .reader => b.accessors.filter fun a => a.1.isReading
  | .builder => b.accessors

def text (b : FieldBindings) (view : View) (depth : Nat) : String :=
  if b.accessors.isEmpty then ""
  else
    b.predicateText depth
      ++ String.join ((b.accessorsOf view).map fun a => b.accessorText view depth a.1 a.2)

end FieldBindings

end SchemaBindings.Bindings
