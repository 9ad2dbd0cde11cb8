import SchemaBindings.Bindings.Mask
import SchemaBindings.Text.Quoted

namespace SchemaBindings.Bindings

open SchemaBindings.Text

/-- The two classes generated for a struct: one only reads storage, the other also writes it. -/
inductive View where
  | reader
  | builder
  deriving DecidableEq, Repr

namespace View

/-- The variable that holds the view's storage. -/
def storage : View → String
  | reader => "_reader"
  | builder => "_builder"

def className : View → String
  | reader => "Reader"
  | builder => "Builder"

end View

/-- The methods of storage. `type` selects one of a family of data accessors. -/
inductive StorageMethod where
  | hasData (type : String)
  | getData (type : String) (masked : Bool)
  | setData (type : String) (masked : Bool)
  | isPointerNull
  | clearPointer
  | getStruct
  | initStruct
  deriving DecidableEq, Repr

def StorageMethod.text : StorageMethod → String
  | hasData type => "hasDataField_" ++ type
  | getData type masked => "getDataField_" ++ type ++ (if masked then "_masked" else "")
  | setData type masked => "setDataField_" ++ type ++ (if masked then "_masked" else "")
  | isPointerNull => "isPointerFieldNull"
  | clearPointer => "clearPointerField"
  | getStruct => "getStructField"
  | initStruct => "initStructField"

/-- What is handed to a call. `given` is an argument of the accessor, `embedded` the encoded form of
a node from a byte on. -/
inductive Argument where
  | given (name : String)
  | scalar (value : Scalar)
  | count (value : Nat)
  | embedded (nodeId : UInt64) (byteOffset : Nat)
  | classOf (type : TypeExpr)
  | sizeOf (type : TypeExpr)
  deriving DecidableEq, Repr

def Argument.text : Argument → String
  | given name => name
  | scalar value => value.text
  | count value => decimal value
  | embedded nodeId byteOffset =>
    schemaRef nodeId ++ ".slice(" ++ decimal byteOffset ++ ")"
  | classOf type => type.text
  | sizeOf type => type.text ++ ".STRUCT_SIZE"

/-- A function that works on a pointer of the storage it is handed. -/
inductive PointerFunction where
  | helper (name : String)
  | classMethod (type : TypeExpr) (name : String)
  deriving DecidableEq, Repr

def PointerFunction.text : PointerFunction → String
  | helper name => "capnp.genhelper." ++ name
  | classMethod type name => type.text ++ "." ++ name

/-- A call of the runtime on the storage of a view: a method of it, or a function that is handed the
storage and a pointer's index, behind the class to work with if it takes one. -/
inductive Call where
  | storage (view : View) (method : StorageMethod) (index : Nat) (rest : List Argument)
  | pointer (function : PointerFunction) (type? : Option Argument) (view : View) (index : Nat)
      (rest : List Argument)
  deriving DecidableEq, Repr

def Call.text : Call → String
  | storage view method index rest =>
    view.storage ++ "." ++ method.text ++ "("
      ++ String.intercalate ", " (decimal index :: rest.map Argument.text) ++ ")"
  | pointer function type? view index rest =>
    function.text ++ "("
      ++ String.intercalate ", " ((type?.toList.map Argument.text)
          ++ view.storage :: decimal index :: rest.map Argument.text) ++ ")"

/-- A call that answers true or false, or the opposite of what it answers. -/
structure Test where
  negated : Bool
  call : Call
  deriving DecidableEq, Repr

def Test.text (t : Test) : String :=
  (if t.negated then "!" else "") ++ t.call.text

/-- What an accessor returns. -/
inductive Answer where
  | undefined
  | anyOf (tests : List Test)
  | result (call : Call)
  | structView (type : TypeExpr) (view : View) (call : Call)
  | groupView (type : String) (view : View)
  deriving DecidableEq, Repr

/-- Each test after the first stands on a line of its own; `depth` is that of the statement. -/
def Answer.text (depth : Nat) : Answer → String
  | undefined => "undefined"
  | anyOf tests =>
    if tests.isEmpty then "false"
    else String.intercalate ("\n" ++ indent depth ++ "    || ") (tests.map Test.text)
  | result call => call.text
  | structView type view call =>
    "new " ++ type.text ++ "." ++ view.className ++ "(" ++ call.text ++ ")"
  | groupView type view => "new " ++ type ++ "." ++ view.className ++ "(" ++ view.storage ++ ")"

/-- A statement of an accessor. The last two end it unless the union member with the given tag is
the active one. -/
inductive Statement where
  | perform (call : Call)
  | answer (value : Answer)
  | answerFalseUnless (tag : UInt16)
  | failUnless (tag : UInt16) (message : String)
  deriving DecidableEq, Repr

def Statement.text (depth : Nat) : Statement → String
  | perform call => call.text ++ ";"
  | answer value => "return " ++ value.text depth ++ ";"
  | answerFalseUnless tag => "if (this.which() !== " ++ decimal tag.toNat ++ ") return false;"
  | failUnless tag message =>
    "if (this.which() !== " ++ decimal tag.toNat ++ ") throw new Error(" ++ quote message ++ ");"

end SchemaBindings.Bindings
