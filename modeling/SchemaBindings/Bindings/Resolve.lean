import SchemaBindings.Bindings.Expr
import SchemaBindings.Schema.Graph

namespace SchemaBindings.Bindings

open SchemaBindings.Schema

/-- The annotation that exports a file's bindings under a name of its own. Such a file is referred
to by the name it is provided as. -/
def namespaceAnnotationId : UInt64 := 0x8db73c0d097e6e8b

/-- What generating one file looks things up in. -/
structure FileContext where
  graph : Graph
  file : RequestedFile

/-- The other files that names have led into so far, each listed once. -/
abbrev UsedFiles := List UInt64

/-- A step of generating one file. The files used are kept also when the step fails. -/
abbrev Generation := ReaderT FileContext (ExceptT Failure (StateM UsedFiles))

namespace Generation

def run {α : Type} (step : Generation α) (context : FileContext) (used : UsedFiles) :
    Except Failure α × UsedFiles :=
  StateT.run (ExceptT.run (ReaderT.run step context)) used

def fail {α : Type} (cause : Cause) : Generation α :=
  throw (.ofCause cause)

/-- Names a place around the failures of a step. -/
def within {α : Type} (place : Place) (step : Generation α) : Generation α :=
  tryCatch step fun failure => throw (failure.within place)

def ofExcept {α : Type} : Except Failure α → Generation α
  | .ok a => pure a
  | .error failure => throw failure

def find (id : UInt64) : Generation Node := do
  ofExcept ((← read).graph.find id)

def markUsed (id : UInt64) : Generation Unit :=
  modify fun used => if id ∈ used then used else used ++ [id]

end Generation

/-- The name of a file in the file being generated. -/
def rootOf (context : FileContext) (n : Node) : Root :=
  if (n.annotationText? namespaceAnnotationId).isSome then .provided n.id
  else if n.id = context.file.id then .own
  else .foreign n.id

/-- The expression that names a node, found by going up its scopes to a file. Another file than
the one being generated is marked as used. The depth bounds how many scopes there may be. -/
def qualify : Nat → Node → Generation QualifiedName
  | 0, _ => .fail .endlessLinks
  | depth + 1, n => do
    let context ← read
    if n.isTopLevel then
      if n.id ≠ context.file.id then
        Generation.markUsed n.id
      return ⟨rootOf context n, []⟩
    else
      let (scope, name) ← Generation.ofExcept (context.graph.scopedName n)
      let q ← qualify depth scope
      return q.child name

def qualifiedName (n : Node) : Generation QualifiedName := do
  qualify (← read).graph.depthBound n

def qualifiedNameOf (id : UInt64) : Generation QualifiedName := do
  qualifiedName (← Generation.find id)

/-- The class for a type. -/
def typeExpr : TypeRef → Generation TypeExpr
  | .plain kind typeId =>
    match runtimeClass? kind with
    | some name => return .runtime name
    | none =>
      match kind with
      | .enum | .struct | .interface => return .declared (← qualifiedNameOf typeId)
      | .list => .fail .listWithoutElement
      | .anyPointer => return .untyped
      | _ => .fail (.noTypeName kind)
  | .listOf element => return .list (.ofElement element.kind) (← typeExpr element)

/-- An enumerant by its ordinal. An ordinal past the known enumerants stands for itself. -/
def enumLiteral (enumId : UInt64) (ordinal : UInt16) : Generation Literal := do
  let n ← Generation.find enumId
  let type ← qualifiedName n
  match (n.enumerants?.getD [])[ordinal.toNat]? with
  | some e => return .enumerant type (upperSnake e.name)
  | none => return .integer ordinal.toNat

/-- The literal of a scalar value; values behind pointers have none. -/
def literal (type : TypeRef) (v : Value) : Generation Literal :=
  match type.kind with
  | .void => return .undefined
  | .bool => return .boolean v.bool
  | .int8 | .int16 | .int32 => return .integer v.int.toInt
  | .uint8 | .uint16 | .uint32 => return .integer v.uint.toNat
  | .int64 => return .words (.ofInt v.int.toInt)
  | .uint64 => return .words (.ofInt v.uint.toNat)
  | .float32 => return .single v.float
  | .float64 => return .double v.float
  | .enum => enumLiteral type.typeId v.enum
  | kind => .fail (.notLiteral kind)

/-- The imports of the requested file that lead to a used file, in the order of the request. -/
def usedImports (file : RequestedFile) (used : UsedFiles) : List NamedId :=
  file.imports.filter fun i => i.id ∈ used

end SchemaBindings.Bindings
