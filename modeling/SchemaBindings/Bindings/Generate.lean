import SchemaBindings.Bindings.Declaration

namespace SchemaBindings.Bindings

open SchemaBindings.Schema

/-- A name inside an enclosing path; the empty path is the file itself. -/
def joinPath (path name : String) : String :=
  if path.isEmpty then name else path ++ "." ++ name

/-- The definition of a constant; capabilities and untyped pointers have none. -/
def constExpr (n : Node) : Generation (Option ConstExpr) :=
  match n.const? with
  | none => .fail .constWithoutPayload
  | some c =>
    match c.type.kind with
    | .text => return some (.text n.id c.valueOffset.toNat c.value.size)
    | .data => return some (.data n.id (c.valueOffset.toNat * 8) c.value.size)
    | .struct => do
      let type ← typeExpr c.type
      return some (.struct type n.id c.valueOffset.toNat)
    | .list => do
      let type ← typeExpr c.type
      return some (.list type n.id c.valueOffset.toNat)
    | .interface | .anyPointer => return none
    | _ => do
      let value ← literal c.type c.value
      return some (.literal value)

def structBody (path : String) (n : Node) : Generation StructBody :=
  match n.struct? with
  | none => .fail .structWithoutPayload
  | some s => do
    let bindings ← s.fields.mapM (fieldBindings ("module." ++ path) n.id s)
    return ⟨path, s, bindings⟩

/-- What a node declares under the given dotted path. -/
def declarationBody (path : String) (n : Node) : Generation Body :=
  match n.kind with
  | .structNode => return .struct (← structBody path n)
  | .enumNode => return .enum (n.enumerants?.map fun es => es.map Member.name)
  | .constNode => return .constant (← constExpr n)
  | .interfaceNode => return .scope
  | _ => return .nothing

/-- The declaration of a node and of all that is nested in it: first its nested nodes, then its
groups, which are named by their title-cased fields. `fuel` bounds how deep declarations may be
nested. -/
def declareNode : Nat → String → String → Nat → Node → Generation Declaration
  | 0, _, _, _, _ => .fail .endlessLinks
  | fuel + 1, path, name, depth, n => do
    if n.kind = .fileNode then
      throw ((Failure.ofCause .nestedFile).within (.node n.displayName))
    let full := joinPath path name
    let nested ← n.nested.mapM fun entry => do
      let child ← Generation.within (.nestedEntryOf entry.name n.displayName)
        (Generation.find entry.id)
      declareNode fuel full entry.name (depth + 2) child
    let groups ← n.groups.mapM fun group => do
      let child ← Generation.within (.groupEntryOf group.1 n.displayName)
        (Generation.find group.2)
      declareNode fuel full (titleCase group.1) (depth + 2) child
    let body ← Generation.within (.node n.displayName) (declarationBody full n)
    return .mk ⟨path.isEmpty, name, depth⟩ (.ofNode n) body (nested ++ groups)

/-- The declaration of a node at some place of the file being generated. -/
def declaration (path name : String) (depth : Nat) (n : Node) : Generation Declaration := do
  declareNode (← read).graph.depthBound path name depth n

/-- The declarations of a file, in order. -/
def fileDeclarations (file : Node) : Generation (List Declaration) :=
  file.nested.mapM fun entry => do
    let n ← Generation.within (.nestedEntry entry.name) (Generation.find entry.id)
    declaration "" entry.name 1 n

end SchemaBindings.Bindings
