import SchemaBindings.Document.Problem
import SchemaBindings.Document.Record
import SchemaBindings.Schema.Node
import SchemaBindings.Text.Base64

namespace SchemaBindings.Document

open SchemaBindings.Number
open SchemaBindings.Schema

/-- The outcome of taking a part of a node into a request. -/
abbrev Checked := Except NodeProblem

def fail {α : Type} (fault : Fault) : Checked α :=
  .error (.ofFault fault)

def inside {α : Type} (part : Part) (checked : Checked α) : Checked α :=
  checked.mapError (·.within part)

def checkedKind (name : String) : Checked Kind :=
  match Kind.ofName? name with
  | some kind => .ok kind
  | none => fail (.unknownKind name)

def checkedBase64 (s : String) : Checked (List UInt8) :=
  (Text.Base64.decode s).mapError fun index => .ofFault (.badBase64 index)

/-- The type of a kind when no element type is at hand. -/
def checkedLeaf (kind : Kind) (typeId : UInt64) : Checked TypeRef :=
  match kind with
  | .list => fail .listWithoutElement
  | .enum | .struct | .interface =>
    if typeId = 0 then fail (.noTypeId kind) else .ok (.plain kind typeId)
  | _ => .ok (.plain kind 0)

/-- Kinds are known, a list has an element type, and the types that need an id have one. Element
types and ids that a kind has no use for are dropped. -/
def TypeRecord.checked : TypeRecord → Checked TypeRef
  | leaf name typeId => do
    checkedLeaf (← checkedKind name) typeId
  | containing name typeId element => do
    match ← checkedKind name with
    | .list => return .listOf (← inside .element element.checked)
    | kind => checkedLeaf kind typeId

/-- The number of a value: the one its bits give, or else the one that is written. -/
def ValueRecord.checkedFloat (r : ValueRecord) (kind : Kind) : Checked Double :=
  match r.floatBits? with
  | none => .ok r.float
  | some bits =>
    match kind with
    | .float32 =>
      if 0xffffffff < bits then fail (.wideFloatBits bits) else .ok (Double.widen bits.toNat)
    | .float64 => .ok ⟨bits⟩
    | kind => fail (.strayFloatBits kind)

/-- A value for a type of the given kind; its own kind, if it names one, is the same. Texts and data
that are not empty are present. -/
def ValueRecord.checked (r : ValueRecord) (kind : Kind) : Checked Value := do
  if r.kind ≠ "" then
    let given ← checkedKind r.kind
    if given ≠ kind then fail (.otherKind given kind)
  let float ← r.checkedFloat kind
  let data ← if r.data = "" then pure [] else inside .data (checkedBase64 r.data)
  let filled := (kind == .text && r.text != "") || (kind == .data && !data.isEmpty)
  return ⟨kind, r.bool, r.int, r.uint, float, r.enum, r.text, data, r.present || filled⟩

def SlotRecord.checked (r : SlotRecord) : Checked SlotField := do
  let type ← r.type.checked
  let initial ← match r.default? with
    | some value => inside .initial (value.checked type.kind)
    | none => pure (.zero type.kind)
  return ⟨r.offset, type, initial, r.defaultOffset⟩

def FieldRecord.checkedBody (r : FieldRecord) : Checked FieldBody :=
  match r.slot?, r.groupId? with
  | some _, some _ => fail .slotAndGroup
  | none, some id => .ok (.group id)
  | some slot, none => slot.checked.map .slot
  | none, none => fail .noSlotOrGroup

def FieldRecord.checked (r : FieldRecord) : Checked Field := do
  let body ← inside (.member r.name) r.checkedBody
  return ⟨r.name, r.codeOrder, r.discriminant?.getD noDiscriminant, body⟩

def StructRecord.checked (r : StructRecord) : Checked StructInfo := do
  let fields ← r.fields.mapM FieldRecord.checked
  return ⟨r.dataWords, r.pointers, r.listEncoding, r.isGroup, r.discriminantCount,
    r.discriminantOffset, fields⟩

def ConstRecord.checked (r : ConstRecord) : Checked ConstInfo := do
  let type ← r.type.checked
  let value ← inside .constant (r.value.checked type.kind)
  return ⟨type, value, r.valueOffset⟩

def NamedRecord.named (r : NamedRecord) : NamedId :=
  ⟨r.name, r.id⟩

def MemberRecord.member (r : MemberRecord) : Member :=
  ⟨r.name, r.codeOrder⟩

/-- A node with the payload of its kind; other payloads are dropped unread. -/
def NodeRecord.checked (r : NodeRecord) : Checked Node := do
  let some kind := NodeKind.ofName? r.kind | fail (.unknownNodeKind r.kind)
  let encoded ← inside .encodedForm (checkedBase64 r.encoded)
  let bare : Node :=
    { id := r.id
      kind := kind
      displayName := r.displayName
      prefixLength := r.prefixLength.toInt
      scopeId := r.scopeId
      nested := r.nested.map NamedRecord.named
      annotations := r.annotations.map fun a => ⟨a.id, a.text⟩
      encoded := encoded
      struct? := none
      enumerants? := none
      methods? := none
      const? := none }
  match kind with
  | .structNode =>
    let some s := r.struct? | fail .structWithoutPayload
    return { bare with struct? := some (← s.checked) }
  | .enumNode =>
    let some enumerants? := r.enum? | fail .enumWithoutPayload
    return { bare with enumerants? := some ((enumerants?.getD []).map MemberRecord.member) }
  | .interfaceNode =>
    return { bare with methods? := some ((r.interface?.getD []).map MemberRecord.member) }
  | .constNode =>
    let some c := r.const? | fail .constWithoutPayload
    return { bare with const? := some (← c.checked) }
  | _ => return bare

def FileRecord.requested (r : FileRecord) : RequestedFile :=
  ⟨r.id, r.filename, r.imports.map NamedRecord.named⟩

/-- The nodes of a document from a position on. -/
def checkedNodes (index : Nat) : List NodeRecord → Except Problem (List Node)
  | [] => .ok []
  | r :: rs => do
    let node ← r.checked.mapError (.badNode index r.id)
    return node :: (← checkedNodes (index + 1) rs)

/-- The request that a document stands for. Links between nodes are not looked at. -/
def request (d : Document) : Except Problem Request := do
  let nodes ← checkedNodes 0 (d.nodes?.getD [])
  return ⟨nodes, (d.files?.getD []).map FileRecord.requested⟩

end SchemaBindings.Document
