import SchemaBindings.Document.Record
import SchemaBindings.Document.Tree
import SchemaBindings.Number.Written

namespace SchemaBindings.Document

open SchemaBindings.Number

/-- Members of a record under construction. -/
abbrev Members := List (String × Tree)

def entry (name : String) (tree : Tree) : Members :=
  [(name, tree)]

/-- A member that is left out when the condition fails. -/
def entryIf (condition : Bool) (name : String) (tree : Tree) : Members :=
  if condition then [(name, tree)] else []

def entryOf? {α : Type} (name : String) (encode : α → Tree) : Option α → Members
  | some a => [(name, encode a)]
  | none => []

/-- A list that is left out when it is empty. -/
def listEntry {α : Type} (name : String) (encode : α → Tree) (xs : List α) : Members :=
  entryIf (!xs.isEmpty) name (.list (xs.map encode))

/-- A list that is null when it is absent. -/
def listOrNull {α : Type} (encode : α → Tree) : Option (List α) → Tree
  | some xs => .list (xs.map encode)
  | none => .null

def ofNat (n : Nat) : Tree := .ofInt n

/-- The shortest decimal of a finite number. -/
def ofDouble (x : Double) : Tree :=
  let shortest := binary64.shortest (binary64.magnitude x.pattern)
  .scalar (.number ⟨x.isNegative, shortest.digits, shortest.exponent, false⟩
    (binary64.text x.pattern))

def TypeRecord.encode : TypeRecord → Tree
  | leaf kind typeId =>
    .record (entry "kind" (.ofText kind) ++ entryIf (typeId != 0) "typeId" (ofNat typeId.toNat))
  | containing kind typeId element =>
    .record (entry "kind" (.ofText kind) ++ entry "elementType" element.encode
      ++ entryIf (typeId != 0) "typeId" (ofNat typeId.toNat))

def ValueRecord.encode (r : ValueRecord) : Tree :=
  .record (entryIf (r.kind != "") "kind" (.ofText r.kind)
    ++ entryIf r.bool "bool" (.ofFlag r.bool)
    ++ entryIf (r.int != 0) "int" (.ofInt r.int.toInt)
    ++ entryIf (r.uint != 0) "uint" (ofNat r.uint.toNat)
    ++ entryIf (!r.float.isZero) "float" (ofDouble r.float)
    ++ entryOf? "floatBits" (fun bits => ofNat bits.toNat) r.floatBits?
    ++ entryIf (r.enum != 0) "enum" (ofNat r.enum.toNat)
    ++ entryIf (r.text != "") "text" (.ofText r.text)
    ++ entryIf (r.data != "") "data" (.ofText r.data)
    ++ entryIf r.present "present" (.ofFlag r.present))

def SlotRecord.encode (r : SlotRecord) : Tree :=
  .record (entry "offset" (ofNat r.offset.toNat)
    ++ entry "type" r.type.encode
    ++ entryOf? "default" ValueRecord.encode r.default?
    ++ entryIf (r.defaultOffset != 0) "defaultOffset" (ofNat r.defaultOffset.toNat))

def encodeGroup (id : UInt64) : Tree :=
  .record (entry "typeId" (ofNat id.toNat))

def FieldRecord.encode (r : FieldRecord) : Tree :=
  .record (entry "name" (.ofText r.name)
    ++ entry "codeOrder" (ofNat r.codeOrder.toNat)
    ++ entryOf? "discriminantValue" (fun n => ofNat n.toNat) r.discriminant?
    ++ entryOf? "slot" SlotRecord.encode r.slot?
    ++ entryOf? "group" encodeGroup r.groupId?)

def StructRecord.encode (r : StructRecord) : Tree :=
  .record (entry "dataWordCount" (ofNat r.dataWords.toNat)
    ++ entry "pointerCount" (ofNat r.pointers.toNat)
    ++ entry "preferredListEncoding" (ofNat r.listEncoding.toNat)
    ++ entryIf r.isGroup "isGroup" (.ofFlag r.isGroup)
    ++ entryIf (r.discriminantCount != 0) "discriminantCount" (ofNat r.discriminantCount.toNat)
    ++ entryIf (r.discriminantOffset != 0) "discriminantOffset" (ofNat r.discriminantOffset.toNat)
    ++ listEntry "fields" FieldRecord.encode r.fields)

def MemberRecord.encode (r : MemberRecord) : Tree :=
  .record (entry "name" (.ofText r.name) ++ entry "codeOrder" (ofNat r.codeOrder.toNat))

def encodeEnum (enumerants? : Option (List MemberRecord)) : Tree :=
  .record (entry "enumerants" (listOrNull MemberRecord.encode enumerants?))

def encodeInterface (methods : List MemberRecord) : Tree :=
  .record (listEntry "methods" MemberRecord.encode methods)

def ConstRecord.encode (r : ConstRecord) : Tree :=
  .record (entry "type" r.type.encode
    ++ entry "value" r.value.encode
    ++ entryIf (r.valueOffset != 0) "valueOffset" (ofNat r.valueOffset.toNat))

def NamedRecord.encode (r : NamedRecord) : Tree :=
  .record (entry "name" (.ofText r.name) ++ entry "id" (ofNat r.id.toNat))

def AnnotationRecord.encode (r : AnnotationRecord) : Tree :=
  .record (entry "id" (ofNat r.id.toNat) ++ entryIf (r.text != "") "text" (.ofText r.text))

def NodeRecord.encode (r : NodeRecord) : Tree :=
  .record (entry "id" (ofNat r.id.toNat)
    ++ entry "kind" (.ofText r.kind)
    ++ entry "displayName" (.ofText r.displayName)
    ++ entryIf (r.prefixLength != 0) "displayNamePrefixLength" (.ofInt r.prefixLength.toInt)
    ++ entryIf (r.scopeId != 0) "scopeId" (ofNat r.scopeId.toNat)
    ++ entryIf (r.encoded != "") "encoded" (.ofText r.encoded)
    ++ listEntry "nested" NamedRecord.encode r.nested
    ++ listEntry "annotations" AnnotationRecord.encode r.annotations
    ++ entryOf? "struct" StructRecord.encode r.struct?
    ++ entryOf? "enum" encodeEnum r.enum?
    ++ entryOf? "interface" encodeInterface r.interface?
    ++ entryOf? "const" ConstRecord.encode r.const?)

def FileRecord.encode (r : FileRecord) : Tree :=
  .record (entry "id" (ofNat r.id.toNat)
    ++ entry "filename" (.ofText r.filename)
    ++ listEntry "imports" NamedRecord.encode r.imports)

/-- The tree of a document. What has its zero value is left out where the written form allows that;
what is present and empty is kept. -/
def encode (d : Document) : Tree :=
  .record (entry "nodes" (listOrNull NodeRecord.encode d.nodes?)
    ++ entry "requestedFiles" (listOrNull FileRecord.encode d.files?))

def FieldRecord.isFinite (r : FieldRecord) : Bool :=
  match r.slot?.bind SlotRecord.default? with
  | some value => value.float.isFinite
  | none => true

def NodeRecord.isFinite (r : NodeRecord) : Bool :=
  (match r.struct? with
    | some s => s.fields.all FieldRecord.isFinite
    | none => true)
    && (match r.const? with
    | some c => c.value.float.isFinite
    | none => true)

/-- Every number in the document has a decimal form. -/
def isFinite (d : Document) : Bool :=
  (d.nodes?.getD []).all NodeRecord.isFinite

/-- The tree of a document, unless a number in it cannot be written. -/
def encode? (d : Document) : Option Tree :=
  if isFinite d then some (encode d) else none

end SchemaBindings.Document
