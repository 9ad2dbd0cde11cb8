import SchemaBindings.Document.Record
import SchemaBindings.Document.Tree

namespace SchemaBindings.Document

open SchemaBindings.Number

/-- What differs between the written forms when a tree is read as records. -/
structure Dialect where
  /-- Member names match whatever the case of their letters is. -/
  foldsCase : Bool
  /-- A null item of a list stands for an item with nothing set, and not for no item. -/
  keepsNull : Bool
  /-- A scalar is taken for another kind where that makes sense: any one for a text, a fraction for
  an integer, a word such as `yes` for a flag. -/
  converts : Bool
  deriving DecidableEq, Repr

namespace Dialect

def json : Dialect := ⟨true, true, false⟩

def yaml : Dialect := ⟨false, false, true⟩

end Dialect

/-- Reads a tree over the value that was there before it. -/
abbrev Reader (α : Type) := α → Tree → Option α

/-- Reads one member of a larger value. -/
def focus {α β : Type} (read : Reader β) (get : α → β) (set : α → β → α) : Reader α :=
  fun old tree => (read (get old) tree).map (set old)

/-- Null takes the value away. -/
def optional {α : Type} (empty : α) (read : Reader α) : Reader (Option α) :=
  fun old tree => if tree.isNull then some none else (read (old.getD empty) tree).map some

def double : Reader Double
  | old, .scalar s =>
    match s with
    | .null => some old
    | .number n _ => n.toFinite?
    | .special x _ => some x
    | _ => none
  | _, _ => none

/-- Every item is read over the old item at its position. -/
def readItems {α : Type} (empty : α) (read : Reader α) : List α → List Tree → Option (List α)
  | _, [] => some []
  | [], tree :: trees => do
    return (← read empty tree) :: (← readItems empty read [] trees)
  | old :: olds, tree :: trees => do
    return (← read old tree) :: (← readItems empty read olds trees)

namespace Dialect

variable (d : Dialect)

def sameName (name key : String) : Bool :=
  if d.foldsCase then name.toLower == key.toLower else name == key

def text : Reader String
  | old, .scalar s =>
    match s with
    | .null => some old
    | .text value => some value
    | s => if d.converts then s.source? else none
  | _, _ => none

def trueWords : List String := ["y", "Y", "yes", "on"]

def falseWords : List String := ["n", "N", "no", "off"]

def flag : Reader Bool
  | old, .scalar s =>
    match s with
    | .null => some old
    | .flag value _ => some value
    | .text word =>
      if d.converts && trueWords.contains word then some true
      else if d.converts && falseWords.contains word then some false
      else none
    | _ => none
  | _, _ => none

/-- The whole part of a number no greater than `limit`, and at least the smallest signed word. -/
def wholePart? (limit : Nat) (x : Double) : Option Int :=
  if x.isFinite then
    if x.truncate ≤ limit then some (max x.truncate (-(twoPow 63 : Int))) else none
  else if x.isInfinite && x.isNegative then some (-(twoPow 63 : Int))
  else none

/-- The number that a scalar gives where an integer is wanted, before it is fitted to a width: one
written as an integer, or the whole part of another if the dialect converts. -/
def integer (limit : Nat) : Scalar → Option Int
  | .number n _ =>
    if n.plain then some n.toInt
    else if d.converts then n.toFinite?.bind (wholePart? limit)
    else none
  | .special x _ => if d.converts then wholePart? limit x else none
  | _ => none

/-- Whether a scalar is a number written as an integer. -/
def isPlain : Scalar → Bool
  | .number n _ => n.plain
  | _ => false

/-- A natural number below `bound`. A minus sign is refused before zero too, unless the dialect
converts; a whole part is taken as a word. -/
def natural (bound : Nat) : Reader Nat
  | old, .scalar s =>
    match s with
    | .null => some old
    | s => do
      let i ← d.integer (twoPow 64) s
      let word := if isPlain s then i else i % (twoPow 64 : Int)
      if 0 ≤ word ∧ word < bound ∧ (d.converts ∨ !hasMinus s) then some word.toNat else none
  | _, _ => none
where
  hasMinus : Scalar → Bool
    | .number n _ => n.negative
    | _ => false

def uint16 : Reader UInt16 := fun old tree =>
  (d.natural (twoPow 16) old.toNat tree).map UInt16.ofNat

def uint32 : Reader UInt32 := fun old tree =>
  (d.natural (twoPow 32) old.toNat tree).map UInt32.ofNat

def uint64 : Reader UInt64 := fun old tree =>
  (d.natural (twoPow 64) old.toNat tree).map UInt64.ofNat

/-- A signed word; a whole part is wrapped into its range. -/
def int64 : Reader Int64
  | old, .scalar s =>
    match s with
    | .null => some old
    | s => do
      let i ← d.integer (twoPow 63) s
      if !isPlain s ∨ (-(twoPow 63 : Int) ≤ i ∧ i < twoPow 63) then some (Int64.ofInt i) else none
  | _, _ => none

/-- A list that null takes away. -/
def list {α : Type} (empty : α) (read : Reader α) : Reader (Option (List α))
  | old, .list trees =>
    let kept := if d.keepsNull then trees else trees.filter fun tree => !tree.isNull
    (readItems empty read (old.getD []) kept).map some
  | _, tree => if tree.isNull then some none else none

/-- A list for which absent and empty are one. -/
def items {α : Type} (empty : α) (read : Reader α) : Reader (List α) := fun old tree =>
  (d.list empty read (some old) tree).map fun read? => read?.getD []

/-- Reads members one after the other; a name that is none of the record's own is refused. -/
def members {α : Type} (readers : List (String × Reader α)) (old : α) :
    List (String × Tree) → Option α
  | [] => some old
  | (name, tree) :: rest => do
    let (_, read) ← readers.find? fun r => d.sameName name r.1
    members readers (← read old tree) rest

/-- Null leaves a record as it was. -/
def record {α : Type} (readers : List (String × Reader α)) : Reader α
  | old, .record trees => d.members readers old trees
  | old, tree => if tree.isNull then some old else none

mutual

/-- A type. Its element type is read in the same way. -/
def type (old : TypeRecord) : Tree → Option TypeRecord
  | .record trees => typeMembers old trees
  | .scalar .null => some old
  | _ => none

def typeMembers (old : TypeRecord) : List (String × Tree) → Option TypeRecord
  | [] => some old
  | (name, tree) :: rest => do
    let next ←
      if d.sameName name "kind" then
        (d.text old.kind tree).map fun kind => TypeRecord.make kind old.typeId old.element?
      else if d.sameName name "elementType" then
        if tree.isNull then some (.leaf old.kind old.typeId)
        else (type (old.element?.getD .empty) tree).map (.containing old.kind old.typeId)
      else if d.sameName name "typeId" then
        (d.uint64 old.typeId tree).map fun id => TypeRecord.make old.kind id old.element?
      else none
    typeMembers next rest

end

def value : Reader ValueRecord := d.record
  [("kind", focus d.text (·.kind) fun r v => { r with kind := v }),
    ("bool", focus d.flag (·.bool) fun r v => { r with bool := v }),
    ("int", focus d.int64 (·.int) fun r v => { r with int := v }),
    ("uint", focus d.uint64 (·.uint) fun r v => { r with uint := v }),
    ("float", focus double (·.float) fun r v => { r with float := v }),
    ("floatBits", focus (optional 0 d.uint64) (·.floatBits?) fun r v => { r with floatBits? := v }),
    ("enum", focus d.uint16 (·.enum) fun r v => { r with enum := v }),
    ("text", focus d.text (·.text) fun r v => { r with text := v }),
    ("data", focus d.text (·.data) fun r v => { r with data := v }),
    ("present", focus d.flag (·.present) fun r v => { r with present := v })]

def slot : Reader SlotRecord := d.record
  [("offset", focus d.uint32 (·.offset) fun r v => { r with offset := v }),
    ("type", focus d.type (·.type) fun r v => { r with type := v }),
    ("default", focus (optional default d.value) (·.default?) fun r v => { r with default? := v }),
    ("defaultOffset", focus d.uint32 (·.defaultOffset) fun r v => { r with defaultOffset := v })]

def group : Reader UInt64 := d.record
  [("typeId", d.uint64)]

def field : Reader FieldRecord := d.record
  [("name", focus d.text (·.name) fun r v => { r with name := v }),
    ("codeOrder", focus d.uint16 (·.codeOrder) fun r v => { r with codeOrder := v }),
    ("discriminantValue", focus (optional 0 d.uint16) (·.discriminant?)
      fun r v => { r with discriminant? := v }),
    ("slot", focus (optional default d.slot) (·.slot?) fun r v => { r with slot? := v }),
    ("group", focus (optional 0 d.group) (·.groupId?) fun r v => { r with groupId? := v })]

def struct : Reader StructRecord := d.record
  [("dataWordCount", focus d.uint16 (·.dataWords) fun r v => { r with dataWords := v }),
    ("pointerCount", focus d.uint16 (·.pointers) fun r v => { r with pointers := v }),
    ("preferredListEncoding", focus d.uint16 (·.listEncoding)
      fun r v => { r with listEncoding := v }),
    ("isGroup", focus d.flag (·.isGroup) fun r v => { r with isGroup := v }),
    ("discriminantCount", focus d.uint16 (·.discriminantCount)
      fun r v => { r with discriminantCount := v }),
    ("discriminantOffset", focus d.uint32 (·.discriminantOffset)
      fun r v => { r with discriminantOffset := v }),
    ("fields", focus (d.items default d.field) (·.fields) fun r v => { r with fields := v })]

def member : Reader MemberRecord := d.record
  [("name", focus d.text (·.name) fun r v => { r with name := v }),
    ("codeOrder", focus d.uint16 (·.codeOrder) fun r v => { r with codeOrder := v })]

def enum : Reader (Option (List MemberRecord)) := d.record
  [("enumerants", d.list default d.member)]

def interface : Reader (List MemberRecord) := d.record
  [("methods", d.items default d.member)]

def const : Reader ConstRecord := d.record
  [("type", focus d.type (·.type) fun r v => { r with type := v }),
    ("value", focus d.value (·.value) fun r v => { r with value := v }),
    ("valueOffset", focus d.uint32 (·.valueOffset) fun r v => { r with valueOffset := v })]

def named : Reader NamedRecord := d.record
  [("name", focus d.text (·.name) fun r v => { r with name := v }),
    ("id", focus d.uint64 (·.id) fun r v => { r with id := v })]

def annotated : Reader AnnotationRecord := d.record
  [("id", focus d.uint64 (·.id) fun r v => { r with id := v }),
    ("text", focus d.text (·.text) fun r v => { r with text := v })]

def node : Reader NodeRecord := d.record
  [("id", focus d.uint64 (·.id) fun r v => { r with id := v }),
    ("kind", focus d.text (·.kind) fun r v => { r with kind := v }),
    ("displayName", focus d.text (·.displayName) fun r v => { r with displayName := v }),
    ("displayNamePrefixLength", focus d.int64 (·.prefixLength)
      fun r v => { r with prefixLength := v }),
    ("scopeId", focus d.uint64 (·.scopeId) fun r v => { r with scopeId := v }),
    ("encoded", focus d.text (·.encoded) fun r v => { r with encoded := v }),
    ("nested", focus (d.items default d.named) (·.nested) fun r v => { r with nested := v }),
    ("annotations", focus (d.items default d.annotated) (·.annotations)
      fun r v => { r with annotations := v }),
    ("struct", focus (optional default d.struct) (·.struct?) fun r v => { r with struct? := v }),
    ("enum", focus (optional none d.enum) (·.enum?) fun r v => { r with enum? := v }),
    ("interface", focus (optional [] d.interface) (·.interface?)
      fun r v => { r with interface? := v }),
    ("const", focus (optional default d.const) (·.const?) fun r v => { r with const? := v })]

def file : Reader FileRecord := d.record
  [("id", focus d.uint64 (·.id) fun r v => { r with id := v }),
    ("filename", focus d.text (·.filename) fun r v => { r with filename := v }),
    ("imports", focus (d.items default d.named) (·.imports) fun r v => { r with imports := v })]

def document : Reader Document := d.record
  [("nodes", focus (d.list default d.node) (·.nodes?) fun r v => { r with nodes? := v }),
    ("requestedFiles", focus (d.list default d.file) (·.files?) fun r v => { r with files? := v })]

end Dialect

/-- The request that a tree describes, if it has the form of one. -/
def decode? (d : Dialect) (tree : Tree) : Option Document :=
  d.document default tree

end SchemaBindings.Document
