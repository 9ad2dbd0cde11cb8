import SchemaBindings.Bindings.Field

namespace SchemaBindings.Bindings

open SchemaBindings.Schema SchemaBindings.Text

/-- Rows of eight bytes, each byte right-aligned in four columns, a comma after every byte but the
last, every row but the first indented. `column` is the place of the next byte in its row. -/
def bytesFrom (depth column : Nat) : List UInt8 → String
  | [] => ""
  | b :: bs =>
    (if column = 8 then "\n" ++ indent depth else "")
      ++ String.ofList (List.replicate (4 - (Nat.toDigits 10 b.toNat).length) ' ')
      ++ decimal b.toNat ++ (if bs.isEmpty then "" else ",")
      ++ bytesFrom depth (if column = 8 then 1 else column + 1) bs

def bytesText (bytes : List UInt8) (depth : Nat) : String :=
  bytesFrom depth 0 bytes

/-- The encoded form of a node, embedded in the generated file. -/
structure SchemaEntry where
  id : UInt64
  encoded : List UInt8
  deriving DecidableEq, Repr

def SchemaEntry.ofNode (n : Node) : SchemaEntry :=
  ⟨n.id, n.encoded⟩

def SchemaEntry.text (e : SchemaEntry) : String :=
  indent 1 ++ "schemas['" ++ idHex e.id ++ "'] = [\n" ++ indent 2 ++ bytesText e.encoded 2 ++ "\n"
    ++ indent 1 ++ "];\n"

/-- Where a definition stands: a module assignment at top level, a member of an object elsewhere. -/
structure Placement where
  topLevel : Bool
  name : String
  depth : Nat
  deriving DecidableEq, Repr

/-- The value of a constant. Blobs, structs and lists are read from the embedded encoded form. -/
inductive ConstExpr where
  | literal (value : Literal)
  | text (nodeId : UInt64) (wordOffset size : Nat)
  | data (nodeId : UInt64) (byteOffset size : Nat)
  | struct (type : TypeExpr) (nodeId : UInt64) (wordOffset : Nat)
  | list (type : TypeExpr) (nodeId : UInt64) (wordOffset : Nat)
  deriving DecidableEq, Repr

namespace ConstExpr

/-- Whether the encoded form of the constant's node must be embedded. -/
def needsSchema : ConstExpr → Bool
  | literal _ => false
  | _ => true

def expression : ConstExpr → String
  | literal value => value.text
  | text nodeId wordOffset size =>
    "new capnp.genhelper.ConstText(" ++ schemaRef nodeId ++ ", " ++ decimal wordOffset ++ ", "
      ++ decimal size ++ ")"
  | data nodeId byteOffset size =>
    "new capnp.genhelper.ConstData(" ++ schemaRef nodeId ++ ", " ++ decimal byteOffset ++ ", "
      ++ decimal size ++ ")"
  | struct type nodeId wordOffset =>
    "new capnp.genhelper.ConstStruct(" ++ type.text ++ ", " ++ schemaRef nodeId ++ ", "
      ++ decimal wordOffset ++ ")"
  | list type nodeId wordOffset =>
    "new capnp.genhelper.ConstList(" ++ type.text ++ ", " ++ schemaRef nodeId ++ ", "
      ++ decimal wordOffset ++ ")"

end ConstExpr

/-- Union members by discriminant, equal ones as declared, then the other fields as declared. The
active tag of a union is an index into this order. -/
def byDiscriminant (fields : List Field) : List Field :=
  (fields.filter Field.inUnion).mergeSort (fun a b => a.discriminant ≤ b.discriminant)
    ++ fields.filter fun f => !f.inUnion

def quotedNames (names : List String) : String :=
  String.intercalate ", " (names.map quote)

/-- The definition of a struct: the dotted path of its name in the file, its payload, and the
bindings of its fields in order. -/
structure StructBody where
  path : String
  info : StructInfo
  bindings : List FieldBindings
  deriving DecidableEq, Repr

/-- What a declaration defines. `enum` is without enumerants when the payload is missing. -/
inductive Body where
  | struct (body : StructBody)
  | enum (enumerants? : Option (List String))
  | constant (value? : Option ConstExpr)
  | scope
  | nothing
  deriving DecidableEq, Repr

/-- A node as the file declares it, with the declarations nested in it. -/
inductive Declaration where
  | mk (place : Placement) (entry : SchemaEntry) (body : Body) (children : List Declaration)

namespace StructBody

/-- The expression that names the struct in its file. -/
def scope (b : StructBody) : String :=
  "module." ++ b.path

def ordered (b : StructBody) : List Field :=
  byDiscriminant b.info.fields

/-- The constants that name the tags of a union. -/
def tagConstants (b : StructBody) : List (String × UInt16) :=
  if b.info.hasUnion then
    (b.info.fields.filter Field.inUnion).map fun f => (upperSnake f.name, f.discriminant)
  else []

/-- How the table of a view's accessors refers to the accessor of a field. -/
def getEntry (f : Field) : String :=
  if hasAccessors f then "this.get" ++ titleCase f.name
  else "function() \x7b return undefined; \x7d"

def hasEntry (f : Field) : String :=
  if hasAccessors f then "this.has" ++ titleCase f.name
  else "function() \x7b return false; \x7d"

/-- Lines at the start of a view's constructor. -/
def preamble : View → List String
  | .reader => ["if (_reader === undefined) _reader = capnp.genhelper.NullStructReader;"]
  | .builder => []

/-- Lines after the accessors of a view. -/
def tail (b : StructBody) : View → List String
  | .reader =>
    ["this._getParentType = function() \x7b return " ++ b.scope ++ "; \x7d;",
      "this._getInnerReader = function() \x7b return _reader; \x7d;",
      "this.totalSizeInWords = function() \x7b return _reader.totalSize(); \x7d;",
      "this._getReader = function() \x7b return _reader; \x7d;"]
  | .builder =>
    ["this.asReader = function() \x7b return new " ++ b.scope
        ++ ".Reader(_builder.asReader()); \x7d;",
      "this._getReader = function() \x7b return _builder.asReader(); \x7d;",
      "this.totalSizeInWords = function() \x7b return this.asReader().totalSizeInWords(); \x7d;"]

/-- The call that reads the active tag of a union. -/
def whichCall? (b : StructBody) (view : View) : Option Call :=
  if b.info.hasUnion then
    some (.storage view (.getData "uint16" false) b.info.discriminantOffset.toNat [])
  else none

def whichLine (b : StructBody) (view : View) : List String :=
  (b.whichCall? view).toList.map fun call =>
    "this.which = function() \x7b return " ++ call.text ++ "; \x7d;"

/-- The tables of accessors, in the order of the discriminants, and the printer that uses them. -/
def tables (b : StructBody) (name : String) (view : View) : List String :=
  ["this.GET_MEMBER = [" ++ String.intercalate ", " (b.ordered.map getEntry) ++ "];",
    "this.HAS_MEMBER = [" ++ String.intercalate ", " (b.ordered.map hasEntry) ++ "];",
    "this.toString = function() \x7b return capnp.genhelper.ToStringHelper(this, "
      ++ quote (name ++ "." ++ view.className) ++ ", " ++ b.scope
      ++ ".FIELDS_BY_DISCRIMINANT, this.HAS_MEMBER, this.GET_MEMBER"
      ++ (if b.info.hasUnion then ", this.which()" else "") ++ "); \x7d;"]

def lines (depth : Nat) (texts : List String) : String :=
  String.join (texts.map fun t => indent depth ++ t ++ "\n")

/-- The constructor of a view. -/
def viewText (b : StructBody) (name : String) (depth : Nat) (view : View) : String :=
  indent depth ++ view.className ++ ": function(" ++ view.storage ++ ") \x7b\n"
    ++ lines (depth + 1) (preamble view ++ b.whichLine view)
    ++ String.join (b.bindings.map fun f => f.text view (depth + 1))
    ++ lines (depth + 1) (b.tail view ++ b.tables name view)
    ++ indent depth ++ "\x7d,\n"

/-- The members of the struct's object that take a line each. -/
def memberLines (b : StructBody) : List String :=
  b.tagConstants.map (fun t => t.1 ++ ": " ++ decimal t.2.toNat ++ ",")
    ++ ["STRUCT_SIZE: new capnp.genhelper.StructSize(" ++ decimal b.info.dataWords.toNat ++ ", "
          ++ decimal b.info.pointers.toNat ++ ", " ++ decimal b.info.listEncoding.toNat ++ "),",
        "ELEMENT_SIZE: 7, // INLINE_COMPOSITE",
        "FIELD_LIST: [" ++ quotedNames (b.info.fields.map Field.name) ++ "],",
        "FIELDS_BY_DISCRIMINANT: [" ++ quotedNames (b.ordered.map Field.name) ++ "],",
        "toString: function() \x7b return '" ++ b.path ++ "'; \x7d,",
        "getOrphanReader: function(builder) \x7b return new this.Reader(builder.asStructReader(this.STRUCT_SIZE)); \x7d,",
        "getOrphan: function(builder) \x7b return new this.Builder(builder.asStruct(this.STRUCT_SIZE)); \x7d,",
        "copyOrphan: capnp.layout.OrphanBuilder.copyStruct,"]

def members (b : StructBody) (name : String) (depth : Nat) : String :=
  lines depth b.memberLines ++ b.viewText name depth .reader ++ b.viewText name depth .builder

end StructBody

/-- Ordinals under their constant names, and the names by ordinal. -/
def enumMembers (depth : Nat) (names : List String) : String :=
  StructBody.lines depth
    (names.zipIdx.map (fun e => upperSnake e.1 ++ ": " ++ decimal e.2 ++ ",")
      ++ ["VALUE_NAMES: [" ++ quotedNames names ++ "],"])

namespace Placement

/-- An object, built by a function that is called at once. -/
def object (p : Placement) (members : String) : String :=
  indent p.depth
    ++ (if p.topLevel then "module." ++ p.name ++ " = function() \x7b\n"
        else p.name ++ ": function() \x7b\n")
    ++ indent (p.depth + 1) ++ "return \x7b\n" ++ members ++ indent (p.depth + 1) ++ "\x7d;\n"
    ++ indent p.depth ++ (if p.topLevel then "\x7d();\n\n" else "\x7d(),\n")

def constant (p : Placement) (expression : String) : String :=
  if p.topLevel then
    indent p.depth ++ "module." ++ upperSnake p.name ++ " = " ++ expression ++ ";\n\n"
  else indent p.depth ++ upperSnake p.name ++ ": " ++ expression ++ ",\n"

end Placement

namespace Declaration

mutual

/-- The text that defines the declaration. Only structs and scopes contain their children; a scope
without any is left out. -/
def text : Declaration → String
  | mk place _ body children =>
    match body with
    | .struct b => place.object (textList children ++ b.members place.name (place.depth + 2))
    | .enum none => place.object ""
    | .enum (some names) => place.object (enumMembers (place.depth + 2) names)
    | .constant none => ""
    | .constant (some value) => place.constant value.expression
    | .scope => if children.isEmpty then "" else place.object (textList children)
    | .nothing => ""

def textList : List Declaration → String
  | [] => ""
  | d :: ds => d.text ++ textList ds

end

mutual

/-- The encoded forms to embed: the declaration's own, then those of its children. A constant that
is written as a literal needs none. -/
def entries : Declaration → List SchemaEntry
  | mk _ entry body children =>
    match body with
    | .constant value? =>
      if (value?.map ConstExpr.needsSchema).getD false then entry :: entriesList children else []
    | _ => entry :: entriesList children

def entriesList : List Declaration → List SchemaEntry
  | [] => []
  | d :: ds => d.entries ++ entriesList ds

end

def schemas (d : Declaration) : String :=
  String.join (d.entries.map SchemaEntry.text)

end Declaration

end SchemaBindings.Bindings
