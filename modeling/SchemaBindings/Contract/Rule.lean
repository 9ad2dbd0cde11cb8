import SchemaBindings.Document.Tree
import SchemaBindings.Schema.Kind

namespace SchemaBindings.Contract

open SchemaBindings.Document
open SchemaBindings.Number
open SchemaBindings.Schema

/-- The records of a request. -/
inductive Shape where
  | request
  | node
  | named
  | remark
  | struct
  | field
  | slot
  | group
  | type
  | value
  | member
  | enumeration
  | interface
  | constant
  | file
  deriving DecidableEq, Repr

/-- What may stand at one place of a request. -/
inductive Rule where
  | integer (least? greatest? : Option Int)
  | number
  | flag
  | text
  | filledText
  | oneOf (names : List String)
  | base64
  | record (shape : Shape)
  | listOf (item : Rule)
  | listOrNull (item : Rule)
  deriving DecidableEq, Repr

namespace Rule

/-- Natural numbers of so many bits. -/
def bits (n : Nat) : Rule :=
  integer (some 0) (some ((twoPow n : Int) - 1))

def id : Rule := bits 64

def nodeKind : Rule := oneOf (NodeKind.listed.map NodeKind.name)

def typeKind : Rule := oneOf (Kind.listed.map Kind.name ++ ["object"])

end Rule

/-- The members a record may have. None of them has to be there. -/
def Shape.members : Shape → List (String × Rule)
  | request => [("nodes", .listOrNull (.record node)), ("requestedFiles", .listOrNull (.record file))]
  | node =>
    [("id", .id), ("kind", .nodeKind), ("displayName", .filledText),
      ("displayNamePrefixLength", .integer (some 0) none), ("scopeId", .id), ("encoded", .base64),
      ("nested", .listOf (.record named)), ("annotations", .listOf (.record remark)),
      ("struct", .record struct), ("enum", .record enumeration),
      ("interface", .record interface), ("const", .record constant)]
  | named => [("name", .filledText), ("id", .id)]
  | remark => [("id", .id), ("text", .text)]
  | struct =>
    [("dataWordCount", .bits 16), ("pointerCount", .bits 16),
      ("preferredListEncoding", .integer (some 0) (some 7)), ("isGroup", .flag),
      ("discriminantCount", .bits 16), ("discriminantOffset", .bits 32),
      ("fields", .listOf (.record field))]
  | field =>
    [("name", .filledText), ("codeOrder", .bits 16), ("discriminantValue", .bits 16),
      ("slot", .record slot), ("group", .record group)]
  | slot =>
    [("offset", .bits 32), ("type", .record type), ("default", .record value),
      ("defaultOffset", .bits 32)]
  | group => [("typeId", .id)]
  | type => [("kind", .typeKind), ("elementType", .record type), ("typeId", .id)]
  | value =>
    [("kind", .typeKind), ("bool", .flag), ("int", .integer none none), ("uint", .bits 64),
      ("float", .number), ("floatBits", .bits 64), ("enum", .bits 16), ("text", .text),
      ("data", .base64), ("present", .flag)]
  | member => [("name", .filledText), ("codeOrder", .bits 16)]
  | enumeration => [("enumerants", .listOf (.record member))]
  | interface => [("methods", .listOf (.record member))]
  | constant => [("type", .record type), ("value", .record value), ("valueOffset", .bits 32)]
  | file =>
    [("id", .id), ("filename", .filledText), ("imports", .listOf (.record named))]

def isBase64Char (c : Char) : Bool :=
  c.isAlphanum || c == '+' || c == '/'

/-- Characters of the alphabet, then at most two signs of padding. -/
def isBase64 (s : String) : Bool :=
  let padding := s.toList.dropWhile isBase64Char
  padding.length ≤ 2 && padding.all (· == '=')

namespace Rule

def admitsScalar : Rule → Scalar → Bool
  | integer least? greatest?, .number n _ =>
    n.plain && (least?.all fun low => low ≤ n.toInt) && (greatest?.all fun high => n.toInt ≤ high)
  | number, .number .. => true
  | flag, .flag .. => true
  | text, .text _ => true
  | filledText, .text s => s != ""
  | oneOf names, .text s => names.contains s
  | base64, .text s => isBase64 s
  | listOrNull _, .null => true
  | _, _ => false

/-- The rule for the items where a list may stand. -/
def item? : Rule → Option Rule
  | listOf item | listOrNull item => some item
  | _ => none

/-- The rules for the members where a record may stand. -/
def members? : Rule → Option (List (String × Rule))
  | record shape => some shape.members
  | _ => none

mutual

/-- Whether a tree obeys the rule. Records have no members but their own. -/
def admits (rule : Rule) : Tree → Bool
  | .scalar s => rule.admitsScalar s
  | .list items =>
    match rule.item? with
    | some item => admitsItems item items
    | none => false
  | .record trees =>
    match rule.members? with
    | some rules => admitsMembers rules trees
    | none => false

def admitsItems (item : Rule) : List Tree → Bool
  | [] => true
  | t :: ts => admits item t && admitsItems item ts

def admitsMembers (rules : List (String × Rule)) : List (String × Tree) → Bool
  | [] => true
  | (name, t) :: rest =>
    (match rules.lookup name with
      | some rule => admits rule t
      | none => false)
      && admitsMembers rules rest

end

end Rule

/-- The rule for a whole request. -/
def requestRule : Rule := .record .request

end SchemaBindings.Contract
