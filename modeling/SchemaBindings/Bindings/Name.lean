import SchemaBindings.Text.Digits

namespace SchemaBindings.Bindings

open SchemaBindings.Text

/-- The capital of an ASCII letter; all other characters stay. -/
def capital (c : Char) : Char :=
  if c.isLower then Char.ofNat (c.toNat - 32) else c

/-- Capitals, with an underscore before each letter that was one already. -/
def upperRest : List Char → List Char
  | [] => []
  | c :: cs => if c.isUpper then '_' :: c :: upperRest cs else capital c :: upperRest cs

/-- A member name as a constant: `someName` becomes `SOME_NAME`. -/
def upperSnake (name : String) : String :=
  match name.toList with
  | [] => ""
  | c :: cs => String.ofList (capital c :: upperRest cs)

/-- The name with its first letter capitalised. -/
def titleCase (name : String) : String :=
  match name.toList with
  | [] => ""
  | c :: cs => String.ofList (capital c :: cs)

def idHex (id : UInt64) : String :=
  hex id.toNat

/-- The name a file's bindings are provided under. -/
def moduleName (fileId : UInt64) : String :=
  "capnp_generated_" ++ idHex fileId

/-- The local name under which a file refers to the bindings of another. -/
def importName (fileId : UInt64) : String :=
  "import_" ++ idHex fileId

/-- The expression for the encoded form of a node that the file embeds. -/
def schemaRef (id : UInt64) : String :=
  "new Uint8Array(schemas['" ++ idHex id ++ "']).buffer"

end SchemaBindings.Bindings
