import SchemaBindings.Document.Decode
import SchemaBindings.Document.Frame
import SchemaBindings.Document.Json
import SchemaBindings.Document.Problem
import SchemaBindings.Document.Yaml.Meaning
import SchemaBindings.Text.Utf8

namespace SchemaBindings.Document

def readJson (bytes : List UInt8) : Except Problem Document :=
  match Json.read? (Text.lossyChars bytes) with
  | some tree =>
    match decode? .json tree with
    | some d => .ok d
    | none => .error (.malformed .json)
  | none => .error (.malformed .json)

def readYaml (bytes : List UInt8) : Except Problem Document :=
  match (Text.chars? bytes).bind Yaml.read? with
  | some (some tree) =>
    match decode? .yaml tree with
    | some d => .ok d
    | none => .error (.malformed .yaml)
  | some none => .error .empty
  | none => .error (.malformed .yaml)

/-- The document that bytes hold. They are unpacked first if they are framed; an `auto` format is
told from the content. -/
def read (format : Format) (bytes : List UInt8) : Except Problem Document := do
  let content ←
    if Frame.isFramed bytes then
      match Frame.unpack? bytes with
      | some content => pure content
      | none => .error .badFrame
    else pure bytes
  let told := match format with
    | .auto => Format.sniff content
    | format => format
  if told = .json then readJson content else readYaml content

/-- The format with a name. -/
def namedFormat (name : String) : Except Problem Format :=
  match Format.ofName? name with
  | some format => .ok format
  | none => .error (.unknownFormat name)

end SchemaBindings.Document
