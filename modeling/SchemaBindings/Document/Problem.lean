import SchemaBindings.Document.Format
import SchemaBindings.Schema.Failure
import SchemaBindings.Text.Quoted

namespace SchemaBindings.Document

open SchemaBindings.Schema
open SchemaBindings.Text

/-- Why a node of a document cannot be taken into a request. -/
inductive Fault where
  | unknownNodeKind (name : String)
  | unknownKind (name : String)
  | badBase64 (index : Nat)
  | structWithoutPayload
  | enumWithoutPayload
  | constWithoutPayload
  | slotAndGroup
  | noSlotOrGroup
  | listWithoutElement
  | noTypeId (kind : Kind)
  | otherKind (given wanted : Kind)
  | wideFloatBits (bits : UInt64)
  | strayFloatBits (kind : Kind)
  deriving DecidableEq, Repr

/-- The part of a node that a fault is in. -/
inductive Part where
  | encodedForm
  | data
  | element
  | initial
  | constant
  | member (name : String)
  deriving DecidableEq, Repr

/-- A fault with the parts around it, the outermost first. -/
structure NodeProblem where
  trail : List Part
  fault : Fault
  deriving DecidableEq, Repr

namespace Fault

def message : Fault → String
  | unknownNodeKind name => "unknown node kind " ++ quote name
  | unknownKind name => "unknown type kind " ++ quote name
  | badBase64 index => "illegal base64 data at input byte " ++ decimal index
  | structWithoutPayload => "struct node without struct payload"
  | enumWithoutPayload => "enum node without enum payload"
  | constWithoutPayload => "const node without const payload"
  | slotAndGroup => "both slot and group set"
  | noSlotOrGroup => "neither slot nor group set"
  | listWithoutElement => "list type without elementType"
  | noTypeId kind => kind.name ++ " type without typeId"
  | otherKind given wanted => given.name ++ " value for " ++ wanted.name ++ " type"
  | wideFloatBits bits => "floatBits " ++ idText bits ++ " overflows float32"
  | strayFloatBits kind => "floatBits on " ++ kind.name ++ " value"

end Fault

namespace Part

def text : Part → String
  | encodedForm => "encoded"
  | data => "data"
  | element => "element"
  | initial => "default"
  | constant => "value"
  | member name => "field " ++ quote name

end Part

namespace NodeProblem

def ofFault (fault : Fault) : NodeProblem :=
  ⟨[], fault⟩

/-- The same problem seen from one part further out. -/
def within (part : Part) (p : NodeProblem) : NodeProblem :=
  ⟨part :: p.trail, p.fault⟩

def message (p : NodeProblem) : String :=
  p.trail.foldr (fun part text => part.text ++ ": " ++ text) p.fault.message

end NodeProblem

/-- Why no request can be read. -/
inductive Problem where
  | unknownFormat (name : String)
  | badFrame
  | malformed (format : Format)
  | empty
  | badNode (index : Nat) (id : UInt64) (problem : NodeProblem)
  deriving DecidableEq, Repr

namespace Problem

def message : Problem → String
  | unknownFormat name => quote name ++ ": unknown request document format"
  | badFrame => "decompressing"
  | malformed format => "invalid request document: " ++ format.name
  | empty => "invalid request document: empty document"
  | badNode index id problem =>
    "invalid request document: node " ++ decimal index ++ " (@" ++ idText id ++ "): "
      ++ problem.message

end Problem

end SchemaBindings.Document
