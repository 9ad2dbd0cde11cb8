import SchemaBindings.Schema.Kind
import SchemaBindings.Text.Digits

namespace SchemaBindings.Schema

open SchemaBindings.Text

def idText (id : UInt64) : String :=
  "0x" ++ hex id.toNat

/-- Why a graph or the bindings of a file cannot be built. -/
inductive Cause where
  | unknownNode (id : UInt64)
  | duplicateNode (id : UInt64)
  | scopeMismatch (name : String) (id : UInt64) (scope : String) (scopeId : UInt64)
  | notLiteral (kind : Kind)
  | nestedFile
  | noSlots (kind : NodeKind)
  | listWithoutElement
  | noTypeName (kind : Kind)
  | noDataAccessor (kind : Kind)
  | structWithoutPayload
  | constWithoutPayload
  | notAFile (filename : String) (kind : NodeKind)
  | endlessLinks
  deriving DecidableEq, Repr

/-- Where a cause was met. -/
inductive Place where
  | scopeOf (name : String)
  | groupField (owner member : String)
  | nestedEntry (name : String)
  | nestedEntryOf (name owner : String)
  | groupEntryOf (name owner : String)
  | node (name : String)
  | field (name : String)
  | requestedFile (filename : String)
  deriving DecidableEq, Repr

/-- A cause with the places around it, the outermost first. -/
structure Failure where
  trail : List Place
  cause : Cause
  deriving DecidableEq, Repr

namespace Cause

def message : Cause → String
  | unknownNode id => "@" ++ idText id ++ ": unknown schema node"
  | duplicateNode id => "@" ++ idText id ++ ": duplicate schema node id"
  | scopeMismatch name id scope scopeId =>
    name ++ " (@" ++ idText id ++ ") in " ++ scope ++ " (@" ++ idText scopeId
      ++ "): node's scope does not contain it as a nested node"
  | notLiteral kind => kind.name ++ ": value has no literal form"
  | nestedFile => "file node cannot be declared inside a scope"
  | noSlots kind => "slots requested for " ++ kind.name ++ " node"
  | listWithoutElement => "list type without element type"
  | noTypeName kind => "no type name for " ++ kind.name
  | noDataAccessor kind => "no data accessor for " ++ kind.name
  | structWithoutPayload => "struct node without struct payload"
  | constWithoutPayload => "const node without const payload"
  | notAFile filename kind => "requested file " ++ filename ++ " is a " ++ kind.name ++ " node"
  | endlessLinks => "links between nodes have no end"

end Cause

namespace Place

def text : Place → String
  | scopeOf name => "scope of " ++ name
  | groupField owner member => "group " ++ owner ++ "." ++ member
  | nestedEntry name => "nested " ++ name
  | nestedEntryOf name owner => "nested " ++ name ++ " of " ++ owner
  | groupEntryOf name owner => "group " ++ name ++ " of " ++ owner
  | node name => name
  | field name => "field " ++ name
  | requestedFile filename => "requested file " ++ filename

end Place

namespace Failure

def ofCause (cause : Cause) : Failure :=
  ⟨[], cause⟩

/-- The same failure seen from one place further out. -/
def within (place : Place) (f : Failure) : Failure :=
  ⟨place :: f.trail, f.cause⟩

def message (f : Failure) : String :=
  f.trail.foldr (fun place text => place.text ++ ": " ++ text) f.cause.message

end Failure

end SchemaBindings.Schema
