import SchemaBindings.Text.Blank
import SchemaBindings.Text.Digits
import SchemaBindings.Text.Quoted

namespace SchemaBindings.Compile

/-- What a run reports. -/
inductive Event where
  | validated (nodes : Nat)
  | started (nodes files : Nat)
  | generated (file : String) (bytes imports : Nat)
  | written (file : String) (bytes : Nat)
  | finished (files : Nat)
  deriving DecidableEq, Repr

namespace Event

/-- Reported only when more than the usual is asked for. -/
def isDetail : Event → Bool
  | validated _ | generated .. => true
  | _ => false

def level (e : Event) : String :=
  if e.isDetail then "DEBUG" else "INFO"

def name : Event → String
  | validated _ => "request.validated"
  | started .. => "compile.start"
  | generated .. => "file.generated"
  | written .. => "file.written"
  | finished _ => "compile.done"

def attributes : Event → List (String × String)
  | validated nodes => [("nodes", Text.decimal nodes)]
  | started nodes files => [("nodes", Text.decimal nodes), ("files", Text.decimal files)]
  | generated file bytes imports =>
    [("file", file), ("bytes", Text.decimal bytes), ("imports", Text.decimal imports)]
  | written file bytes => [("file", file), ("bytes", Text.decimal bytes)]
  | finished files => [("files", Text.decimal files)]

/-- The level, the name and the attributes as they are. -/
def summary (e : Event) : String :=
  " ".intercalate (e.level :: e.name :: e.attributes.map fun a => a.1 ++ "=" ++ a.2)

end Event

/-- A character that may stand in a value without quotes. Of the controls only delete may. -/
def isBare (c : Char) : Bool :=
  if c.toNat < 0x80 then 0x20 < c.toNat && c != '=' && c != '"'
  else c.toNat != 0xfffd && !Text.isBlank c && Text.isPrintable c

/-- A value of an attribute; it is quoted if it could be misread. -/
def valueText (s : String) : String :=
  if s != "" && s.toList.all isBare then s else Text.quote s

/-- A line of the log, where everything is an attribute. -/
def Event.line (e : Event) : String :=
  let attributes := ("level", e.level) :: ("msg", e.name) :: e.attributes
  " ".intercalate (attributes.map fun a => a.1 ++ "=" ++ valueText a.2)

end SchemaBindings.Compile
