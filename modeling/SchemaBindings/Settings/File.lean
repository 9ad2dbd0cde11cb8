import SchemaBindings.Document.Decode
import SchemaBindings.Document.Yaml.Meaning
import SchemaBindings.Settings.Basic
import SchemaBindings.Text.Utf8

namespace SchemaBindings.Settings

open SchemaBindings.Document

/-- Reads settings over others. -/
def reader (d : Dialect) : Reader Settings := d.record
  [("outDir", focus d.text (·.outDir) fun r v => { r with outDir := v }),
    ("suffix", focus d.text (·.suffix) fun r v => { r with suffix := v }),
    ("workers", focus d.int64 (fun r => Int64.ofInt r.workers)
      fun r v => { r with workers := v.toInt }),
    ("validate", focus d.flag (·.validate) fun r v => { r with validate := v })]

/-- The settings in the text of a file, over the standard ones. A text that says nothing changes
nothing. -/
def ofBytes (path : String) (bytes : List UInt8) : Except Problem Settings :=
  let read? := match (Text.chars? bytes).bind Yaml.read? with
    | some (some tree) => reader .yaml standard tree
    | some none => some standard
    | none => none
  match read? with
  | some s => (s.check.mapError (.invalidFile path)).map fun _ => s
  | none => .error (.malformed path)

/-- The settings in the file that a path leads to; no path means the standard ones. -/
def load (tree : Delivery.FileTree) (path : String) : Except Problem Settings :=
  if path = "" then .ok standard
  else match tree.read path with
    | .ok bytes => ofBytes path bytes
    | .error reason => .error (.unreadable path reason)

end SchemaBindings.Settings
