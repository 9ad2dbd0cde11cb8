namespace SchemaBindings.Document

/-- How a request is written; `auto` leaves it to the name of the file and to its content. -/
inductive Format where
  | auto
  | json
  | yaml
  deriving DecidableEq, Repr, Inhabited

namespace Format

def name : Format → String
  | auto => "auto"
  | json => "json"
  | yaml => "yaml"

/-- The format with a name, in any case; no name is `auto`. -/
def ofName? (s : String) : Option Format :=
  match s.toLower with
  | "" | "auto" => some auto
  | "json" => some json
  | "yaml" | "yml" => some yaml
  | _ => none

/-- The last component of a path from its last dot on, and the path before that. -/
def splitExtension (path : List Char) : List Char × List Char :=
  let reversed := path.reverse
  let last := reversed.takeWhile (· != '/')
  if last.contains '.' then
    let ending := last.takeWhile (· != '.')
    ((reversed.drop (ending.length + 1)).reverse, '.' :: ending.reverse)
  else (path, [])

/-- The format that the extension of a path tells. The extension of a compressed file is looked
through. -/
def ofPath (path : String) : Format :=
  let (stem, outer) := splitExtension path.toList
  let extension :=
    if (String.ofList outer).toLower = ".zst" then (splitExtension stem).2 else outer
  match (String.ofList extension).toLower with
  | ".json" => json
  | ".yaml" | ".yml" => yaml
  | _ => auto

/-- A text that starts with a brace, white space aside, is taken for JSON, and any other for YAML. -/
def sniff (bytes : List UInt8) : Format :=
  match bytes.dropWhile fun b => b == 32 || b == 9 || b == 13 || b == 10 with
  | 0x7b :: _ => json
  | _ => yaml

end Format

end SchemaBindings.Document
