import SchemaBindings.Settings.Basic
import SchemaBindings.Text.Blank
import SchemaBindings.Text.Integer

namespace SchemaBindings.Settings

def isKeyChar (c : Char) : Bool :=
  c.isAlphanum || c == '_'

/-- Splits a word at its first equality sign; the key consists of letters, digits and underscores,
and neither part is empty. -/
def splitParameter? (word : String) : Option (String × String) :=
  let key := word.toList.takeWhile isKeyChar
  match word.toList.dropWhile isKeyChar with
  | '=' :: value =>
    if key.isEmpty || value.isEmpty then none
    else some (String.ofList key, String.ofList value)
  | _ => none

/-- Changes the setting that a key names. -/
def assign (s : Settings) (key value : String) : Except Problem Settings :=
  match key with
  | "out" => .ok { s with outDir := value }
  | "suffix" => .ok { s with suffix := value }
  | "workers" =>
    match Text.decimalInteger value with
    | .ok n => .ok { s with workers := n }
    | .error _ => .error (.badWorkers value)
  | "validate" =>
    match Text.readFlag? value with
    | some b => .ok { s with validate := b }
    | none => .error (.badValidate value)
  | key => .error (.unknownParameter key)

def assignWord (params : String) (s : Settings) (word : String) : Except Problem Settings :=
  match splitParameter? word with
  | some (key, value) => s.assign key value
  | none => .error (.malformedParameter word params)

/-- Applies words one after the other up to the first that fails; what was applied before stays. -/
def applyWords (params : String) (s : Settings) : List String → Settings × Except Problem Unit
  | [] => (s, .ok ())
  | word :: words =>
    match assignWord params s word with
    | .ok changed => applyWords params changed words
    | .error problem => (s, .error problem)

/-- Lays a string of parameters over the settings, and checks the outcome. -/
def applyParameters (s : Settings) (params : String) : Settings × Except Problem Unit :=
  match applyWords params s (Text.words params) with
  | (changed, .ok ()) => (changed, changed.check.mapError .invalid)
  | failed => failed

end SchemaBindings.Settings
