import SchemaBindings.Text.Integer
import SchemaBindings.Text.Quoted

namespace SchemaBindings.Command

open SchemaBindings.Text

/-- What the command line says. -/
structure Flags where
  outDir : String
  config : String
  params : String
  format : String
  workers : Int
  skipCheck : Bool
  verbose : Bool
  deriving DecidableEq, Repr

def Flags.standard : Flags := ⟨"", "", "", "auto", 0, false, false⟩

/-- Why a command line cannot be followed. -/
inductive Misuse where
  | badForm (argument : String)
  | unknown (name : String)
  | noArgument (name : String)
  | badValue (value name : String) (reason : NotInteger)
  | badFlag (value name : String)
  | helpRequested
  | tooManyFiles (count : Nat)
  deriving DecidableEq, Repr

namespace Misuse

def reasonText : NotInteger → String
  | .malformed => "parse error"
  | .outOfRange => "value out of range"

def message : Misuse → String
  | badForm argument => "bad flag syntax: " ++ argument
  | unknown name => "flag provided but not defined: -" ++ name
  | noArgument name => "flag needs an argument: -" ++ name
  | badValue value name reason =>
    "invalid value " ++ quote value ++ " for flag -" ++ name ++ ": " ++ reasonText reason
  | badFlag value name =>
    "invalid boolean value " ++ quote value ++ " for -" ++ name ++ ": " ++ reasonText .malformed
  | helpRequested => "flag: help requested"
  | tooManyFiles count => "expected at most one request file, got " ++ decimal count

end Misuse

def usage : List String :=
  ["usage: capnpc-js [flags] [request-file]",
    "",
    "Reads the request from stdin when no file is given.",
    "",
    "  -config string",
    "    \tYAML config file",
    "  -format string",
    "    \trequest format: auto, json or yaml (default \"auto\")",
    "  -j int",
    "    \tconcurrent files (0 = config or number of CPUs)",
    "  -no-validate",
    "    \tskip the request contract check",
    "  -o string",
    "    \toutput directory (overrides config)",
    "  -param string",
    "    \tparameter string, e.g. \"out=gen suffix=.mjs workers=2\"",
    "  -v\tdebug logging"]

/-- What is printed about a command line that cannot be followed. -/
def Misuse.report : Misuse → List String
  | helpRequested | tooManyFiles _ => usage
  | m => m.message :: usage

/-- A flag that stands alone or has a truth value behind an equality sign. -/
def setSwitch? (f : Flags) : String → Option (Bool → Flags)
  | "no-validate" => some fun b => { f with skipCheck := b }
  | "v" => some fun b => { f with verbose := b }
  | _ => none

/-- A flag that has a value. -/
def setValue? (f : Flags) (name : String) : Option (String → Except Misuse Flags) :=
  match name with
  | "o" => some fun value => .ok { f with outDir := value }
  | "config" => some fun value => .ok { f with config := value }
  | "param" => some fun value => .ok { f with params := value }
  | "format" => some fun value => .ok { f with format := value }
  | "j" => some fun value =>
    match literalInteger value with
    | .ok n => .ok { f with workers := n }
    | .error reason => .error (.badValue value name reason)
  | _ => none

/-- What an argument is. -/
inductive Argument where
  | file
  | endOfFlags
  | flag (name : String) (value? : Option String)
  | badForm
  deriving DecidableEq, Repr

/-- Splits a flag at the first equality sign behind its first character. -/
def splitFlag (cs : List Char) : String × Option String :=
  let head := cs.take 1
  let tail := cs.drop 1
  let name := String.ofList (head ++ tail.takeWhile (· != '='))
  match tail.dropWhile (· != '=') with
  | _ :: value => (name, some (String.ofList value))
  | [] => (name, none)

/-- A flag starts with one or two dashes; a dash alone is a file, and two alone end the flags. -/
def argument (s : String) : Argument :=
  match s.toList with
  | ['-', '-'] => .endOfFlags
  | '-' :: '-' :: cs => ofName cs
  | '-' :: c :: cs => ofName (c :: cs)
  | _ => .file
where
  ofName (cs : List Char) : Argument :=
    if cs.head? = some '-' ∨ cs.head? = some '=' ∨ cs.isEmpty then .badForm
    else
      let (name, value?) := splitFlag cs
      .flag name value?

/-- Reads flags up to the first argument that is none; the rest are files. -/
def parseFrom (f : Flags) : List String → Except Misuse (Flags × List String)
  | [] => .ok (f, [])
  | s :: rest =>
    match argument s with
    | .file => .ok (f, s :: rest)
    | .endOfFlags => .ok (f, rest)
    | .badForm => .error (.badForm s)
    | .flag name value? =>
      match setSwitch? f name, setValue? f name with
      | some set, _ =>
        match value? with
        | none => parseFrom (set true) rest
        | some value =>
          match readFlag? value with
          | some b => parseFrom (set b) rest
          | none => .error (.badFlag value name)
      | none, some set =>
        match value?, rest with
        | some value, rest => do parseFrom (← set value) rest
        | none, value :: rest => do parseFrom (← set value) rest
        | none, [] => .error (.noArgument name)
      | none, none =>
        if name = "help" ∨ name = "h" then .error .helpRequested else .error (.unknown name)

/-- What a command line asks for: its flags, and the file to read if one is named. -/
structure Invocation where
  flags : Flags
  file? : Option String
  deriving DecidableEq, Repr

def parse (arguments : List String) : Except Misuse Invocation := do
  match ← parseFrom .standard arguments with
  | (flags, []) => return ⟨flags, none⟩
  | (flags, [file]) => return ⟨flags, some file⟩
  | (_, files) => .error (.tooManyFiles files.length)

end SchemaBindings.Command
