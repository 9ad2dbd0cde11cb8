import SchemaBindings.Delivery.FileTree
import SchemaBindings.Text.Quoted

namespace SchemaBindings

/-- What a run can be told: where files go, what their names end with, how many of them are made at
a time (none said is zero), and whether requests are checked first. -/
structure Settings where
  outDir : String
  suffix : String
  workers : Int
  validate : Bool
  deriving DecidableEq, Repr

namespace Settings

def standard : Settings := ⟨".", ".js", 0, true⟩

/-- Why settings are not accepted. -/
inductive Invalid where
  | negativeWorkers (workers : Int)
  | noOutDir
  deriving DecidableEq, Repr

def Invalid.message : Invalid → String
  | negativeWorkers workers => "workers must not be negative, got: " ++ Text.signedDecimal workers
  | noOutDir => "outDir must not be empty"

def check (s : Settings) : Except Invalid Unit :=
  if s.workers < 0 then .error (.negativeWorkers s.workers)
  else if s.outDir = "" then .error .noOutDir
  else .ok ()

/-- Why settings cannot be read. -/
inductive Problem where
  | unreadable (path : String) (reason : Delivery.Unreadable)
  | malformed (path : String)
  | invalidFile (path : String) (reason : Invalid)
  | malformedParameter (token params : String)
  | badWorkers (value : String)
  | badValidate (value : String)
  | unknownParameter (key : String)
  | invalid (reason : Invalid)
  deriving DecidableEq, Repr

def Problem.message : Problem → String
  | unreadable path reason => "reading config: " ++ reason.message path
  | malformed path => "parsing config " ++ path
  | invalidFile path reason => path ++ ": " ++ reason.message
  | malformedParameter token params =>
    "malformed parameter " ++ Text.quote token ++ " in " ++ Text.quote params
  | badWorkers value => "invalid workers: " ++ value
  | badValidate value => "invalid validate: " ++ value
  | unknownParameter key => "unknown parameter: " ++ key
  | invalid reason => reason.message

end Settings

end SchemaBindings
