import SchemaBindings.Command.Run

namespace SchemaBindings.Command

open SchemaBindings.Delivery

/-- The code by which the system tells a directory read as a file. -/
def isDirectoryCode : UInt32 := 21

def unreadableOf : IO.Error → Unreadable
  | .inappropriateType _ code _ =>
    if code = isDirectoryCode then .isDirectory else .notDirectory
  | _ => .missing

def readFile (path : String) : IO (Except Unreadable (List UInt8)) := do
  try
    return .ok (← IO.FS.readBinFile path).toList
  catch e => return .error (unreadableOf e)

partial def readStream (stream : IO.FS.Stream) (done : ByteArray) : IO ByteArray := do
  let chunk ← stream.read 65536
  if chunk.isEmpty then return done else readStream stream (done ++ chunk)

def loadSettings (path : String) : IO (Except Settings.Problem Settings) := do
  if path = "" then return .ok .standard
  match ← readFile path with
  | .ok bytes => return Settings.ofBytes path bytes
  | .error reason => return .error (.unreadable path reason)

def readInput (i : Invocation) : IO (Except Problem (List UInt8)) := do
  match i.file? with
  | some path => return (← readFile path).mapError (.unreadable path)
  | none => return .ok (← readStream (← IO.getStdin) .empty).toList

def printLines (lines : List String) : IO Unit :=
  lines.forM fun line => IO.eprintln line

/-- Delivers one file to the system's directories. -/
def store (root name source : String) : IO (Except Undelivered Unit) := do
  match target root name with
  | .error reason => return .error reason
  | .ok path =>
    try
      IO.FS.createDirAll path.parent.text
    catch _ => return .error (.noDirectory name)
    try
      IO.FS.writeFile path.text source
      return .ok ()
    catch _ => return .error (.notWritten name)

def storeAll (i : Invocation) (root : String) (files : List (String × String)) :
    IO (Except Problem Unit) := do
  for (name, source) in files do
    match ← store root name source with
    | .error reason => return .error (.compile (.undelivered reason))
    | .ok () => printLines (i.lines [.written name source.utf8ByteSize])
  printLines (i.lines [.finished files.length])
  return .ok ()

def execute (i : Invocation) : IO (Except Problem Unit) := do
  match i.settle (← loadSettings i.flags.config) with
  | .error problem => return .error problem
  | .ok (settings, format) =>
    match (← readInput i) >>= i.document format with
    | .error problem => return .error problem
    | .ok d =>
      let (events, outputs) := Compile.documentOutputs settings false d
      printLines (i.lines events)
      match outputs with
      | .error problem => return .error (.compile problem)
      | .ok files => storeAll i settings.outDir files

end SchemaBindings.Command

def main (arguments : List String) : IO UInt32 := do
  let result ← match SchemaBindings.Command.parse arguments with
    | .error m => do
      SchemaBindings.Command.printLines m.report
      pure (.error (SchemaBindings.Command.Problem.misuse m))
    | .ok i => SchemaBindings.Command.execute i
  match result with
  | .ok () => return 0
  | .error problem =>
    IO.eprintln ("error: " ++ problem.message)
    return 1
