import SchemaBindings.Command.Flags
import SchemaBindings.Compile.Run
import SchemaBindings.Document.Read
import SchemaBindings.Settings.File
import SchemaBindings.Settings.Parameters

namespace SchemaBindings.Command

open SchemaBindings.Delivery

/-- Why a command fails. -/
inductive Problem where
  | misuse (misuse : Misuse)
  | settings (problem : Settings.Problem)
  | unreadable (path : String) (reason : Unreadable)
  | document (path? : Option String) (problem : Document.Problem)
  | compile (problem : Compile.Problem)
  deriving DecidableEq, Repr

namespace Problem

def message : Problem → String
  | misuse m => m.message
  | settings problem => problem.message
  | unreadable path reason => reason.message path
  | document none problem => problem.message
  | document (some path) problem => path ++ ": " ++ problem.message
  | compile problem => problem.message

/-- What is printed apart from the message itself. -/
def report : Problem → List String
  | misuse m => m.report
  | _ => []

end Problem

namespace Invocation

/-- Lays the parameters and then the flags over settings that were loaded. -/
def overlay (i : Invocation) (loaded : Settings) : Except Problem Settings := do
  let (s, result) := loaded.applyParameters i.flags.params
  result.mapError .settings
  return { s with
    outDir := if i.flags.outDir = "" then s.outDir else i.flags.outDir
    workers := if 0 < i.flags.workers then i.flags.workers else s.workers
    validate := s.validate && !i.flags.skipCheck }

def format (i : Invocation) : Except Problem Document.Format :=
  (Document.namedFormat i.flags.format).mapError (.document none)

/-- The settings of a command and the format of its request, once its settings are loaded. -/
def settle (i : Invocation) (loaded : Except Settings.Problem Settings) :
    Except Problem (Settings × Document.Format) := do
  let settings ← i.overlay (← loaded.mapError .settings)
  return (settings, ← i.format)

/-- The document in the bytes of a file, or of the standard input if there is no file. The name of a
file tells its format if no flag does. -/
def document (i : Invocation) (format : Document.Format) (bytes : List UInt8) :
    Except Problem Document :=
  let told := match format, i.file? with
    | .auto, some path => Document.Format.ofPath path
    | format, _ => format
  (Document.read told bytes).mapError (.document i.file?)

/-- The lines that are printed of what a run reports. -/
def lines (i : Invocation) (events : List Compile.Event) : List String :=
  (events.filter fun e => i.flags.verbose || !e.isDetail).map Compile.Event.line

end Invocation

/-- What a command does: lines it prints, files it leaves, and how it ends. -/
structure Effect where
  printed : List String
  tree : FileTree
  result : Except Problem Unit

/-- All that has to be known before a run. -/
def prepare (tree : FileTree) (input : List UInt8) (i : Invocation) :
    Except Problem (Settings × Document) := do
  let (settings, format) ← i.settle (Settings.load tree i.flags.config)
  let bytes ← match i.file? with
    | some path => (tree.read path).mapError (.unreadable path)
    | none => pure input
  return (settings, ← i.document format bytes)

/-- The files that a sink over a tree leaves. -/
def treeOf (before : FileTree) : Sink → FileTree
  | .directory _ tree => tree
  | .memory _ => before

/-- Runs a command line in a directory of files, with a standard input. -/
def run (tree : FileTree) (input : List UInt8) (arguments : List String) : Effect :=
  match parse arguments with
  | .error m => ⟨m.report, tree, .error (.misuse m)⟩
  | .ok i =>
    match prepare tree input i with
    | .error problem => ⟨problem.report, tree, .error problem⟩
    | .ok (settings, d) =>
      let o := Compile.runDocument settings .never (.directory settings.outDir tree) d
      ⟨i.lines o.events, treeOf tree o.sink, o.result.mapError .compile⟩

end SchemaBindings.Command
