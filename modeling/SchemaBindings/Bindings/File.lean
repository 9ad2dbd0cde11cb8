import SchemaBindings.Bindings.Generate

namespace SchemaBindings.Bindings

open SchemaBindings.Schema SchemaBindings.Text

/-- The last element of a slash-separated path, trailing slashes left out. -/
def baseName (path : String) : String :=
  if path.isEmpty then "."
  else
    let reversed := path.toList.reverse.dropWhile (· == '/')
    if reversed.isEmpty then "/"
    else String.ofList (reversed.takeWhile (· != '/')).reverse

/-- A generated file. -/
structure SourceFile where
  id : UInt64
  displayName : String
  exportName? : Option String
  imports : List NamedId
  declarations : List Declaration

namespace SourceFile

def entries (f : SourceFile) : List SchemaEntry :=
  Declaration.entriesList f.declarations

/-- What the file provides and requires. -/
def header (f : SourceFile) : String :=
  "// Generated by Cap'n Proto compiler, DO NOT EDIT\n"
    ++ "// source: " ++ baseName f.displayName ++ "\n\n"
    ++ "goog.provide('" ++ moduleName f.id ++ "');\n"
    ++ ((f.exportName?.map fun name => "goog.provide('" ++ name ++ "');\n").getD "")
    ++ "\ngoog.require('capnp.genhelper');\n"
    ++ "goog.require('goog.object');\n"
    ++ String.join (f.imports.map fun i => "goog.require('" ++ moduleName i.id ++ "');\n")

/-- The local names of the module, the embedded schemas and the imports. -/
def locals (f : SourceFile) : String :=
  indent 1 ++ "var module = " ++ moduleName f.id ++ ";\n"
    ++ indent 1 ++ "var schemas = \x7b\x7d;\n"
    ++ String.join (f.imports.map fun i =>
        indent 1 ++ "var " ++ importName i.id ++ " = " ++ moduleName i.id ++ "; // " ++ i.name
          ++ "\n")

def schemas (f : SourceFile) : String :=
  String.join (f.entries.map SchemaEntry.text)

def definitions (f : SourceFile) : String :=
  Declaration.textList f.declarations

def exportLine (f : SourceFile) : String :=
  (f.exportName?.map fun name =>
    indent 1 ++ "goog.object.extend(" ++ name ++ ", " ++ moduleName f.id ++ ");\n").getD ""

def text (f : SourceFile) : String :=
  f.header ++ "\n(function() \x7b\n\n" ++ f.locals ++ "\n" ++ f.schemas ++ "\n" ++ f.definitions
    ++ f.exportLine ++ "\x7d)();\n"

end SourceFile

/-- The bindings of a requested file. `filename` is the display name of its node. -/
structure FileOutput where
  id : UInt64
  filename : String
  source : String
  usedImports : List NamedId
  deriving DecidableEq, Repr

/-- Generates a file node. Its imports are known only once all declarations are there. -/
def sourceFile (context : FileContext) (file : Node) : Except Failure SourceFile :=
  let (result, used) := Generation.run (fileDeclarations file) context []
  result.map fun declarations =>
    { id := file.id
      displayName := file.displayName
      exportName? := file.annotationText? namespaceAnnotationId
      imports := usedImports context.file used
      declarations := declarations }

/-- The bindings of a requested file. -/
def generateFile (g : Graph) (request : RequestedFile) : Except Failure FileOutput := do
  let file ← (g.find request.id).mapError (.within (.requestedFile request.filename))
  if file.kind ≠ .fileNode then
    throw (.ofCause (.notAFile request.filename file.kind))
  let source ← (sourceFile ⟨g, request⟩ file).mapError (.within (.node file.displayName))
  return ⟨file.id, file.displayName, source.text, source.imports⟩

end SchemaBindings.Bindings
