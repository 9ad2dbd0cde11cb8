import SchemaBindings.Proofs.Bindings.Resolution

namespace SchemaBindings

open Relation
open SchemaBindings.Schema SchemaBindings.Text

namespace Schema.Graph

variable {g : Graph} {n m : Node} {file : UInt64}

theorem mem_of_reflTransGen (hn : n ∈ g.nodes) (h : ReflTransGen g.Declares n m) : m ∈ g.nodes := by
  cases h with
  | refl => exact hn
  | tail _ hm => exact hm.mem

/-- Nothing is left out where all values are named and nothing is declared out of sight. -/
theorem not_leftOut (hn : n ∈ g.nodes)
    (hshown : ∀ m ∈ g.nodes, m.showsDeclared = false → m.declared = [])
    (hnamed : ∀ m ∈ g.nodes, ∀ c ∈ m.const?, ∀ e ∈ g.find? c.type.typeId,
      (e.enumerants?.getD [])[c.value.enum.toNat]? ≠ none) :
    ¬g.LeftOut n file := by
  intro h
  cases h with
  | unnamed hm hu _ _ =>
    obtain ⟨c, e, -, hc, -, he, hnone⟩ := hu
    exact hnamed _ (mem_of_reflTransGen hn hm) c hc e he hnone
  | hidden hm hs hid _ =>
    obtain ⟨k, hk, -⟩ := hid
    obtain ⟨l, ⟨id, hl, -⟩, -⟩ := TransGen.head'_iff.1 hk
    rw [hshown _ (mem_of_reflTransGen hn hm) hs] at hl
    cases hl

end Schema.Graph

namespace Bindings

theorem mem_usedImports {file : RequestedFile} {used : UsedFiles} {i : NamedId} :
    i ∈ usedImports file used ↔ i ∈ file.imports ∧ i.id ∈ used := by
  simp [usedImports]

namespace SourceFile

variable {source : SourceFile} {i : NamedId}

theorem require_within_header (h : i ∈ source.imports) :
    Within ("goog.require('" ++ moduleName i.id ++ "');\n") source.header := by
  have hmem : "goog.require('" ++ moduleName i.id ++ "');\n" ∈
      source.imports.map fun i => "goog.require('" ++ moduleName i.id ++ "');\n" :=
    List.mem_map_of_mem h
  exact (Within.join hmem).right

theorem binding_within_locals (h : i ∈ source.imports) :
    Within ("var " ++ importName i.id ++ " = " ++ moduleName i.id ++ ";") source.locals := by
  have hmem : indent 1 ++ "var " ++ importName i.id ++ " = " ++ moduleName i.id ++ "; // " ++ i.name
      ++ "\n" ∈ source.imports.map fun i =>
        indent 1 ++ "var " ++ importName i.id ++ " = " ++ moduleName i.id ++ "; // " ++ i.name
          ++ "\n" :=
    List.mem_map_of_mem h
  refine Within.right (.trans ?_ (.join hmem))
  -- after the semicolon the line goes on with the name of the import
  have hmark : "; // " = ";" ++ " // " := rfl
  have hline : indent 1 ++ "var " ++ importName i.id ++ " = " ++ moduleName i.id ++ "; // "
      ++ i.name ++ "\n" = indent 1 ++ ("var " ++ importName i.id ++ " = " ++ moduleName i.id ++ ";")
        ++ (" // " ++ i.name ++ "\n") := by
    simp only [hmark, String.append_assoc]
  rw [hline]
  exact (Within.refl _).right.left

end SourceFile

/-- What the definitions of a generated file name, and the imports it lists as used. -/
theorem generateFile_resolved {g : Graph} {request : RequestedFile} {out : FileOutput}
    (h : generateFile g request = .ok out) :
    ∃ file source used, g.find? request.id = some file ∧
      sourceFile ⟨g, request⟩ file = .ok source ∧ out.source = source.text ∧
      out.usedImports = source.imports ∧ source.imports = usedImports request used ∧
      Resolved ⟨g, request⟩ (g.RefersBelow file) (g.LeftOut file) [] source.names used := by
  obtain ⟨file, source, hfile, -, hsource, rfl⟩ := generateFile_eq_ok h
  obtain ⟨used, hrun, -, himports⟩ := sourceFile_eq_ok hsource
  exact ⟨file, source, used, hfile, hsource, rfl, rfl, himports,
    fileDeclarations_resolved hrun fun _ hf => hf⟩

/-- A file that the definitions lead into is declared if the request lists it among the imports, by
a line that requires it and a line that binds its local name, and only then. -/
theorem named_imports_are_declared (g : Graph) (request : RequestedFile) (out : FileOutput)
    (h : generateFile g request = .ok out) :
    ∃ file source, g.find? request.id = some file ∧
      sourceFile ⟨g, request⟩ file = .ok source ∧ out.source = source.text ∧
      ∀ q ∈ source.names, ∀ f, LeadsInto ⟨g, request⟩ q f →
        ((∃ i ∈ out.usedImports, i.id = f) ↔ ∃ i ∈ request.imports, i.id = f) ∧
        ((∃ i ∈ request.imports, i.id = f) →
          Within ("goog.require('" ++ moduleName f ++ "');\n") source.header ∧
          Within ("var " ++ importName f ++ " = " ++ moduleName f ++ ";") source.locals) := by
  obtain ⟨file, source, used, hfile, hsource, htext, hused, himports, hres⟩ :=
    generateFile_resolved h
  refine ⟨file, source, hfile, hsource, htext, fun q hq f hf => ?_⟩
  have hmem : ∀ i ∈ request.imports, i.id = f → i ∈ source.imports := by
    rintro i hi rfl
    rw [himports, mem_usedImports]
    exact ⟨hi, hres.marked q hq _ hf⟩
  rw [hused]
  refine ⟨⟨?_, ?_⟩, ?_⟩
  · rintro ⟨i, hi, hid⟩
    rw [himports, mem_usedImports] at hi
    exact ⟨i, hi.1, hid⟩
  · rintro ⟨i, hi, hid⟩
    exact ⟨i, hmem i hi hid, hid⟩
  · rintro ⟨i, hi, rfl⟩
    have hi := hmem i hi rfl
    exact ⟨SourceFile.require_within_header hi, SourceFile.binding_within_locals hi⟩

namespace Library

def record : Node :=
  { node 4 .structNode 3 [] with
    struct? := some ⟨0, 0, 0, false, 0, 0, []⟩ }

def recordsFile : Node :=
  node 3 .fileNode 0 [⟨"Record", 4⟩]

/-- A struct whose only field is a list of the records of another file. -/
def loan : Node :=
  { node 2 .structNode 1 [] with
    struct? := some ⟨0, 1, 0, false, 0, 0,
      [⟨"records", 0, noDiscriminant, .slot ⟨0, .listOf (.plain .struct 4), .zero .list, 0⟩⟩]⟩ }

def loansFile : Node :=
  node 1 .fileNode 0 [⟨"Loan", 2⟩]

def loansGraph : Graph :=
  ⟨[loansFile, loan, recordsFile, record], by decide⟩

def loansRequest (imports : List NamedId) : RequestedFile :=
  ⟨1, "loans", imports⟩

def importing : RequestedFile :=
  loansRequest [⟨"records", 3⟩]

end Library

/-- Loans lead into the file of records, which the file of loans imports. -/
theorem named_imports_are_declared_records :
    ∃ out source, generateFile Library.loansGraph Library.importing = .ok out ∧
      sourceFile ⟨Library.loansGraph, Library.importing⟩ Library.loansFile = .ok source ∧
      ⟨.foreign 3, ["Record"]⟩ ∈ source.names ∧ (∃ i ∈ out.usedImports, i.id = 3) ∧
      Within "goog.require('capnp_generated_3');\n" source.header ∧
      Within "var import_3 = capnp_generated_3;" source.locals := by
  obtain ⟨file, source, hfile, hsource, -, hall⟩ := named_imports_are_declared
    Library.loansGraph Library.importing _ rfl
  cases hfile
  cases hsource
  obtain ⟨hiff, hlines⟩ := hall ⟨.foreign 3, ["Record"]⟩ (by decide +kernel) 3 ⟨rfl, by decide⟩
  have hlisted : ∃ i ∈ Library.importing.imports, i.id = 3 := by decide
  exact ⟨_, _, rfl, rfl, by decide +kernel, hiff.2 hlisted, hlines hlisted⟩

/-- Where the request does not list the file of records, loans still lead into it, under a name that
nothing binds. -/
theorem named_file_missing_from_imports :
    ∃ out source, generateFile Library.loansGraph (Library.loansRequest []) = .ok out ∧
      sourceFile ⟨Library.loansGraph, Library.loansRequest []⟩ Library.loansFile = .ok source ∧
      out.source = source.text ∧ ⟨.foreign 3, ["Record"]⟩ ∈ source.names ∧
      LeadsInto ⟨Library.loansGraph, Library.loansRequest []⟩ ⟨.foreign 3, ["Record"]⟩ 3 ∧
      Within "import_3.Record" source.definitions ∧ source.imports = [] ∧
      ¬Within "capnp_generated_3" source.header ∧ ¬Within "import_3" source.locals := by
  have htext : "import_3.Record" = (⟨.foreign 3, ["Record"]⟩ : QualifiedName).text := by
    decide +kernel
  refine ⟨_, _, rfl, rfl, rfl, ?_, ⟨rfl, by decide⟩, ?_, rfl, ?_, ?_⟩
  · decide +kernel
  · rw [htext]
    exact Declaration.namesList_within _ (by decide +kernel)
  · decide +kernel
  · decide +kernel

/-- An import that is listed as used is the head of a name in the definitions, unless it is referred
to where the definitions leave the reference out. -/
theorem used_imports_are_named (g : Graph) (request : RequestedFile) (out : FileOutput)
    (h : generateFile g request = .ok out) :
    ∃ file source, g.find? request.id = some file ∧
      sourceFile ⟨g, request⟩ file = .ok source ∧ out.source = source.text ∧
      ∀ i ∈ out.usedImports, ¬g.LeftOut file i.id →
        ∃ q ∈ source.names, LeadsInto ⟨g, request⟩ q i.id ∧ Within q.text source.definitions := by
  obtain ⟨file, source, used, hfile, hsource, htext, hused, himports, hres⟩ :=
    generateFile_resolved h
  refine ⟨file, source, hfile, hsource, htext, fun i hi hleft => ?_⟩
  rw [hused, himports, mem_usedImports] at hi
  rcases hres.named i.id hi.2 with hnil | ⟨q, hq, hleads⟩ | hlost
  · cases hnil
  · exact ⟨q, hq, hleads, Declaration.namesList_within _ hq⟩
  · exact absurd hlost hleft

namespace Library

def genre : Node :=
  { node 4 .enumNode 3 [] with
    enumerants? := some [⟨"novel", 0⟩, ⟨"poetry", 1⟩] }

def genresFile : Node :=
  node 3 .fileNode 0 [⟨"Genre", 4⟩]

/-- A constant whose type is the enum of another file. -/
def favorite (ordinal : UInt16) : Node :=
  { node 2 .constNode 1 [] with
    const? := some ⟨.plain .enum 4, { Value.zero .enum with enum := ordinal }, 0⟩ }

def tasteFile : Node :=
  node 1 .fileNode 0 [⟨"favorite", 2⟩]

def tasteGraph (ordinal : UInt16) : Graph :=
  ⟨[tasteFile, favorite ordinal, genresFile, genre],
    by simp [tasteFile, favorite, genresFile, genre, node]⟩

def tasteRequest : RequestedFile :=
  ⟨1, "taste", [⟨"genres", 3⟩]⟩

end Library

/-- A constant with a name of its own uses the file of its enum, and names it. -/
theorem used_imports_are_named_poetry :
    ∃ out source, generateFile (Library.tasteGraph 1) Library.tasteRequest = .ok out ∧
      sourceFile ⟨Library.tasteGraph 1, Library.tasteRequest⟩ Library.tasteFile = .ok source ∧
      ⟨"genres", 3⟩ ∈ out.usedImports ∧ ¬(Library.tasteGraph 1).LeftOut Library.tasteFile 3 ∧
      ∃ q ∈ source.names, LeadsInto ⟨Library.tasteGraph 1, Library.tasteRequest⟩ q 3 ∧
        Within q.text source.definitions := by
  have hleft : ¬(Library.tasteGraph 1).LeftOut Library.tasteFile 3 :=
    Graph.not_leftOut (by decide) (by decide) (by decide)
  obtain ⟨file, source, hfile, hsource, -, hall⟩ := used_imports_are_named
    (Library.tasteGraph 1) Library.tasteRequest _ rfl
  cases hfile
  cases hsource
  exact ⟨_, _, rfl, rfl, by decide +kernel, hleft, hall ⟨"genres", 3⟩ (by decide +kernel) hleft⟩

/-- A constant past the known enumerants is written as its ordinal, and yet the file of its enum is
listed as used. -/
theorem used_import_without_name :
    ∃ out source, generateFile (Library.tasteGraph 2) Library.tasteRequest = .ok out ∧
      sourceFile ⟨Library.tasteGraph 2, Library.tasteRequest⟩ Library.tasteFile = .ok source ∧
      out.source = source.text ∧ out.usedImports = [⟨"genres", 3⟩] ∧ source.names = [] ∧
      source.definitions = "  module.FAVORITE = 2;\n\n" := by
  refine ⟨_, _, rfl, rfl, rfl, ?_, ?_, ?_⟩
  · decide +kernel
  · decide +kernel
  · decide +kernel

end Bindings
end SchemaBindings
