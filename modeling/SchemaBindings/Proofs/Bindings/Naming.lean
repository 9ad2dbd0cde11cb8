import SchemaBindings.Proofs.Bindings.Declaring

namespace SchemaBindings.Bindings

open SchemaBindings.Schema SchemaBindings.Outcome

variable {context : FileContext} {used used' : UsedFiles} {n : Node} {q : QualifiedName}

/-- The files used once a name has led into a file. -/
def UsedFiles.after (context : FileContext) (top : Node) (used : UsedFiles) : UsedFiles :=
  if top.id = context.file.id ∨ top.id ∈ used then used else used ++ [top.id]

theorem UsedFiles.mem_after {top : Node} {id : UInt64} :
    id ∈ UsedFiles.after context top used ↔
      id ∈ used ∨ (id = top.id ∧ id ≠ context.file.id) := by
  unfold UsedFiles.after
  split_ifs with h
  · constructor
    · exact Or.inl
    · rintro (hu | ⟨rfl, hne⟩)
      · exact hu
      · exact h.resolve_left hne
  · rw [not_or] at h
    rw [List.mem_append, List.mem_singleton]
    constructor
    · rintro (hu | rfl)
      · exact Or.inl hu
      · exact Or.inr ⟨rfl, h.1⟩
    · rintro (hu | ⟨rfl, -⟩)
      · exact Or.inl hu
      · exact Or.inr rfl

theorem run_qualify_top (depth : Nat) (h : n.scopeId = 0) :
    Generation.run (qualify (depth + 1) n) context used =
      (.ok ⟨rootOf context n, []⟩, UsedFiles.after context n used) := by
  have htop : n.isTopLevel = true := by simp [Node.isTopLevel, h]
  have hmark : Generation.run (Generation.markUsed n.id) context used =
      (.ok (), if n.id ∈ used then used else used ++ [n.id]) := rfl
  rw [qualify, Generation.run_bind, Generation.run_read]
  simp only [htop, if_true]
  by_cases hid : n.id = context.file.id
  · simp [hid, UsedFiles.after]
  · simp only [ne_eq, hid, not_false_eq_true, if_true, Generation.run_bind, hmark,
      Generation.run_pure, UsedFiles.after, false_or]

theorem run_qualify_nested_eq_ok_iff {depth : Nat} (h : n.scopeId ≠ 0) :
    Generation.run (qualify (depth + 1) n) context used = (.ok q, used') ↔
      ∃ scope name p, context.graph.scopedName n = .ok (scope, name) ∧
        Generation.run (qualify depth scope) context used = (.ok p, used') ∧
        q = p.child name := by
  have htop : ¬n.isTopLevel = true := by simp [Node.isTopLevel, h]
  rw [qualify, Generation.run_bind, Generation.run_read]
  dsimp only
  rw [if_neg htop, Generation.run_bind_eq_ok_iff]
  simp only [Generation.run_ofExcept, Prod.mk.injEq, Prod.exists, Generation.run_bind_eq_ok_iff,
    Generation.run_pure, Except.ok.injEq]
  constructor
  · rintro ⟨scope, name, _, ⟨hs, rfl⟩, p, _, hp, rfl, rfl⟩
    exact ⟨scope, name, p, hs, hp, rfl⟩
  · rintro ⟨scope, name, p, hs, hp, rfl⟩
    exact ⟨scope, name, used, ⟨hs, rfl⟩, p, used', hp, rfl, rfl⟩

/-- A name found within some depth is the path of names from a file down to the node. -/
theorem run_qualify_eq_ok_iff {depth : Nat} :
    Generation.run (qualify depth n) context used = (.ok q, used') ↔
      ∃ top names, context.graph.ScopePath top names n ∧ names.length < depth ∧
        q = ⟨rootOf context top, names⟩ ∧ used' = UsedFiles.after context top used := by
  induction depth generalizing n q with
  | zero => simp [qualify]
  | succ depth ih =>
    by_cases h : n.scopeId = 0
    · simp only [run_qualify_top depth h, Graph.scopePath_top_iff h, Prod.mk.injEq, Except.ok.injEq]
      constructor
      · rintro ⟨rfl, rfl⟩
        exact ⟨n, [], ⟨rfl, rfl⟩, by simp, rfl, rfl⟩
      · rintro ⟨_, _, ⟨rfl, rfl⟩, -, rfl, rfl⟩
        exact ⟨rfl, rfl⟩
    · simp only [run_qualify_nested_eq_ok_iff h, Graph.scopePath_nested_iff h, ih]
      constructor
      · rintro ⟨scope, name, _, hs, ⟨top, rest, hpath, hlt, rfl, rfl⟩, rfl⟩
        exact ⟨top, rest ++ [name], ⟨scope, name, rest, hs, hpath, rfl⟩, by simpa using hlt, rfl,
          rfl⟩
      · rintro ⟨top, _, ⟨scope, name, rest, hs, hpath, rfl⟩, hlt, rfl, rfl⟩
        exact ⟨scope, name, ⟨rootOf context top, rest⟩, hs,
          ⟨top, rest, hpath, by simpa using hlt, rfl, rfl⟩, rfl⟩

theorem run_qualifiedName_eq_ok_iff :
    Generation.run (qualifiedName n) context used = (.ok q, used') ↔
      ∃ top, context.graph.ScopePath top q.path n ∧ q.root = rootOf context top ∧
        used' = UsedFiles.after context top used := by
  rw [qualifiedName, Generation.run_bind, Generation.run_read]
  simp only [run_qualify_eq_ok_iff]
  constructor
  · rintro ⟨top, names, hpath, -, rfl, rfl⟩
    exact ⟨top, hpath, rfl, rfl⟩
  · rintro ⟨top, hpath, hroot, rfl⟩
    exact ⟨top, q.path, hpath, hpath.length_lt_depthBound, by rw [← hroot], rfl⟩

/-- Every node that nested entries lead to is declared, under the names that lead to it and inside
declarations of nodes with nested entries. -/
theorem exists_declaredAs {file m : Node} {ds : List Declaration} {names : List String}
    {entry : NamedId} {holds : Declaration → Prop}
    (hds : List.Forall₂ (fun entry d => ∃ n, context.graph.find? entry.id = some n ∧
      DeclaredAs context "" entry.name n d) file.nested ds)
    (hholds : ∀ names m path name d, context.graph.NestedPath file names m → m.nested ≠ [] →
      DeclaredAs context path name m d → holds d)
    (h : context.graph.NestedPath file names m) (he : entry ∈ m.nested)
    (hn : context.graph.find? entry.id = some n) :
    ∃ d, Declaration.At holds ds (names ++ [entry.name]) d ∧
      DeclaredAs context (dotted names) entry.name n d := by
  induction h generalizing entry n with
  | file =>
    obtain ⟨d, hd, n', hn', hdecl⟩ := exists_of_forall₂_left hds he
    cases hn.symm.trans hn'
    refine ⟨d, ?_, hdecl⟩
    rw [List.nil_append, ← hdecl.place_name]
    exact .top hd
  | inside h he' hm ih =>
    obtain ⟨d, hat, hdecl⟩ := ih he' hm
    obtain ⟨child, hchild, hc⟩ := hdecl.exists_child he hn
    have hd := hholds _ _ _ _ _ (.inside h he' hm) (List.ne_nil_of_mem he) hdecl
    refine ⟨child, ?_, ?_⟩
    · rw [← hc.place_name]
      exact .inside hat hd hchild
    · rw [dotted_append]
      exact hc

/-- In whatever file it is referred to, a node that nested entries lead to is named by the root of
the file that declares it, followed by the dotted path under which it is declared there. -/
theorem qualifiedName_is_declared_path (g : Graph) (a b : RequestedFile) (file n : Node)
    (names : List String) (hfile : g.find? b.id = some file) (htop : file.scopeId = 0)
    (hnested : ∀ names m, g.NestedPath file names m → g.WellNested m)
    (hids : ∀ names m, g.NestedPath file names m → m.nested ≠ [] → m.id ≠ 0)
    (hn : g.NestedPath file names n) (hne : names ≠ []) :
    (∃ q : QualifiedName,
      (∀ used, ∃ used', Generation.run (qualifiedName n) ⟨g, a⟩ used = (.ok q, used')) ∧
      q.text = (if (file.annotationText? namespaceAnnotationId).isSome then
          "capnp_generated_" ++ idHex b.id
        else if a.id = b.id then "module" else "import_" ++ idHex b.id) ++ "." ++ dotted names) ∧
    ∀ source, sourceFile ⟨g, b⟩ file = .ok source → ∃ d path name,
      Declaration.At (fun _ => True) source.declarations names d ∧
      DeclaredAs ⟨g, b⟩ path name n d ∧ joinPath path name = dotted names := by
  have hid := Graph.id_of_find? hfile
  rw [← hid] at hfile
  obtain ⟨-, hpath⟩ := hn.scopePath hfile htop hnested hids
  constructor
  · refine ⟨⟨rootOf ⟨g, a⟩ file, names⟩, fun used => ⟨.after ⟨g, a⟩ file used, ?_⟩, ?_⟩
    · exact run_qualifiedName_eq_ok_iff.2 ⟨file, hpath, rfl, rfl⟩
    · have hnamed := hn.named fun names m h => (hnested names m h).named
      rw [QualifiedName.text_eq_dotted _ hne hnamed, ← hid]
      simp only [rootOf, eq_comm]
      split_ifs <;> rfl
  · intro source hsource
    obtain ⟨used, hrun, -⟩ := sourceFile_eq_ok hsource
    cases hn with
    | file => exact absurd rfl hne
    | inside h he hm =>
      obtain ⟨d, hat, hd⟩ := exists_declaredAs (run_fileDeclarations_eq_ok hrun)
        (fun _ _ _ _ _ _ _ _ => trivial) h he hm
      exact ⟨d, _, _, hat, hd, (dotted_append _ _).symm⟩

namespace Library

/-- A node of some kind with a scope, nested entries and no payload. -/
def node (id : UInt64) (kind : NodeKind) (scopeId : UInt64) (nested : List NamedId) : Node :=
  { (default : Node) with id := id, kind := kind, scopeId := scopeId, nested := nested }

def book : Node :=
  node 4 .interfaceNode 3 [⟨"Page", 5⟩]

def page : Node :=
  node 5 .enumNode 4 []

def booksFile : Node :=
  node 3 .fileNode 0 [⟨"Book", 4⟩]

def readersFile : Node :=
  node 1 .fileNode 0 []

def graph : Graph :=
  ⟨[readersFile, booksFile, book, page], by decide⟩

theorem wellNested : ∀ m ∈ graph.nodes, graph.WellNested m ∧ m.id ≠ 0 := by
  decide

theorem nestedPath_page : graph.NestedPath booksFile ["Book", "Page"] page := by
  have hbook : (⟨"Book", 4⟩ : NamedId) ∈ booksFile.nested := List.mem_cons_self
  have hpage : (⟨"Page", 5⟩ : NamedId) ∈ book.nested := List.mem_cons_self
  exact .inside (.inside .file hbook rfl) hpage rfl

end Library

/-- A page of a book, as the readers' file and its own file refer to it and as it is declared. -/
theorem qualifiedName_is_declared_path_page :
    Library.graph.find? 3 = some Library.booksFile ∧
    Library.graph.NestedPath Library.booksFile ["Book", "Page"] Library.page ∧
    (∀ reader, reader = (1, "import_3.Book.Page") ∨ reader = (3, "module.Book.Page") →
      ∃ q : QualifiedName, q.text = reader.2 ∧ ∀ used, ∃ used',
        Generation.run (qualifiedName Library.page) ⟨Library.graph, ⟨reader.1, "", []⟩⟩ used =
          (.ok q, used')) ∧
    ∃ source d, sourceFile ⟨Library.graph, ⟨3, "books", []⟩⟩ Library.booksFile = .ok source ∧
      Declaration.At (fun _ => True) source.declarations ["Book", "Page"] d ∧
      ∃ path name, joinPath path name = "Book.Page" ∧
        DeclaredAs ⟨Library.graph, ⟨3, "books", []⟩⟩ path name Library.page d := by
  have hwell := fun names m (h : Library.graph.NestedPath Library.booksFile names m) =>
    Library.wellNested m (h.mem (by decide))
  have h := fun a => qualifiedName_is_declared_path Library.graph a ⟨3, "books", []⟩
    Library.booksFile Library.page ["Book", "Page"] rfl rfl (fun names m h => (hwell names m h).1)
    (fun names m h _ => (hwell names m h).2) Library.nestedPath_page (by decide)
  refine ⟨rfl, Library.nestedPath_page, fun reader hreader => ?_, ?_⟩
  · obtain ⟨⟨q, hq, htext⟩, -⟩ := h ⟨reader.1, "", []⟩
    refine ⟨q, htext.trans ?_, hq⟩
    rcases hreader with rfl | rfl
    · decide +kernel
    · decide +kernel
  · obtain ⟨d, path, name, hat, hd, hpath⟩ := (h ⟨3, "books", []⟩).2 _ rfl
    exact ⟨_, d, rfl, hat, path, name, hpath.trans (by decide +kernel), hd⟩

namespace Library

/-- A file with the id that stands for no scope, so that what it declares has no scope either. -/
def unscopedFile : Node :=
  node 0 .fileNode 0 [⟨"Shelf", 1⟩]

def shelf : Node :=
  node 1 .structNode 0 []

def unscopedGraph : Graph :=
  ⟨[unscopedFile, shelf], by decide⟩

end Library

/-- In a file whose id is zero, the links agree as they should, and yet a struct of it is named like
a file of its own. -/
theorem qualifiedName_loses_file_zero :
    Library.unscopedGraph.find? 0 = some Library.unscopedFile ∧
    Library.unscopedFile.scopeId = 0 ∧ Library.shelf.kind = .structNode ∧
    (∀ names m, Library.unscopedGraph.NestedPath Library.unscopedFile names m →
      Library.unscopedGraph.WellNested m) ∧
    Library.unscopedGraph.NestedPath Library.unscopedFile ["Shelf"] Library.shelf ∧
    ∃ q : QualifiedName, Generation.run (qualifiedName Library.shelf)
        ⟨Library.unscopedGraph, ⟨0, "shelves", []⟩⟩ [] = (.ok q, [1]) ∧
      q.text = "import_1" ∧ q.text ≠ "module" ++ "." ++ dotted ["Shelf"] := by
  have hshelf : (⟨"Shelf", 1⟩ : NamedId) ∈ Library.unscopedFile.nested := List.mem_cons_self
  refine ⟨rfl, rfl, rfl, fun names m h => ?_, .inside .file hshelf rfl, ⟨.foreign 1, []⟩, rfl, ?_⟩
  · have hwell : ∀ m ∈ Library.unscopedGraph.nodes, Library.unscopedGraph.WellNested m := by decide
    exact hwell m (h.mem (by decide))
  · decide +kernel

end SchemaBindings.Bindings
