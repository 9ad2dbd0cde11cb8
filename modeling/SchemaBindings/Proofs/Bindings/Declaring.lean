import Mathlib.Data.List.Forall2
import SchemaBindings.Bindings.File
import SchemaBindings.Proofs.Bindings.Generation
import SchemaBindings.Proofs.Outcome
import SchemaBindings.Proofs.Schema.ScopePaths

namespace SchemaBindings.Bindings

open SchemaBindings.Schema SchemaBindings.Outcome

namespace Declaration

def place : Declaration → Placement
  | mk place _ _ _ => place

def body : Declaration → Body
  | mk _ _ body _ => body

def children : Declaration → List Declaration
  | mk _ _ _ children => children

/-- A declaration stands under a path of names, and every declaration around it is one that
`holds`. -/
inductive At (holds : Declaration → Prop) (ds : List Declaration) :
    List String → Declaration → Prop where
  | top {d : Declaration} (h : d ∈ ds) : At holds ds [d.place.name] d
  | inside {names : List String} {d child : Declaration} (h : At holds ds names d) (hd : holds d)
      (hc : child ∈ d.children) : At holds ds (names ++ [child.place.name]) child

end Declaration

/-- The dotted form of a path of names, built up as declarations are. -/
def dotted (names : List String) : String :=
  names.foldl joinPath ""

theorem dotted_append (names : List String) (name : String) :
    dotted (names ++ [name]) = joinPath (dotted names) name := by
  simp [dotted]

theorem joinPath_ne_empty {path name : String} (h : name ≠ "") : joinPath path name ≠ "" := by
  unfold joinPath
  split_ifs with hp
  · exact h
  · intro he
    simp at he

theorem dotted_ne_empty {names : List String} (hne : names ≠ []) (h : ∀ name ∈ names, name ≠ "") :
    dotted names ≠ "" := by
  obtain ⟨rest, name, rfl⟩ := names.eq_nil_or_concat.resolve_left hne
  rw [List.concat_eq_append, dotted_append]
  exact joinPath_ne_empty (h name (by simp))

theorem QualifiedName.text_eq_dotted (root : Root) {names : List String} (hne : names ≠ [])
    (h : ∀ name ∈ names, name ≠ "") :
    (⟨root, names⟩ : QualifiedName).text = root.text ++ "." ++ dotted names := by
  induction names using List.reverseRecOn with
  | nil => exact absurd rfl hne
  | append_singleton names name ih =>
    rw [dotted_append]
    by_cases hn : names = []
    · simp [hn, QualifiedName.text, dotted, joinPath]
    · have hnames : ∀ name ∈ names, name ≠ "" := fun name hm => h name (by simp [hm])
      have hfull : (dotted names).isEmpty = false := by
        simpa using dotted_ne_empty hn hnames
      have ih := ih hn hnames
      simp only [QualifiedName.text] at ih ⊢
      rw [List.foldl_append, List.foldl_cons, List.foldl_nil, ih, joinPath, hfull]
      simp [String.append_assoc]

variable {context : FileContext} {path name : String} {n : Node} {d : Declaration}

/-- A declaration is what a node gives under a path and a name. -/
def DeclaredAs (context : FileContext) (path name : String) (n : Node) (d : Declaration) : Prop :=
  ∃ fuel depth used used',
    Generation.run (declareNode fuel path name depth n) context used = (.ok d, used')

theorem declaration_declaredAs {depth : Nat} {used used' : UsedFiles}
    (h : Generation.run (declaration path name depth n) context used = (.ok d, used')) :
    DeclaredAs context path name n d :=
  ⟨_, depth, used, used', h⟩

theorem run_find_eq_ok_iff {id : UInt64} {used used' : UsedFiles} :
    Generation.run (.find id) context used = (.ok n, used') ↔
      context.graph.find? id = some n ∧ used = used' := by
  rw [Generation.run_find, Prod.mk.injEq, Graph.find_eq_ok_iff]

theorem run_find_within_eq_ok {place : Place} {id : UInt64} {used used' : UsedFiles}
    (h : Generation.run (.within place (.find id)) context used = (.ok n, used')) :
    context.graph.find? id = some n ∧ used = used' := by
  rw [Generation.run_within_eq_ok_iff] at h
  exact run_find_eq_ok_iff.1 h

/-- What a node declares, by its kind. -/
inductive DeclaresBody (context : FileContext) (used used' : UsedFiles) (path : String) (n : Node) :
    Body → Prop where
  | struct {b : StructBody} (hk : n.kind = .structNode)
      (h : Generation.run (structBody path n) context used = (.ok b, used')) :
      DeclaresBody context used used' path n (.struct b)
  | enum (hk : n.kind = .enumNode) (hu : used = used') :
      DeclaresBody context used used' path n
        (.enum (n.enumerants?.map fun es => es.map Member.name))
  | constant {value? : Option ConstExpr} (hk : n.kind = .constNode)
      (h : Generation.run (constExpr n) context used = (.ok value?, used')) :
      DeclaresBody context used used' path n (.constant value?)
  | scope (hk : n.kind = .interfaceNode) (hu : used = used') :
      DeclaresBody context used used' path n .scope
  | nothing (hk : n.kind = .fileNode ∨ n.kind = .annotationNode ∨ n.kind = .unlistedNode)
      (hu : used = used') : DeclaresBody context used used' path n .nothing

theorem declarationBody_cases {used used' : UsedFiles} {body : Body}
    (h : Generation.run (declarationBody path n) context used = (.ok body, used')) :
    DeclaresBody context used used' path n body := by
  unfold declarationBody at h
  cases hk : n.kind with
  | structNode =>
    simp only [hk] at h
    obtain ⟨b, hb, rfl⟩ := Generation.run_map_eq_ok_iff.1 h
    exact .struct hk hb
  | constNode =>
    simp only [hk] at h
    obtain ⟨value?, hvalue, rfl⟩ := Generation.run_map_eq_ok_iff.1 h
    exact .constant hk hvalue
  | enumNode =>
    simp only [hk] at h
    obtain ⟨rfl, hu⟩ := Generation.run_pure_eq_ok_iff.1 h
    exact .enum hk hu
  | interfaceNode =>
    simp only [hk] at h
    obtain ⟨rfl, hu⟩ := Generation.run_pure_eq_ok_iff.1 h
    exact .scope hk hu
  | fileNode | annotationNode | unlistedNode =>
    simp only [hk] at h
    obtain ⟨rfl, hu⟩ := Generation.run_pure_eq_ok_iff.1 h
    exact .nothing (by simp [hk]) hu

/-- The value of a constant, by the kind of its type: one that is read from the encoded form, none,
or a literal. -/
theorem constExpr_cases {used used' : UsedFiles} {value? : Option ConstExpr}
    (h : Generation.run (constExpr n) context used = (.ok value?, used')) :
    ∃ c, n.const? = some c ∧ match c.type.kind with
      | .text | .data | .struct | .list => ∃ value, value? = some value ∧ value.needsSchema = true
      | .interface | .anyPointer => value? = none
      | _ => ∃ value, value? = some (.literal value) := by
  unfold constExpr at h
  cases hc : n.const? with
  | none => simp [hc] at h
  | some c =>
    simp only [hc] at h
    refine ⟨c, rfl, ?_⟩
    cases hkind : c.type.kind with
    | text | data =>
      simp only [hkind] at h
      exact ⟨_, Generation.run_pure_eq_ok h, rfl⟩
    | struct | list =>
      simp only [hkind] at h
      obtain ⟨type, -, rfl⟩ := Generation.run_map_eq_ok_iff.1 h
      exact ⟨_, rfl, rfl⟩
    | interface | anyPointer =>
      simp only [hkind] at h
      exact Generation.run_pure_eq_ok h
    | _ =>
      simp only [hkind] at h
      obtain ⟨value, -, rfl⟩ := Generation.run_map_eq_ok_iff.1 h
      exact ⟨value, rfl⟩

/-- What the declaration of a node is made of, and what follows for it from the declarations
inside. -/
theorem DeclaredAs.induct {motive : String → String → Node → Declaration → Prop}
    (step : ∀ path name n depth body nested groups, n.kind ≠ .fileNode →
      List.Forall₂ (fun entry child => ∃ m, context.graph.find? entry.id = some m ∧
        DeclaredAs context (joinPath path name) entry.name m child ∧
        motive (joinPath path name) entry.name m child) n.nested nested →
      List.Forall₂ (fun group child => ∃ m, context.graph.find? group.2 = some m ∧
        DeclaredAs context (joinPath path name) (titleCase group.1) m child ∧
        motive (joinPath path name) (titleCase group.1) m child) n.groups groups →
      (∃ u u', Generation.run (declarationBody (joinPath path name) n) context u = (.ok body, u')) →
      motive path name n (.mk ⟨path.isEmpty, name, depth⟩ (.ofNode n) body (nested ++ groups)))
    (h : DeclaredAs context path name n d) : motive path name n d := by
  obtain ⟨fuel, depth, used, used', h⟩ := h
  induction fuel generalizing path name depth n d used used' with
  | zero => simp [declareNode] at h
  | succ fuel ih =>
    rw [declareNode] at h
    split_ifs at h with hk
    · cases h
    · obtain ⟨nested, _, hnested, h⟩ := Generation.run_bind_eq_ok_iff.1 h
      obtain ⟨groups, _, hgroups, h⟩ := Generation.run_bind_eq_ok_iff.1 h
      obtain ⟨body, _, hbody, h⟩ := Generation.run_bind_eq_ok_iff.1 h
      obtain rfl := Generation.run_pure_eq_ok h
      refine step path name n depth body nested groups hk ?_ ?_
        ⟨_, _, Generation.run_within_eq_ok_iff.1 hbody⟩
      · refine (Generation.run_mapM_eq_ok hnested).imp ?_
        rintro entry child ⟨u, u', hc⟩
        obtain ⟨m, _, hm, hc⟩ := Generation.run_bind_eq_ok_iff.1 hc
        exact ⟨m, (run_find_within_eq_ok hm).1, ⟨_, _, _, _, hc⟩, ih _ _ _ hc⟩
      · refine (Generation.run_mapM_eq_ok hgroups).imp ?_
        rintro group child ⟨u, u', hc⟩
        obtain ⟨m, _, hm, hc⟩ := Generation.run_bind_eq_ok_iff.1 hc
        exact ⟨m, (run_find_within_eq_ok hm).1, ⟨_, _, _, _, hc⟩, ih _ _ _ hc⟩

namespace DeclaredAs

theorem place_name (h : DeclaredAs context path name n d) : d.place.name = name :=
  h.induct (motive := fun _ name _ d => d.place.name = name) fun _ _ _ _ _ _ _ _ _ _ _ => rfl

theorem place_topLevel (h : DeclaredAs context path name n d) : d.place.topLevel = path.isEmpty :=
  h.induct (motive := fun path _ _ d => d.place.topLevel = path.isEmpty)
    fun _ _ _ _ _ _ _ _ _ _ _ => rfl

/-- A declaration has one inside for every nested entry and every group, in order. -/
theorem parts (h : DeclaredAs context path name n d) :
    ∃ depth body nested groups,
      d = .mk ⟨path.isEmpty, name, depth⟩ (.ofNode n) body (nested ++ groups) ∧
      List.Forall₂ (fun entry child => ∃ m, context.graph.find? entry.id = some m ∧
        DeclaredAs context (joinPath path name) entry.name m child) n.nested nested ∧
      List.Forall₂ (fun group child => ∃ m, context.graph.find? group.2 = some m ∧
        DeclaredAs context (joinPath path name) (titleCase group.1) m child) n.groups groups ∧
      ∃ u u', DeclaresBody context u u' (joinPath path name) n body := by
  refine h.induct (motive := fun path name n d => ∃ depth body nested groups,
    d = .mk ⟨path.isEmpty, name, depth⟩ (.ofNode n) body (nested ++ groups) ∧
    List.Forall₂ (fun entry child => ∃ m, context.graph.find? entry.id = some m ∧
      DeclaredAs context (joinPath path name) entry.name m child) n.nested nested ∧
    List.Forall₂ (fun group child => ∃ m, context.graph.find? group.2 = some m ∧
      DeclaredAs context (joinPath path name) (titleCase group.1) m child) n.groups groups ∧
    ∃ u u', DeclaresBody context u u' (joinPath path name) n body) ?_
  rintro path name n depth body nested groups - hnested hgroups ⟨u, u', hbody⟩
  refine ⟨depth, body, nested, groups, rfl, hnested.imp ?_, hgroups.imp ?_, u, u',
    declarationBody_cases hbody⟩
  · rintro entry child ⟨m, hm, hd, -⟩
    exact ⟨m, hm, hd⟩
  · rintro group child ⟨m, hm, hd, -⟩
    exact ⟨m, hm, hd⟩

theorem exists_child (h : DeclaredAs context path name n d) {entry : NamedId} {m : Node}
    (he : entry ∈ n.nested) (hm : context.graph.find? entry.id = some m) :
    ∃ child ∈ d.children, DeclaredAs context (joinPath path name) entry.name m child := by
  obtain ⟨depth, body, nested, groups, rfl, hnested, -, -⟩ := h.parts
  obtain ⟨child, hchild, m', hm', hc⟩ := exists_of_forall₂_left hnested he
  cases hm.symm.trans hm'
  exact ⟨child, List.mem_append_left _ hchild, hc⟩

/-- What is declared inside a declaration is a node too, under the path that leads there. -/
theorem child_declaredAs (h : DeclaredAs context path name n d) {child : Declaration}
    (hc : child ∈ d.children) : ∃ m, context.graph.find? m.id = some m ∧
      DeclaredAs context (joinPath path name) child.place.name m child := by
  obtain ⟨depth, body, nested, groups, rfl, hnested, hgroups, -⟩ := h.parts
  rcases List.mem_append.1 hc with hc | hc
  · obtain ⟨entry, -, m, hm, hd⟩ := exists_of_forall₂_right hnested hc
    rw [hd.place_name]
    exact ⟨m, Graph.find?_self hm, hd⟩
  · obtain ⟨group, -, m, hm, hd⟩ := exists_of_forall₂_right hgroups hc
    rw [hd.place_name]
    exact ⟨m, Graph.find?_self hm, hd⟩

end DeclaredAs

/-- Where the outermost declarations are those of nodes, each is one under the path of names that it
stands under. -/
theorem Declaration.At.declaredAs {holds : Declaration → Prop} {ds : List Declaration}
    {names : List String} (h : Declaration.At holds ds names d)
    (hds : ∀ d ∈ ds, ∃ n, context.graph.find? n.id = some n ∧
      DeclaredAs context "" d.place.name n d) :
    ∃ outer n, names = outer ++ [d.place.name] ∧ context.graph.find? n.id = some n ∧
      DeclaredAs context (dotted outer) d.place.name n d := by
  induction h with
  | top hd =>
    obtain ⟨n, hn, hdecl⟩ := hds _ hd
    exact ⟨[], n, rfl, hn, hdecl⟩
  | inside _ _ hc ih =>
    obtain ⟨outer, n, rfl, -, hdecl⟩ := ih
    obtain ⟨m, hm, hchild⟩ := hdecl.child_declaredAs hc
    rw [← dotted_append] at hchild
    exact ⟨_, m, rfl, hm, hchild⟩

theorem run_fileDeclarations_eq_ok {file : Node} {ds : List Declaration} {used used' : UsedFiles}
    (h : Generation.run (fileDeclarations file) context used = (.ok ds, used')) :
    List.Forall₂ (fun entry d => ∃ n, context.graph.find? entry.id = some n ∧
      DeclaredAs context "" entry.name n d) file.nested ds := by
  refine (Generation.run_mapM_eq_ok h).imp ?_
  rintro entry d ⟨u, u', hd⟩
  obtain ⟨n, _, hn, hd⟩ := Generation.run_bind_eq_ok_iff.1 hd
  exact ⟨n, (run_find_within_eq_ok hn).1, declaration_declaredAs hd⟩

/-- Every declaration of a file is that of a node which the file nests. -/
theorem fileDeclarations_declaredAs {file : Node} {ds : List Declaration} {used used' : UsedFiles}
    (h : Generation.run (fileDeclarations file) context used = (.ok ds, used')) :
    ∀ d ∈ ds, ∃ n, context.graph.find? n.id = some n ∧ DeclaredAs context "" d.place.name n d := by
  intro d hd
  obtain ⟨entry, -, n, hn, hdecl⟩ := exists_of_forall₂_right (run_fileDeclarations_eq_ok h) hd
  rw [hdecl.place_name]
  exact ⟨n, Graph.find?_self hn, hdecl⟩

theorem sourceFile_eq_ok {file : Node} {source : SourceFile}
    (h : sourceFile context file = .ok source) :
    ∃ used, Generation.run (fileDeclarations file) context [] = (.ok source.declarations, used) ∧
      source.id = file.id ∧ source.imports = usedImports context.file used := by
  unfold sourceFile at h
  cases hr : Generation.run (fileDeclarations file) context [] with
  | mk result used =>
    rw [hr] at h
    cases result with
    | error e => cases h
    | ok ds =>
      cases h
      exact ⟨used, rfl, rfl, rfl⟩

theorem sourceFile_names {file : Node} {source : SourceFile}
    (h : sourceFile context file = .ok source) :
    source.displayName = file.displayName ∧
      source.exportName? = file.annotationText? namespaceAnnotationId := by
  unfold sourceFile at h
  cases hr : Generation.run (fileDeclarations file) context [] with
  | mk result used =>
    rw [hr] at h
    cases result with
    | error e => cases h
    | ok ds =>
      cases h
      exact ⟨rfl, rfl⟩

theorem generateFile_eq_ok {g : Graph} {request : RequestedFile} {out : FileOutput}
    (h : generateFile g request = .ok out) :
    ∃ file source, g.find? request.id = some file ∧ file.kind = .fileNode ∧
      sourceFile ⟨g, request⟩ file = .ok source ∧
      out = ⟨file.id, file.displayName, source.text, source.imports⟩ := by
  obtain ⟨file, hfile, h⟩ := bind_eq_ok_iff.1 h
  rw [mapError_eq_ok_iff, Graph.find_eq_ok_iff] at hfile
  split_ifs at h with hk
  · cases h
  · obtain ⟨source, hsource, h⟩ := bind_eq_ok_iff.1 h
    cases h
    exact ⟨file, source, hfile, not_not.1 hk, mapError_eq_ok_iff.1 hsource, rfl⟩

end SchemaBindings.Bindings
