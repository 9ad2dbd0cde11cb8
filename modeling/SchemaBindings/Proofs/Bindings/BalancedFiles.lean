import SchemaBindings.Proofs.Bindings.BalancedText
import SchemaBindings.Proofs.Bindings.UnionAccess

namespace SchemaBindings

open SchemaBindings.Schema SchemaBindings.Text SchemaBindings.Outcome

namespace Bindings

def isNameStart (c : Char) : Bool :=
  c.isAlpha || c == '_'

def isNameChar (c : Char) : Bool :=
  isNameStart c || c.isDigit

/-- Letters, digits and underscores, and no digit first. -/
def isIdentifier (name : String) : Bool :=
  match name.toList with
  | [] => false
  | c :: cs => isNameStart c && cs.all isNameChar

/-- Identifiers with dots between them. -/
def IsDotted (text : String) : Prop :=
  ∃ names, names ≠ [] ∧ (∀ name ∈ names, isIdentifier name = true) ∧
    text = String.intercalate "." names

theorem plain_of_isIdentifier {name : String} (h : isIdentifier name = true) : Plain name := by
  have hchar : ∀ c, isNameChar c = true → isPlain c = true := fun c => isPlain_of rfl
  unfold Plain
  unfold isIdentifier at h
  cases hcs : name.toList with
  | nil => exact List.forall_mem_nil _
  | cons c cs =>
    rw [hcs] at h
    simp only [Bool.and_eq_true, List.all_eq_true] at h
    refine List.forall_mem_cons.2 ⟨hchar c ?_, fun d hd => hchar d (h.2 d hd)⟩
    rw [isNameChar, h.1, Bool.true_or]

theorem IsDotted.plain {text : String} (h : IsDotted text) : Plain text := by
  obtain ⟨names, -, hnames, rfl⟩ := h
  exact .intercalate (plain_of_eq rfl rfl) fun name hn => plain_of_isIdentifier (hnames name hn)

end Bindings

open SchemaBindings.Bindings

/-- What nodes declare has identifiers for names, and the names of files are on one line. -/
structure Schema.Graph.WellNamed (g : Graph) : Prop where
  nested : ∀ n ∈ g.nodes, ∀ entry ∈ n.nested, isIdentifier entry.name = true
  fields : ∀ n ∈ g.nodes, ∀ s, n.struct? = some s → ∀ f ∈ s.fields, isIdentifier f.name = true
  enumerants : ∀ n ∈ g.nodes, ∀ es, n.enumerants? = some es → ∀ e ∈ es, isIdentifier e.name = true
  displayNames : ∀ n ∈ g.nodes, n.kind = .fileNode → OnOneLine n.displayName
  namespaces : ∀ n ∈ g.nodes, n.kind = .fileNode →
    ∀ text, n.annotationText? namespaceAnnotationId = some text → IsDotted text

namespace Bindings

/-- A class whose name is the runtime's or, part by part, one of the declared names that `p` holds
of. -/
inductive TypeExpr.MadeOf (p : String → Prop) : TypeExpr → Prop where
  | runtime {kind : Kind} {name : String} (h : runtimeClass? kind = some name) : MadeOf p (.runtime name)
  | declared {name : QualifiedName} (h : ∀ part ∈ name.path, p part) : MadeOf p (.declared name)
  | list (of : ListClass) {element : TypeExpr} (h : MadeOf p element) : MadeOf p (.list of element)
  | untyped : MadeOf p .untyped

theorem TypeExpr.MadeOf.wellNamed {type : TypeExpr} (h : type.MadeOf Plain) : type.WellNamed := by
  induction h with
  | @runtime kind name h =>
    cases kind <;> cases h <;> exact plain_of_eq rfl rfl
  | declared h => exact h
  | list of h ih => exact ih
  | untyped => trivial

section Names

variable {context : FileContext} {used used' : UsedFiles} {p : String → Prop}
  (hp : ∀ n ∈ context.graph.nodes, ∀ entry ∈ n.nested, p entry.name)
include hp

theorem qualifiedName_path {n : Node} {q : QualifiedName}
    (h : Generation.run (qualifiedName n) context used = (.ok q, used')) :
    ∀ part ∈ q.path, p part := by
  obtain ⟨top, hpath, -, -⟩ := run_qualifiedName_eq_ok_iff.1 h
  clear h
  generalize q.path = names at hpath
  induction hpath with
  | top => exact List.forall_mem_nil _
  | nested hs hname _ ih =>
    refine List.forall_mem_append.2 ⟨ih, List.forall_mem_singleton.2 ?_⟩
    obtain ⟨entry, hentry, -, rfl⟩ := Node.mem_nested_of_nestedName? hname
    exact hp _ (Graph.mem_of_find? hs.2) entry hentry

theorem typeExpr_madeOf {t : TypeRef} {type : TypeExpr}
    (h : Generation.run (typeExpr t) context used = (.ok type, used')) : type.MadeOf p := by
  induction t generalizing type with
  | plain kind typeId =>
    have hdeclared (h : Generation.run (do return .declared (← qualifiedNameOf typeId)) context used =
        (.ok type, used')) : type.MadeOf p := by
      obtain ⟨q, hq, rfl⟩ := Generation.run_map_eq_ok_iff.1 h
      obtain ⟨n, _, -, hq⟩ := Generation.run_bind_eq_ok_iff.1 hq
      exact .declared (qualifiedName_path hp hq)
    cases hruntime : runtimeClass? kind with
    | some name =>
      simp only [typeExpr, hruntime] at h
      obtain rfl := Generation.run_pure_eq_ok h
      exact .runtime hruntime
    | none =>
      simp only [typeExpr, hruntime] at h
      cases kind with
      | enum | struct | interface => exact hdeclared h
      | list | unlisted => simp at h
      | anyPointer =>
        obtain rfl := Generation.run_pure_eq_ok h
        exact .untyped
      | _ => cases hruntime
  | listOf element ih =>
    obtain ⟨inner, hinner, rfl⟩ := Generation.run_map_eq_ok_iff.1 h
    exact .list _ (ih hinner)

end Names

section Generated

variable {context : FileContext} {used used' : UsedFiles} (hg : context.graph.WellNamed)
include hg

theorem nested_plain : ∀ n ∈ context.graph.nodes, ∀ entry ∈ n.nested, Plain entry.name :=
  fun n hn entry hentry => plain_of_isIdentifier (hg.nested n hn entry hentry)

theorem qualifiedName_plain {n : Node} {q : QualifiedName}
    (h : Generation.run (qualifiedName n) context used = (.ok q, used')) :
    ∀ part ∈ q.path, Plain part :=
  qualifiedName_path (nested_plain hg) h

theorem typeExpr_wellNamed {t : TypeRef} {type : TypeExpr}
    (h : Generation.run (typeExpr t) context used = (.ok type, used')) : type.WellNamed :=
  (typeExpr_madeOf (nested_plain hg) h).wellNamed

theorem slotAccessors_wellNamed {nodeId : UInt64} {slot : SlotField}
    {accessors : List (Verb × Operation)}
    (h : Generation.run (slotAccessors nodeId slot) context used = (.ok accessors, used')) :
    ∀ a ∈ accessors, a.2.WellNamed := by
  rcases slotAccessors_shapes h with ⟨-, rfl⟩ | ⟨-, rfl⟩ | ⟨-, rfl⟩ |
      ⟨shape, default?, hshape, rfl⟩
  · simp [voidAccessors, Operation.WellNamed]
  · simp [dataAccessors, Operation.WellNamed]
  · exact List.forall_mem_nil _
  · have hnamed : shape.WellNamed := by
      cases hshape with
      | struct _ htype => exact typeExpr_wellNamed hg htype
      | list _ htype => exact typeExpr_wellNamed hg htype
      | _ => trivial
    simp [pointerAccessors, Operation.WellNamed, hnamed]

theorem fieldBindings_wellNamed {scope : String} {nodeId : UInt64} {s : StructInfo} {f : Field}
    {b : FieldBindings} (hscope : Plain scope) (hname : Plain f.name)
    (h : Generation.run (fieldBindings scope nodeId s f) context used = (.ok b, used')) :
    b.WellNamed := by
  obtain ⟨accessors, rfl, hcases⟩ := fieldBindings_eq_ok h
  refine ⟨hscope, hname, ?_⟩
  rcases hcases with ⟨slot, u, u', -, hslot⟩ | ⟨id, group, slots, -, -, -, rfl⟩
  · exact slotAccessors_wellNamed hg hslot
  · have htype : Plain (scope ++ "." ++ titleCase f.name) :=
      (hscope.append (plain_of_eq rfl rfl)).append (plain_titleCase hname)
    simp [groupAccessors, Operation.WellNamed, htype]

section Node

variable {n : Node} (hn : n ∈ context.graph.nodes) {path : String} (hpath : Plain path)
include hn

theorem field_plain {s : StructInfo} (hs : n.struct? = some s) : ∀ f ∈ s.fields, Plain f.name :=
  fun f hf => plain_of_isIdentifier (hg.fields n hn s hs f hf)

theorem enumerant_plain {es : List Member} (hes : n.enumerants? = some es) :
    ∀ e ∈ es, Plain e.name :=
  fun e he => plain_of_isIdentifier (hg.enumerants n hn es hes e he)

theorem group_plain : ∀ group ∈ n.groups, Plain group.1 := by
  intro group hgroup
  obtain ⟨-, s, hs, f, hf, hname, -⟩ := Node.mem_groups.1 hgroup
  rw [← hname]
  exact field_plain hg hn hs f hf

include hpath in
theorem structBody_wellNamed {body : StructBody}
    (h : Generation.run (structBody path n) context used = (.ok body, used')) :
    body.WellNamed := by
  unfold structBody at h
  split at h
  · simp at h
  next s hs =>
    obtain ⟨bindings, hbindings, rfl⟩ := Generation.run_map_eq_ok_iff.1 h
    have hfields := field_plain hg hn hs
    refine ⟨hpath, hfields, ?_⟩
    intro b hb
    obtain ⟨f, hf, u, u', hrun⟩ :=
      exists_of_forall₂_right (Generation.run_mapM_eq_ok hbindings) hb
    exact fieldBindings_wellNamed hg ((plain_of_eq rfl rfl).append hpath) (hfields f hf) hrun

omit hn in
theorem enumLiteral_wellNamed {id : UInt64} {ordinal : UInt16} {l : Literal}
    (h : Generation.run (enumLiteral id ordinal) context used = (.ok l, used')) : l.WellNamed := by
  obtain ⟨n, _, hfind, h⟩ := Generation.run_bind_eq_ok_iff.1 h
  obtain ⟨hn, rfl⟩ := run_find_eq_ok_iff.1 hfind
  obtain ⟨q, _, hq, h⟩ := Generation.run_bind_eq_ok_iff.1 h
  split at h
  next e he =>
    obtain rfl := Generation.run_pure_eq_ok h
    refine ⟨qualifiedName_plain hg hq, plain_upperSnake ?_⟩
    cases hes : n.enumerants? with
    | none => simp [hes] at he
    | some es =>
      rw [hes, Option.getD_some] at he
      exact enumerant_plain hg (Graph.mem_of_find? hn) hes e (List.mem_of_getElem? he)
  next =>
    obtain rfl := Generation.run_pure_eq_ok h
    trivial

omit hn in
theorem constExpr_wellNamed {value : ConstExpr}
    (h : Generation.run (constExpr n) context used = (.ok (some value), used')) :
    value.WellNamed := by
  unfold constExpr at h
  cases hc : n.const? with
  | none => simp [hc] at h
  | some c =>
    simp only [hc] at h
    cases hkind : c.type.kind with
    | struct | list =>
      simp only [hkind] at h
      obtain ⟨type, htype, hvalue⟩ := Generation.run_map_eq_ok_iff.1 h
      cases hvalue
      exact typeExpr_wellNamed hg htype
    | enum =>
      simp only [hkind, literal] at h
      obtain ⟨l, hl, hvalue⟩ := Generation.run_map_eq_ok_iff.1 h
      cases hvalue
      exact enumLiteral_wellNamed hg hl
    | unlisted =>
      simp only [hkind, literal] at h
      obtain ⟨l, hl, -⟩ := Generation.run_map_eq_ok_iff.1 h
      simp at hl
    | text | data =>
      simp only [hkind] at h
      cases Generation.run_pure_eq_ok h
      trivial
    | interface | anyPointer =>
      simp only [hkind] at h
      cases Generation.run_pure_eq_ok h
    | _ =>
      simp only [hkind, literal] at h
      obtain ⟨l, hl, hvalue⟩ := Generation.run_map_eq_ok_iff.1 h
      cases hvalue
      obtain rfl := Generation.run_pure_eq_ok hl
      trivial

include hpath in
theorem declarationBody_wellNamed {body : Body}
    (h : Generation.run (declarationBody path n) context used = (.ok body, used')) :
    body.WellNamed := by
  cases declarationBody_cases h with
  | struct _ hb => exact structBody_wellNamed hg hn hpath hb
  | enum =>
    cases hes : n.enumerants? with
    | none => trivial
    | some es =>
      intro name hname
      obtain ⟨e, he, rfl⟩ := List.mem_map.1 hname
      exact enumerant_plain hg hn hes e he
  | @constant value? _ hvalue =>
    cases value? with
    | none => trivial
    | some value => exact constExpr_wellNamed hg hvalue
  | scope | nothing => trivial

include hpath in
/-- The declaration of a node closes all that it opens. The induction is over the nodes that are
nested in it and the groups of its fields. -/
theorem DeclaredAs.keeps_text {name : String} {d : Declaration} (hname : Plain name)
    (h : DeclaredAs context path name n d) : Keeps .code d.text := by
  refine h.induct (motive := fun path name n d =>
    n ∈ context.graph.nodes → Plain path → Plain name → Keeps .code d.text) ?_ hn hpath hname
  intro path name n depth body nested groups _ hnested hgroups ⟨u, u', hbody⟩ hn hpath hname
  have hfull := plain_joinPath hpath hname
  refine Declaration.keeps_text hname (declarationBody_wellNamed hg hn hfull hbody) ?_
  refine List.forall_mem_append.2 ⟨?_, ?_⟩
  · intro child hchild
    obtain ⟨entry, hentry, m, hm, -, ih⟩ := exists_of_forall₂_right hnested hchild
    exact ih (Graph.mem_of_find? hm) hfull (plain_of_isIdentifier (hg.nested n hn entry hentry))
  · intro child hchild
    obtain ⟨group, hgroup, m, hm, -, ih⟩ := exists_of_forall₂_right hgroups hchild
    exact ih (Graph.mem_of_find? hm) hfull (plain_titleCase (group_plain hg hn group hgroup))

end Node

theorem sourceFile_wellNamed {file : Node} {source : SourceFile}
    (hfile : file ∈ context.graph.nodes) (hkind : file.kind = .fileNode)
    (himports : ∀ i ∈ context.file.imports, OnOneLine i.name)
    (h : sourceFile context file = .ok source) : source.WellNamed := by
  obtain ⟨used, hrun, -, hused⟩ := sourceFile_eq_ok h
  obtain ⟨hdisplay, hexport⟩ := sourceFile_names h
  refine ⟨?_, ?_, ?_, ?_⟩
  · rw [hdisplay]
    exact hg.displayNames file hfile hkind
  · intro name hname
    exact (hg.namespaces file hfile hkind name (hexport ▸ hname)).plain
  · intro i hi
    rw [hused] at hi
    exact himports i (List.mem_of_mem_filter hi)
  · intro d hd
    obtain ⟨entry, hentry, n, hn, hdecl⟩ := exists_of_forall₂_right (run_fileDeclarations_eq_ok hrun) hd
    exact hdecl.keeps_text hg (Graph.mem_of_find? hn) plain_empty
      (plain_of_isIdentifier (hg.nested file hfile entry hentry))

end Generated

/-- The text of every file that is generated for well-named nodes has its brackets balanced and
properly nested outside of string literals and line comments, and every literal is closed on the line
that it is opened on. -/
theorem generateFile_balanced (g : Graph) (request : RequestedFile) (out : FileOutput)
    (hg : g.WellNamed) (himports : ∀ i ∈ request.imports, OnOneLine i.name)
    (h : generateFile g request = .ok out) : Balanced out.source := by
  obtain ⟨file, source, hfile, hkind, hsource, rfl⟩ := generateFile_eq_ok h
  exact SourceFile.balanced_text
    (sourceFile_wellNamed hg (Graph.mem_of_find? hfile) hkind himports hsource)

namespace Atlas

def file : Node :=
  { (default : Node) with
    id := 1
    kind := .fileNode
    displayName := "maps/it's (an atlas.capnp"
    nested := [⟨"Map", 2⟩, ⟨"Style", 3⟩]
    annotations := [⟨namespaceAnnotationId, "geo.atlas"⟩] }

def scale : Field :=
  ⟨"scale", 0, 0, .slot ⟨1, .plain .float32 0, .zero .float32, 0⟩⟩

def symbol : Field :=
  ⟨"symbol", 1, 1, .slot ⟨0, .plain .struct 5, .zero .struct, 0⟩⟩

def map : Node :=
  { (default : Node) with
    id := 2
    kind := .structNode
    displayName := "maps/it's (an atlas.capnp:Map"
    scopeId := 1
    struct? := some ⟨1, 1, 7, false, 2, 0, [scale, symbol]⟩ }

def style : Node :=
  { (default : Node) with
    id := 3
    kind := .enumNode
    displayName := "maps/it's (an atlas.capnp:Style"
    scopeId := 1
    enumerants? := some [⟨"solid", 0⟩, ⟨"dashedLine", 1⟩] }

def symbols : Node :=
  { (default : Node) with
    id := 4
    kind := .fileNode
    displayName := "symbols.capnp"
    nested := [⟨"Symbol", 5⟩] }

def symbolNode : Node :=
  { (default : Node) with
    id := 5
    kind := .structNode
    displayName := "symbols.capnp:Symbol"
    scopeId := 4
    struct? := some ⟨0, 0, 0, false, 0, 0, []⟩ }

def graph : Graph :=
  ⟨[file, map, style, symbols, symbolNode], by simp [file, map, style, symbols, symbolNode]⟩

def requested : RequestedFile :=
  ⟨1, "maps/it's (an atlas.capnp", [⟨"symbols] \"old\".capnp", 4⟩]⟩

theorem graph_wellNamed : graph.WellNamed where
  nested := by decide
  fields := (by decide : ∀ n ∈ graph.nodes, ∀ s ∈ n.struct?, ∀ f ∈ s.fields,
    isIdentifier f.name = true)
  enumerants := (by decide : ∀ n ∈ graph.nodes, ∀ es ∈ n.enumerants?, ∀ e ∈ es,
    isIdentifier e.name = true)
  displayNames := by decide
  namespaces := by
    intro n hn _ text htext
    have hdotted : IsDotted "geo.atlas" := ⟨["geo", "atlas"], by simp, by decide, rfl⟩
    simp only [graph, List.mem_cons, List.not_mem_nil, or_false] at hn
    rcases hn with rfl | rfl | rfl | rfl | rfl <;> cases htext
    exact hdotted

end Atlas

/-- A file whose display name and imports have quotes and brackets of their own. -/
theorem generateFile_balanced_atlas :
    Atlas.graph.WellNamed ∧ (∀ i ∈ Atlas.requested.imports, OnOneLine i.name) ∧
    ∃ out, generateFile Atlas.graph Atlas.requested = .ok out ∧
      out.usedImports = Atlas.requested.imports ∧ Balanced out.source := by
  have himports : ∀ i ∈ Atlas.requested.imports, OnOneLine i.name := by decide
  exact ⟨Atlas.graph_wellNamed, himports, _, rfl, rfl,
    generateFile_balanced Atlas.graph Atlas.requested _ Atlas.graph_wellNamed himports rfl⟩

end Bindings
end SchemaBindings
