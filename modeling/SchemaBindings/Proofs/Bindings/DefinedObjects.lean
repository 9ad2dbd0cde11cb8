import SchemaBindings.Proofs.Bindings.Resolution

namespace SchemaBindings

open SchemaBindings.Schema

namespace Schema

/-- Whether the definition of a node is an object. An interface has one only for what is nested
in it. -/
def Node.isObject (n : Node) : Bool :=
  match n.kind with
  | .structNode | .enumNode => true
  | .interfaceNode => !n.nested.isEmpty
  | .fileNode | .constNode | .annotationNode | .unlistedNode => false

end Schema

namespace Bindings

namespace Declaration

variable {d child : Declaration} {ds : List Declaration} {names : List String}

def isObject : Declaration → Bool
  | mk _ _ body children =>
    match body with
    | .struct _ | .enum _ => true
    | .scope => !children.isEmpty
    | .constant _ | .nothing => false

theorem exists_members (h : d.isObject = true) : ∃ members, d.text = d.place.object members := by
  cases d with
  | mk place entry body children =>
    cases body with
    | struct b => exact ⟨_, by rw [text]; rfl⟩
    | enum enumerants? =>
      cases enumerants? with
      | none => exact ⟨_, by rw [text]; rfl⟩
      | some names => exact ⟨_, by rw [text]; rfl⟩
    | scope =>
      have hne : ¬children.isEmpty = true := by simpa [isObject] using h
      exact ⟨_, by rw [text, if_neg hne]; rfl⟩
    | constant | nothing => cases h

theorem text_within_textList (h : d ∈ ds) : Within d.text (textList ds) := by
  induction ds with
  | nil => cases h
  | cons first ds ih =>
    rw [textList]
    rcases List.mem_cons.1 h with rfl | h
    · exact (Within.refl _).left
    · exact (ih h).right

theorem child_within (hd : d.body.showsChildren = true) (hc : child ∈ d.children) :
    Within child.text d.text := by
  cases d with
  | mk place entry body children =>
    have hchild := text_within_textList hc
    cases body with
    | struct b =>
      rw [text]
      exact place.within_object hchild.left
    | scope =>
      have hne : ¬children.isEmpty = true := by
        have hmem : child ∈ children := hc
        simpa using List.ne_nil_of_mem hmem
      rw [text, if_neg hne]
      exact place.within_object hchild
    | enum | constant | nothing => cases hd

theorem At.text_within (h : At (fun d => d.body.showsChildren = true) ds names d) :
    Within d.text (textList ds) := by
  induction h with
  | top hd => exact text_within_textList hd
  | inside _ hd hc ih => exact (child_within hd hc).trans ih

theorem At.names_ne_nil {holds : Declaration → Prop} (h : At holds ds names d) : names ≠ [] := by
  cases h <;> simp

theorem At.mem_of_singleton {holds : Declaration → Prop} {name : String}
    (h : At holds ds [name] d) : d ∈ ds ∧ d.place.name = name := by
  generalize hnames : [name] = names at h
  cases h with
  | top hd =>
    cases hnames
    exact ⟨hd, rfl⟩
  | inside h _ _ =>
    have hlength := congrArg List.length hnames
    have hpos := List.length_pos_of_ne_nil h.names_ne_nil
    simp only [List.length_append, List.length_singleton] at hlength
    omega

end Declaration

/-- The definitions define an object under a path of names: the first name is one of the module's,
and every other one a member of the object before it. -/
def DefinesObject (ds : List Declaration) (names : List String) : Prop :=
  ∃ d members, Declaration.At (fun d => d.body.showsChildren = true) ds names d ∧
    d.place.topLevel = (names.length == 1) ∧ d.text = d.place.object members ∧
    Within d.text (Declaration.textList ds)

theorem not_definesObject {ds : List Declaration} {name : String}
    (h : ∀ d ∈ ds, d.place.name = name → d.text = "") : ¬DefinesObject ds [name] := by
  rintro ⟨d, members, hat, -, htext, -⟩
  obtain ⟨hd, hname⟩ := hat.mem_of_singleton
  have hempty := h d hd hname
  rw [htext] at hempty
  simp [Placement.object] at hempty

variable {context : FileContext} {path name : String} {n : Node} {d : Declaration}

theorem DeclaredAs.showsChildren (h : DeclaredAs context path name n d) :
    d.body.showsChildren = n.showsDeclared := by
  refine h.induct (motive := fun _ _ n d => d.body.showsChildren = n.showsDeclared) ?_
  rintro path name n depth body nested groups hk - - ⟨u, u', hbody⟩
  exact declarationBody_showsChildren hk hbody

theorem DeclaredAs.isObject_eq (h : DeclaredAs context path name n d) :
    d.isObject = n.isObject := by
  obtain ⟨depth, body, nested, groups, rfl, hnested, hgroups, u, u', hbody⟩ := h.parts
  unfold Node.isObject
  cases hbody with
  | struct hk | enum hk | constant hk =>
    rw [hk]
    rfl
  | scope hk =>
    -- only structs have groups, so all that is inside is nested
    have hnone : n.groups = [] := by
      unfold Node.groups
      rw [hk]
    rw [hnone] at hgroups
    cases hgroups
    have hempty : nested.isEmpty = n.nested.isEmpty := by
      rw [Bool.eq_iff_iff, List.isEmpty_iff_length_eq_zero, List.isEmpty_iff_length_eq_zero,
        hnested.length_eq]
    rw [hk, List.append_nil]
    exact congrArg Bool.not hempty
  | nothing hk => rcases hk with hk | hk | hk <;> rw [hk] <;> rfl

/-- A name at the root of the file being generated leads down its nested entries. -/
theorem Names.nestedPath {q : QualifiedName} {file : Node}
    (hfile : context.graph.find? context.file.id = some file) (hq : Names context q n)
    (hroot : q.root = .own ∨ q.root = .provided context.file.id)
    (hn : context.graph.find? n.id = some n) : context.graph.NestedPath file q.path n := by
  obtain ⟨top, hpath, htop⟩ := hq
  have hid : top.id = context.file.id := by
    unfold rootOf at htop
    split_ifs at htop with ha hid
    · simpa [htop] using hroot
    · exact hid
    · simp [htop] at hroot
  obtain ⟨hfind, hnested⟩ := hpath.nestedPath hn
  rw [hid, hfile, Option.some.injEq] at hfind
  rw [hfind]
  exact hnested

theorem definesObject_of_nestedPath {file : Node} {ds : List Declaration} {names : List String}
    {used used' : UsedFiles}
    (hrun : Generation.run (fileDeclarations file) context used = (.ok ds, used'))
    (hfile : file ∈ context.graph.nodes)
    (hnames : ∀ m ∈ context.graph.nodes, ∀ entry ∈ m.nested, entry.name ≠ "")
    (hkinds : ∀ m ∈ context.graph.nodes, m.nested ≠ [] → m.showsDeclared = true)
    (h : context.graph.NestedPath file names n) (hne : names ≠ []) (hn : n.isObject = true) :
    DefinesObject ds names := by
  cases h with
  | file => exact absurd rfl hne
  | inside h he hm =>
    rename_i m names entry
    have hnamed := h.named fun _ m hm => hnames m (hm.mem hfile)
    obtain ⟨d, hat, hd⟩ := exists_declaredAs (run_fileDeclarations_eq_ok hrun)
      (fun _ m _ _ d hm hnil hd => hd.showsChildren.trans (hkinds m (hm.mem hfile) hnil)) h he hm
    obtain ⟨members, htext⟩ := Declaration.exists_members (hd.isObject_eq.trans hn)
    refine ⟨d, members, hat, ?_, htext, hat.text_within⟩
    rw [hd.place_topLevel]
    by_cases hnil : names = []
    · rw [hnil]
      rfl
    · -- with an empty path the member would be taken for one of the module's
      have hpath : (dotted names).isEmpty = false := by simpa using dotted_ne_empty hnil hnamed
      have hlong : ((names ++ [entry.name]).length == 1) = false := by simp [hnil]
      rw [hpath, hlong]

/-- A name in the definitions at the root of the file being generated stands for a node that they
refer to. It names an object that they define, unless the node is one without a definition. -/
theorem own_names_are_defined (g : Graph) (request : RequestedFile) (out : FileOutput)
    (hnames : ∀ n ∈ g.nodes, ∀ entry ∈ n.nested, entry.name ≠ "")
    (hkinds : ∀ n ∈ g.nodes, n.nested ≠ [] →
      n.kind = .fileNode ∨ n.kind = .structNode ∨ n.kind = .interfaceNode)
    (h : generateFile g request = .ok out) :
    ∃ file source, g.find? request.id = some file ∧
      sourceFile ⟨g, request⟩ file = .ok source ∧ out.source = source.text ∧
      ∀ q ∈ source.names, q.root = .own ∨ q.root = .provided request.id →
        (∃ id n, g.RefersBelow file id ∧ g.find? id = some n ∧ Names ⟨g, request⟩ q n) ∧
        ∀ id n, g.find? id = some n → Names ⟨g, request⟩ q n →
          n.kind = .structNode ∨ n.kind = .enumNode ∨ (n.kind = .interfaceNode ∧ n.nested ≠ []) →
          DefinesObject source.declarations q.path := by
  obtain ⟨file, source, hfile, hkind, hsource, rfl⟩ := generateFile_eq_ok h
  obtain ⟨used, hrun, -⟩ := sourceFile_eq_ok hsource
  have hres : Resolved ⟨g, request⟩ (g.RefersBelow file) (g.LeftOut file) [] source.names used :=
    fileDeclarations_resolved hrun fun _ hf => hf
  have hshown : ∀ m ∈ g.nodes, m.nested ≠ [] → m.showsDeclared = true := by
    intro m hm hnil
    rcases hkinds m hm hnil with hk | hk | hk <;> simp [Node.showsDeclared, hk]
  refine ⟨file, source, hfile, hsource, rfl, fun q hq hroot => ⟨hres.referred q hq, ?_⟩⟩
  intro id n hfind hn hkinds
  have hobject : n.isObject = true := by
    rcases hkinds with hk | hk | ⟨hk, hnil⟩
    · simp [Node.isObject, hk]
    · simp [Node.isObject, hk]
    · simp [Node.isObject, hk, hnil]
  rw [← Graph.id_of_find? hfind] at hfind
  have hpath := hn.nestedPath hfile hroot hfind
  refine definesObject_of_nestedPath hrun (Graph.mem_of_find? hfile) hnames hshown hpath ?_ hobject
  -- only the file itself has the empty path
  intro hnil
  rw [hnil] at hpath
  rw [hpath.eq_file, Node.isObject, hkind] at hobject
  cases hobject

namespace Library

def catalog (element : TypeRef) : Node :=
  { node 2 .structNode 1 [] with
    struct? := some ⟨0, 1, 0, false, 0, 0,
      [⟨"items", 0, noDiscriminant, .slot ⟨0, .listOf element, .zero .list, 0⟩⟩]⟩ }

def markedShelf : Node :=
  node 3 .interfaceNode 1 [⟨"Mark", 4⟩]

def bareShelf : Node :=
  node 3 .interfaceNode 1 []

def mark : Node :=
  node 4 .enumNode 3 []

def catalogFile : Node :=
  node 1 .fileNode 0 [⟨"Catalog", 2⟩, ⟨"Shelf", 3⟩]

/-- The catalog lists lists of marks, an enum nested in the interface of shelves. -/
def markedGraph : Graph :=
  ⟨[catalogFile, catalog (.listOf (.plain .enum 4)), markedShelf, mark], by decide⟩

/-- The catalog lists shelves, an interface with nothing nested in it. -/
def bareGraph : Graph :=
  ⟨[catalogFile, catalog (.plain .interface 3), bareShelf], by decide⟩

def catalogRequest : RequestedFile :=
  ⟨1, "catalog", []⟩

end Library

/-- The marks that the catalog names are an object inside that of the shelves. -/
theorem own_names_are_defined_mark :
    (∀ n ∈ Library.markedGraph.nodes, ∀ entry ∈ n.nested, entry.name ≠ "") ∧
    (∀ n ∈ Library.markedGraph.nodes, n.nested ≠ [] →
      n.kind = .fileNode ∨ n.kind = .structNode ∨ n.kind = .interfaceNode) ∧
    ∃ out source, generateFile Library.markedGraph Library.catalogRequest = .ok out ∧
      sourceFile ⟨Library.markedGraph, Library.catalogRequest⟩ Library.catalogFile = .ok source ∧
      ⟨.own, ["Shelf", "Mark"]⟩ ∈ source.names ∧
      DefinesObject source.declarations ["Shelf", "Mark"] := by
  have hnames : ∀ n ∈ Library.markedGraph.nodes, ∀ entry ∈ n.nested, entry.name ≠ "" := by decide
  have hkinds : ∀ n ∈ Library.markedGraph.nodes, n.nested ≠ [] →
      n.kind = .fileNode ∨ n.kind = .structNode ∨ n.kind = .interfaceNode := by decide
  obtain ⟨file, source, hfile, hsource, -, hall⟩ := own_names_are_defined Library.markedGraph
    Library.catalogRequest _ hnames hkinds rfl
  cases hfile
  cases hsource
  have hshelf : Library.markedGraph.ScopePath Library.catalogFile ["Shelf"] Library.markedShelf :=
    .nested ⟨by decide, rfl⟩ rfl (.top rfl)
  have hmark : Names ⟨Library.markedGraph, Library.catalogRequest⟩ ⟨.own, ["Shelf", "Mark"]⟩
      Library.mark := ⟨Library.catalogFile, .nested ⟨by decide, rfl⟩ rfl hshelf, rfl⟩
  refine ⟨hnames, hkinds, _, _, rfl, rfl, by decide +kernel, ?_⟩
  exact (hall ⟨.own, ["Shelf", "Mark"]⟩ (by decide +kernel) (Or.inl rfl)).2 4 Library.mark rfl hmark
    (Or.inr (Or.inl rfl))

/-- Shelves with nothing nested in them have no definition, and yet the list in the catalog names
them. -/
theorem own_name_without_object :
    (∀ n ∈ Library.bareGraph.nodes, Library.bareGraph.WellNested n) ∧
    (∀ n ∈ Library.bareGraph.nodes, n.scopeId ≠ 0 →
      ∃ scope ∈ Library.bareGraph.nodes, scope.id = n.scopeId ∧
        ∃ entry ∈ scope.nested, entry.id = n.id) ∧
    (∀ n ∈ Library.bareGraph.nodes, n.nested ≠ [] →
      n.kind = .fileNode ∨ n.kind = .structNode ∨ n.kind = .interfaceNode) ∧
    ∃ out source, generateFile Library.bareGraph Library.catalogRequest = .ok out ∧
      sourceFile ⟨Library.bareGraph, Library.catalogRequest⟩ Library.catalogFile = .ok source ∧
      out.source = source.text ∧ ⟨.own, ["Shelf"]⟩ ∈ source.names ∧
      ¬DefinesObject source.declarations ["Shelf"] := by
  refine ⟨by decide, by decide, by decide, _, _, rfl, rfl, rfl, by decide +kernel, ?_⟩
  exact not_definesObject (by decide +kernel)

end Bindings
end SchemaBindings
