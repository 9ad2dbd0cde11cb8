import SchemaBindings.Proofs.Bindings.EmbeddedSchemas

namespace SchemaBindings

open SchemaBindings.Schema Relation

namespace Schema

/-- A constant that nothing is read from the encoded form of: it is written as a literal, or there is
no definition of it. -/
def Node.isInlineConstant (n : Node) : Bool :=
  match n.kind, n.const? with
  | .constNode, some c => !(c.type.kind ∈ [Kind.text, .data, .struct, .list])
  | _, _ => false

namespace Graph

variable {g : Graph} {ids ids' : List UInt64} {nodes nodes' : List Node} {n m : Node}

/-- The nodes in and below a list of ids in pre-order: a node, then what is declared inside it, then
the rest of the list. An inline constant is left out, and so is what is declared inside it. -/
inductive PreOrder (g : Graph) : List UInt64 → List Node → Prop where
  | nil : PreOrder g [] []
  | skip {id : UInt64} {n : Node} {ids : List UInt64} {nodes : List Node}
      (hn : g.find? id = some n) (hi : n.isInlineConstant = true) (h : PreOrder g ids nodes) :
      PreOrder g (id :: ids) nodes
  | visit {id : UInt64} {n : Node} {ids : List UInt64} {below nodes : List Node}
      (hn : g.find? id = some n) (hi : n.isInlineConstant = false)
      (hbelow : PreOrder g n.declared below) (h : PreOrder g ids nodes) :
      PreOrder g (id :: ids) (n :: below ++ nodes)

/-- `m` is declared inside `n`, which is not left out. -/
def DeclaresShown (g : Graph) (n m : Node) : Prop :=
  n.isInlineConstant = false ∧ g.Declares n m

namespace PreOrder

theorem append (h : g.PreOrder ids nodes) (h' : g.PreOrder ids' nodes') :
    g.PreOrder (ids ++ ids') (nodes ++ nodes') := by
  induction h with
  | nil => exact h'
  | skip hn hi _ ih => exact .skip hn hi ih
  | @visit id n ids below nodes hn hi hbelow _ _ ih =>
    rw [List.append_assoc]
    exact .visit hn hi hbelow ih

theorem unique (h : g.PreOrder ids nodes) (h' : g.PreOrder ids nodes') : nodes = nodes' := by
  induction h generalizing nodes' with
  | nil =>
    cases h'
    rfl
  | skip hn hi _ ih =>
    cases h' with
    | skip _ _ h' => exact ih h'
    | visit hn' hi' =>
      cases hn.symm.trans hn'
      rw [hi] at hi'
      cases hi'
  | visit hn hi _ _ ihbelow ih =>
    cases h' with
    | skip hn' hi' =>
      cases hn.symm.trans hn'
      rw [hi] at hi'
      cases hi'
    | visit hn' _ hbelow' h' =>
      cases hn.symm.trans hn'
      rw [ihbelow hbelow', ih h']

theorem isInlineConstant_of_mem (h : g.PreOrder ids nodes) (hm : m ∈ nodes) :
    m.isInlineConstant = false := by
  induction h with
  | nil => cases hm
  | skip _ _ _ ih => exact ih hm
  | visit _ hi _ _ ihbelow ih =>
    rcases List.mem_append.1 hm with hm | hm
    · rcases List.mem_cons.1 hm with rfl | hm
      · exact hi
      · exact ihbelow hm
    · exact ih hm

theorem reaches_of_mem (h : g.PreOrder ids nodes) (hm : m ∈ nodes) :
    ∃ id ∈ ids, ∃ n, g.find? id = some n ∧ ReflTransGen g.DeclaresShown n m := by
  induction h with
  | nil => cases hm
  | skip _ _ _ ih =>
    obtain ⟨id, hid, hreach⟩ := ih hm
    exact ⟨id, List.mem_cons_of_mem _ hid, hreach⟩
  | visit hn hi _ _ ihbelow ih =>
    rcases List.mem_append.1 hm with hm | hm
    · refine ⟨_, List.mem_cons_self, _, hn, ?_⟩
      rcases List.mem_cons.1 hm with rfl | hm
      · exact .refl
      · obtain ⟨id, hid, child, hchild, hreach⟩ := ihbelow hm
        exact .head ⟨hi, id, hid, hchild⟩ hreach
    · obtain ⟨id, hid, hreach⟩ := ih hm
      exact ⟨id, List.mem_cons_of_mem _ hid, hreach⟩

theorem mem_of_reaches (h : g.PreOrder ids nodes) {id : UInt64} (hid : id ∈ ids)
    (hn : g.find? id = some n) (hreach : ReflTransGen g.DeclaresShown n m)
    (hm : m.isInlineConstant = false) : m ∈ nodes := by
  induction h generalizing id n with
  | nil => cases hid
  | skip hn' hi _ ih =>
    rcases List.mem_cons.1 hid with rfl | hid
    · -- nothing is reached from what is left out
      cases hn.symm.trans hn'
      cases hreach.cases_head with
      | inl heq =>
        rw [← heq, hi] at hm
        cases hm
      | inr hstep =>
        obtain ⟨child, ⟨hshown, -⟩, -⟩ := hstep
        rw [hi] at hshown
        cases hshown
    · exact ih hid hn hreach
  | visit hn' hi _ _ ihbelow ih =>
    rcases List.mem_cons.1 hid with rfl | hid
    · cases hn.symm.trans hn'
      apply List.mem_append_left
      cases hreach.cases_head with
      | inl heq => exact heq ▸ List.mem_cons_self
      | inr hstep =>
        obtain ⟨child, ⟨-, id', hid', hchild⟩, hreach⟩ := hstep
        exact List.mem_cons_of_mem _ (ihbelow hid' hchild hreach)
    · exact List.mem_append_right _ (ih hid hn hreach)

/-- What stands in the pre-order below a node. -/
theorem mem_iff (h : g.PreOrder n.declared nodes) (hn : n.isInlineConstant = false) :
    m ∈ nodes ↔ TransGen g.DeclaresShown n m ∧ m.isInlineConstant = false := by
  constructor
  · intro hm
    obtain ⟨id, hid, child, hchild, hreach⟩ := h.reaches_of_mem hm
    exact ⟨.head' ⟨hn, id, hid, hchild⟩ hreach, h.isInlineConstant_of_mem hm⟩
  · rintro ⟨hreach, hm⟩
    obtain ⟨child, ⟨-, id, hid, hchild⟩, hreach⟩ := TransGen.head'_iff.1 hreach
    exact h.mem_of_reaches hid hchild hreach hm

end PreOrder

end Graph

end Schema

namespace Bindings

variable {context : FileContext} {path name : String} {n : Node} {d : Declaration}

theorem DeclaresBody.needsEntry_eq {used used' : UsedFiles} {body : Body}
    (h : DeclaresBody context used used' path n body) :
    body.needsEntry = !n.isInlineConstant := by
  unfold Node.isInlineConstant
  cases h with
  | struct hk | enum hk | scope hk =>
    rw [hk]
    rfl
  | nothing hk => rcases hk with hk | hk | hk <;> rw [hk] <;> rfl
  | constant hk hrun =>
    obtain ⟨c, hc, hvalue⟩ := constExpr_cases hrun
    simp only [hk, hc]
    cases hkind : c.type.kind with
    | text | data | struct | list =>
      simp only [hkind] at hvalue
      obtain ⟨value, rfl, hneeds⟩ := hvalue
      exact hneeds
    | interface | anyPointer =>
      simp only [hkind] at hvalue
      rw [hvalue]
      rfl
    | _ =>
      simp only [hkind] at hvalue
      obtain ⟨value, rfl⟩ := hvalue
      rfl

/-- The entries of a declaration are those of the nodes at and below an id, in pre-order, and none of
them is a file. -/
def Declaration.Lists (g : Graph) (id : UInt64) (d : Declaration) : Prop :=
  ∃ nodes, g.PreOrder [id] nodes ∧ (∀ m ∈ nodes, m.kind ≠ .fileNode) ∧
    d.entries = nodes.map SchemaEntry.ofNode

theorem entriesList_preOrder {g : Graph} {ids : List UInt64} {ds : List Declaration}
    (h : List.Forall₂ (Declaration.Lists g) ids ds) :
    ∃ nodes, g.PreOrder ids nodes ∧ (∀ m ∈ nodes, m.kind ≠ .fileNode) ∧
      Declaration.entriesList ds = nodes.map SchemaEntry.ofNode := by
  induction h with
  | nil => exact ⟨[], .nil, by simp, rfl⟩
  | @cons id d ids ds hd _ ih =>
    obtain ⟨first, horder, hkinds, hentries⟩ := hd
    obtain ⟨rest, horder', hkinds', hentries'⟩ := ih
    refine ⟨first ++ rest, horder.append horder', ?_, ?_⟩
    · exact List.forall_mem_append.2 ⟨hkinds, hkinds'⟩
    · rw [Declaration.entriesList_cons, hentries, hentries', List.map_append]

theorem DeclaredAs.lists (h : DeclaredAs context path name n d) {id : UInt64}
    (hn : context.graph.find? id = some n) : d.Lists context.graph id := by
  refine h.induct (motive := fun _ _ n d => ∀ id, context.graph.find? id = some n →
    d.Lists context.graph id) ?_ id hn
  rintro path name n depth body nested groups hk hnested hgroups ⟨u, u', hbody⟩ id hn
  have hchildren : List.Forall₂ (Declaration.Lists context.graph) n.declared (nested ++ groups) := by
    apply List.rel_append
    · rw [List.forall₂_map_left_iff]
      refine hnested.imp ?_
      rintro entry child ⟨m, hm, -, hlists⟩
      exact hlists entry.id hm
    · rw [List.forall₂_map_left_iff]
      refine hgroups.imp ?_
      rintro group child ⟨m, hm, -, hlists⟩
      exact hlists group.2 hm
  obtain ⟨below, horder, hkinds, hentries⟩ := entriesList_preOrder hchildren
  have hneeds := (declarationBody_cases hbody).needsEntry_eq
  rw [Declaration.Lists, Declaration.entries_mk, hneeds]
  cases hinline : n.isInlineConstant with
  | true => exact ⟨[], .skip hn hinline .nil, by simp, rfl⟩
  | false =>
    refine ⟨n :: below ++ [], .visit hn hinline horder .nil, ?_, ?_⟩
    · rw [List.append_nil]
      exact List.forall_mem_cons.2 ⟨hk, hkinds⟩
    · rw [List.append_nil, hentries]
      rfl

/-- The section of encoded forms in a generated file has one for each node of the declarations below
the file, in pre-order, where an inline constant is left out with all that is inside it. So what is
embedded is each node that is not such a constant and that declarations lead to without one, and the
file itself is not. -/
theorem schemas_in_preorder (g : Graph) (request : RequestedFile) (out : FileOutput)
    (h : generateFile g request = .ok out) :
    ∃ file source nodes, g.find? request.id = some file ∧
      sourceFile ⟨g, request⟩ file = .ok source ∧
      out.source = source.header ++ "\n(function() \x7b\n\n" ++ source.locals ++ "\n"
        ++ String.join (nodes.map fun m => (SchemaEntry.ofNode m).text) ++ "\n"
        ++ source.definitions ++ source.exportLine ++ "\x7d)();\n" ∧
      g.PreOrder file.declared nodes ∧ (∀ nodes', g.PreOrder file.declared nodes' → nodes' = nodes) ∧
      (∀ m ∈ nodes, m.kind ≠ .fileNode) ∧ file ∉ nodes ∧
      ∀ m, m ∈ nodes ↔ TransGen g.DeclaresShown file m ∧ m.isInlineConstant = false := by
  obtain ⟨file, source, hfile, hkind, hsource, rfl⟩ := generateFile_eq_ok h
  obtain ⟨used, hrun, -⟩ := sourceFile_eq_ok hsource
  have hgroups : file.groups = [] := by
    unfold Node.groups
    rw [hkind]
  have hshown : file.isInlineConstant = false := by
    unfold Node.isInlineConstant
    rw [hkind]
  have hlists : List.Forall₂ (Declaration.Lists g) file.declared source.declarations := by
    rw [Node.declared, hgroups, List.map_nil, List.append_nil, List.forall₂_map_left_iff]
    refine (run_fileDeclarations_eq_ok hrun).imp ?_
    rintro entry d ⟨n, hn, hd⟩
    exact hd.lists hn
  obtain ⟨nodes, horder, hkinds, hentries⟩ := entriesList_preOrder hlists
  refine ⟨file, source, nodes, hfile, hsource, ?_, horder, fun _ h' => h'.unique horder, hkinds,
    fun hmem => hkinds file hmem hkind, fun m => horder.mem_iff hshown⟩
  have hschemas : source.schemas =
      String.join (nodes.map fun m => (SchemaEntry.ofNode m).text) := by
    rw [SourceFile.schemas, SourceFile.entries, hentries, List.map_map]
    rfl
  rw [← hschemas]
  rfl

namespace Library

/-- A number, which is written where it is used, and an annotation inside it. -/
def limit : Node :=
  { node 6 .constNode 1 [⟨"note", 7⟩] with
    const? := some ⟨.plain .uint8 0, { Value.zero .uint8 with uint := 9 }, 0⟩ }

def note : Node :=
  node 7 .annotationNode 6 []

def limitedFile : Node :=
  node 1 .fileNode 0 [⟨"Bindery", 2⟩, ⟨"limit", 6⟩, ⟨"motto", 5⟩, ⟨"note", 7⟩]

def limitedGraph : Graph :=
  ⟨[limitedFile, bindery, volume, cover, motto, limit, note], by decide +kernel⟩

theorem preOrder_limited : limitedGraph.PreOrder limitedFile.declared
    [bindery, volume, cover, motto, note] := by
  have hnote : limitedGraph.find? 7 = some note := rfl
  have hmotto : limitedGraph.find? 5 = some motto := rfl
  have hlimit : limitedGraph.find? 6 = some limit := rfl
  have hcover : limitedGraph.find? 4 = some cover := rfl
  have hvolume : limitedGraph.find? 3 = some volume := rfl
  have hbindery : limitedGraph.find? 2 = some bindery := rfl
  have hconstants := Graph.PreOrder.skip hlimit rfl
    (.visit hmotto rfl .nil (.visit hnote rfl .nil .nil))
  exact .visit hbindery rfl (.visit hvolume rfl (.visit hcover rfl .nil .nil) .nil) hconstants

end Library

/-- An interface with a struct and its group in it comes before the constants, of which the number is
left out. The annotation inside it is embedded once, where the file has it. -/
theorem schemas_in_preorder_limited :
    ∃ out source, generateFile Library.limitedGraph ⟨1, "bindery", []⟩ = .ok out ∧
      sourceFile ⟨Library.limitedGraph, ⟨1, "bindery", []⟩⟩ Library.limitedFile = .ok source ∧
      out.source = source.header ++ "\n(function() \x7b\n\n" ++ source.locals ++ "\n"
        ++ String.join ([Library.bindery, Library.volume, Library.cover, Library.motto,
          Library.note].map fun m => (SchemaEntry.ofNode m).text) ++ "\n"
        ++ source.definitions ++ source.exportLine ++ "\x7d)();\n" ∧
      TransGen Library.limitedGraph.DeclaresShown Library.limitedFile Library.cover ∧
      ¬TransGen Library.limitedGraph.DeclaresShown Library.limit Library.note := by
  obtain ⟨file, source, nodes, hfile, hsource, htext, -, hunique, -, -, hmem⟩ :=
    schemas_in_preorder Library.limitedGraph ⟨1, "bindery", []⟩ _ rfl
  cases hfile
  obtain rfl := hunique _ Library.preOrder_limited
  refine ⟨_, source, rfl, hsource, htext, ((hmem Library.cover).1 (by simp)).1, ?_⟩
  intro hreach
  obtain ⟨child, ⟨hshown, -⟩, -⟩ := TransGen.head'_iff.1 hreach
  cases hshown

end Bindings

end SchemaBindings
