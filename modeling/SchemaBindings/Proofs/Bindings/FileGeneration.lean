import SchemaBindings.Bindings.File
import SchemaBindings.Proofs.Bindings.Success
import SchemaBindings.Proofs.Document.Complete

namespace SchemaBindings.Bindings

open Relation
open SchemaBindings.Schema SchemaBindings.Layout

theorem scopedName_cases (g : Graph) (n : Node) :
    (∃ scope name, g.find? n.scopeId = some scope ∧ (∃ entry ∈ scope.nested, entry.id = n.id) ∧
      g.scopedName n = .ok (scope, name)) ∨
    (¬∃ scope, g.find? n.scopeId = some scope ∧ ∃ entry ∈ scope.nested, entry.id = n.id) ∧
      ∃ e, g.scopedName n = .error e ∧ e.cause.isBrokenLink = true := by
  cases hs : g.find? n.scopeId with
  | none =>
    refine Or.inr ⟨by simp, (Failure.ofCause (.unknownNode n.scopeId)).within
      (.scopeOf n.displayName), ?_, rfl⟩
    rw [Graph.scopedName, Graph.find_of_find?_none hs]
    rfl
  | some scope =>
    have hf := Graph.find_eq_ok_iff.2 hs
    cases hm : scope.nested.find? fun entry => entry.id == n.id with
    | none =>
      refine Or.inr ⟨?_, .ofCause (.scopeMismatch n.displayName n.id scope.displayName scope.id),
        ?_, rfl⟩
      · rintro ⟨_, ⟨⟩, entry, hentry, hid⟩
        have hne := List.find?_eq_none.1 hm entry hentry
        simp [hid] at hne
      · simp [Graph.scopedName, hf, Node.nestedName?, hm, Except.mapError, bind, Except.bind]
    | some entry =>
      refine Or.inl ⟨scope, entry.name, rfl, ⟨entry, List.mem_of_find?_eq_some hm, ?_⟩, ?_⟩
      · simpa using List.find?_some hm
      · simp [Graph.scopedName, hf, Node.nestedName?, hm, Except.mapError, bind, Except.bind]

section Graph

variable {context : FileContext} (hscopes : Graph.Acyclic context.graph.ScopedIn)
include hscopes

/-- A node can be named when its scopes lead up to one without scope. -/
theorem qualify_settles (depth : Nat) (n : Node)
    (hd : context.graph.reachCount context.graph.ScopedIn n < depth) :
    Settles context (qualify depth n) (context.graph.ScopeChain n) := by
  induction depth generalizing n with
  | zero => omega
  | succ depth ih =>
    rw [qualify]
    apply Settles.read_bind
    by_cases htop : n.scopeId = 0
    · have ht : n.isTopLevel = true := by simp [Node.isTopLevel, htop]
      have hchain : context.graph.ScopeChain n := .top htop
      rw [if_pos ht]
      intro used
      split_ifs
      · exact hchain
      · exact hchain
    · have ht : ¬n.isTopLevel = true := by simp [Node.isTopLevel, htop]
      rw [if_neg ht]
      rcases scopedName_cases context.graph n with
        ⟨scope, name, hs, hl, hok⟩ | ⟨hno, e, herr, he⟩
      · rw [hok]
        have hscope : context.graph.ScopedIn n scope := ⟨htop, hs⟩
        have hlt := Graph.reachCount_lt hscopes hscope (Graph.mem_of_find? hs)
        refine (ih scope (by omega)).map.congr ?_
        rw [Graph.scopeChain_iff htop]
        constructor
        · intro hc
          exact ⟨scope, hs, hl, hc⟩
        · rintro ⟨scope', hs', -, hc⟩
          cases hs.symm.trans hs'
          exact hc
      · rw [herr]
        intro used
        refine ⟨?_, he⟩
        rw [Graph.scopeChain_iff htop]
        rintro ⟨scope, hs, hl, -⟩
        exact hno ⟨scope, hs, hl⟩

theorem qualifiedName_settles (n : Node) :
    Settles context (qualifiedName n) (context.graph.ScopeChain n) :=
  .read_bind (qualify_settles hscopes _ n (Graph.reachCount_lt_depthBound _))

theorem qualifiedNameOf_settles (id : UInt64) :
    Settles context (qualifiedNameOf id) (context.graph.Resolves id) :=
  .find_bind .find fun n _ => qualifiedName_settles hscopes n

theorem typeExpr_settles {t : TypeRef} (ht : t.IsProper) :
    Settles context (typeExpr t) (∀ id ∈ t.references, context.graph.Resolves id) := by
  induction t with
  | plain kind typeId =>
    have hnamed : Settles context (qualifiedNameOf typeId >>= fun q => pure (TypeExpr.declared q))
        (∀ id ∈ [typeId], context.graph.Resolves id) :=
      (qualifiedNameOf_settles hscopes typeId).map.congr (by simp)
    obtain ⟨hlisted, hlist⟩ := ht
    cases kind with
    | enum | struct | interface => exact hnamed
    | list => exact absurd rfl hlist
    | unlisted code h => simp [Kind.listed] at hlisted
    | _ => exact (Settles.pure _).congr (by simp [TypeRef.references])
  | listOf element ih =>
    rw [typeExpr]
    exact (ih ht).map

theorem enumLiteral_settles (id : UInt64) (ordinal : UInt16) :
    Settles context (enumLiteral id ordinal) (context.graph.Resolves id) := by
  refine .find_bind .find fun n _ => ?_
  refine ((qualifiedName_settles hscopes n).bind fun type => ?_).congr (and_iff_left trivial)
  split
  · exact .pure _
  · exact .pure _

/-- A constant is defined when what its type names can be named. -/
theorem constExpr_settles {n : Node} {c : ConstInfo} (hc : n.const? = some c)
    (ht : c.type.IsProper) :
    Settles context (constExpr n) (∀ id ∈ c.references, context.graph.Resolves id) := by
  have hlisted := ht.kind_listed
  simp only [constExpr, hc, ConstInfo.references]
  cases hk : c.type.kind with
  | struct | list => exact (typeExpr_settles hscopes ht).map
  | text | data | interface | anyPointer => exact (Settles.pure _).congr (by simp)
  | enum =>
    have hl : literal c.type c.value = enumLiteral c.type.typeId c.value.enum := by
      simp only [literal, hk]
    dsimp only
    rw [hl, TypeRef.references_of_enum hk]
    exact (enumLiteral_settles hscopes _ _).map.congr (by simp)
  | unlisted code h => simp [hk, Kind.listed] at hlisted
  | _ =>
    simp only [literal, hk]
    exact (Settles.pure _).map.congr (by simp)

theorem slotAccessors_settles (nodeId : UInt64) {slot : SlotField} (ht : slot.type.IsProper) :
    Settles context (slotAccessors nodeId slot)
      (∀ id ∈ slot.references, context.graph.Resolves id) := by
  have hlisted := ht.kind_listed
  rw [slotAccessors, SlotField.references]
  cases hk : slot.type.kind with
  | struct | list => exact (typeExpr_settles hscopes ht).map
  | unlisted code h => simp [hk, Kind.listed] at hlisted
  | _ => exact (Settles.pure _).congr (by simp)

end Graph

/-- What holds of the group fields of a struct, said of its groups. -/
theorem forall_groups_iff {n : Node} {s : StructInfo} (hk : n.kind = .structNode)
    (hs : n.struct? = some s) {P : UInt64 → Prop} :
    (∀ group ∈ n.groups, P group.2) ↔ ∀ f ∈ s.fields, ∀ id, f.body = .group id → P id := by
  constructor
  · intro h f hf id hb
    exact h (f.name, id) (Node.mem_groups.2 ⟨hk, s, hs, f, hf, rfl, hb⟩)
  · rintro h ⟨name, id⟩ hg
    obtain ⟨-, s', hs', f, hf, -, hb⟩ := Node.mem_groups.1 hg
    cases hs.symm.trans hs'
    exact h f hf id hb

section Nodes

variable {context : FileContext} (hnodes : ∀ n ∈ context.graph.nodes, n.Complete)
include hnodes

/-- The slots of a group can be collected when it and the groups inside it are structs. -/
theorem candidates_exactlyWhen (hgroups : Graph.Acyclic context.graph.GroupOf) (depth : Nat)
    (n : Node) (hn : n ∈ context.graph.nodes)
    (hd : context.graph.reachCount context.graph.GroupOf n < depth) :
    ExactlyWhen (context.graph.GroupTree n) (candidates context.graph depth n) := by
  induction depth generalizing n with
  | zero => omega
  | succ depth ih =>
    rw [candidates, Graph.groupTree_iff]
    by_cases hk : n.kind = .structNode
    · obtain ⟨s, hs, -⟩ := (hnodes n hn).struct hk
      have hfields : ∀ f ∈ s.fields, ExactlyWhen
          (∀ id, f.body = .group id → context.graph.IsGroup id)
          (fieldCandidates context.graph n (candidates context.graph depth) f) := by
        intro f hf
        unfold fieldCandidates
        cases hb : f.body with
        | slot slot => exact fun id h => by cases h
        | group id =>
          refine (ExactlyWhen.find_bind fun m hm => ih m (Graph.mem_of_find? hm) ?_).congr
            (by simp [Graph.IsGroup])
          have hg : context.graph.GroupOf n m :=
            ⟨(f.name, id), Node.mem_groups.2 ⟨hk, s, hs, f, hf, rfl, hb⟩, hm⟩
          have hlt := Graph.reachCount_lt hgroups hg hg.mem
          omega
      simp only [hk, hs, true_and]
      rw [forall_groups_iff hk hs]
      exact (ExactlyWhen.mapM hfields).map
    · split
      next hk' _ => exact absurd hk' hk
      next => exact ⟨fun h => hk h.1, rfl⟩

variable (hlinks : Graph.Acyclic context.graph.Declares)
include hlinks

theorem occupied_exactlyWhen {n : Node} (hn : n ∈ context.graph.nodes) :
    ExactlyWhen (context.graph.GroupTree n) (occupied context.graph n) := by
  have hgroups : Graph.Acyclic context.graph.GroupOf := hlinks.mono fun _ _ h => h.declares
  exact (candidates_exactlyWhen hnodes hgroups _ n hn (Graph.reachCount_lt_depthBound _)).map

variable (hscopes : Graph.Acyclic context.graph.ScopedIn)
include hscopes

theorem fieldBindings_settles (scope : String) (nodeId : UInt64) (s : StructInfo) {f : Field}
    (hf : ∀ slot, f.body = .slot slot → slot.type.IsProper) :
    Settles context (fieldBindings scope nodeId s f)
      ((∀ id ∈ f.references, context.graph.Resolves id) ∧
        ∀ id, f.body = .group id → context.graph.IsGroup id) := by
  rw [fieldBindings]
  apply Settles.within
  refine Settles.map ?_
  unfold Field.references
  cases hb : f.body with
  | slot slot => exact (slotAccessors_settles hscopes nodeId (hf slot hb)).congr (by simp)
  | group id =>
    refine Settles.congr (p := context.graph.IsGroup id) ?_ (by simp)
    refine .find_bind .find fun m hm => .read_bind (.map (.ofExcept ?_))
    exact occupied_exactlyWhen hnodes hlinks (Graph.mem_of_find? hm)

/-- What a node declares can be built when what it refers to can be named and its groups are
structs. -/
theorem declarationBody_settles (path : String) {n : Node} (hn : n ∈ context.graph.nodes) :
    Settles context (declarationBody path n)
      ((∀ id ∈ n.references, context.graph.Resolves id) ∧
        ∀ group ∈ n.groups, context.graph.IsGroup group.2) := by
  unfold declarationBody
  cases hk : n.kind with
  | structNode =>
    obtain ⟨s, hs, hproper⟩ := (hnodes n hn).struct hk
    simp only [structBody, hs]
    refine (Settles.mapM fun f hf => fieldBindings_settles hnodes hlinks hscopes _ n.id s
      (hproper f hf)).map.map.congr ?_
    rw [forall_groups_iff hk hs]
    simp only [Node.references, hk, hs, List.mem_flatMap]
    grind
  | constNode =>
    obtain ⟨c, hc, hproper⟩ := (hnodes n hn).const hk
    refine (constExpr_settles hscopes hc hproper).map.congr ?_
    simp [Node.references, Node.groups, hk, hc]
  | _ => exact (Settles.pure _).congr (by simp [Node.references, Node.groups, hk])

/-- A node is declared when it is no file and all that is inside it is well linked. -/
theorem declareNode_settles (fuel : Nat) (path name : String) (depth : Nat) (n : Node)
    (hn : n ∈ context.graph.nodes)
    (hd : context.graph.reachCount context.graph.Declares n < fuel) :
    Settles context (declareNode fuel path name depth n)
      (n.kind ≠ .fileNode ∧ context.graph.WellLinkedBelow n) := by
  induction fuel generalizing path name depth n with
  | zero => omega
  | succ fuel ih =>
    have hchild : ∀ (path name : String) (depth : Nat) (place : Place), ∀ id ∈ n.declared,
        Settles context (Generation.within place (Generation.find id) >>= fun child =>
          declareNode fuel path name depth child) (context.graph.Declarable id) := by
      intro path name depth place id hid
      refine .find_bind (.within .find) fun m hm => ?_
      have hlt := Graph.reachCount_lt hlinks ⟨id, hid, hm⟩ (Graph.mem_of_find? hm)
      exact ih path name depth m (Graph.mem_of_find? hm) (by omega)
    rw [declareNode]
    by_cases hk : n.kind = .fileNode
    · rw [if_pos hk]
      exact fun _ => ⟨fun h => h.1 hk, rfl⟩
    · rw [if_neg hk]
      refine Settles.congr (.bind (.mapM fun entry he => hchild _ _ _ _ _ ?_) fun nested =>
        .bind (.mapM fun group hg => hchild _ _ _ _ _ ?_) fun groups =>
        .map (.within (declarationBody_settles hnodes hlinks hscopes _ hn))) ?_
      · exact List.mem_append_left _ (List.mem_map_of_mem he)
      · exact List.mem_append_right _ (List.mem_map_of_mem hg)
      · rw [Graph.wellLinkedBelow_iff]
        exact (and_iff_right hk).symm

theorem declaration_settles (path name : String) (depth : Nat) {n : Node}
    (hn : n ∈ context.graph.nodes) :
    Settles context (declaration path name depth n)
      (n.kind ≠ .fileNode ∧ context.graph.WellLinkedBelow n) :=
  .read_bind (declareNode_settles hnodes hlinks hscopes _ path name depth n hn
    (Graph.reachCount_lt_depthBound _))

theorem fileDeclarations_settles {file : Node} (hk : file.kind = .fileNode) :
    Settles context (fileDeclarations file) (context.graph.WellLinkedBelow file) := by
  rw [Graph.wellLinkedBelow_iff, fileDeclarations]
  refine Settles.congr (.mapM fun entry _ => .find_bind (.within .find) fun n hm =>
    declaration_settles hnodes hlinks hscopes "" entry.name 1 (Graph.mem_of_find? hm)) ?_
  simp [Node.groups, Node.references, hk, Graph.Declarable]

theorem sourceFile_exactlyWhen {file : Node} (hk : file.kind = .fileNode) :
    ExactlyWhen (context.graph.WellLinkedBelow file) (sourceFile context file) := by
  have h := fileDeclarations_settles hnodes hlinks hscopes hk []
  unfold sourceFile
  cases hr : (Generation.run (fileDeclarations file) context []).1 with
  | ok declarations =>
    rw [hr] at h
    simp only [hr]
    exact h
  | error e =>
    rw [hr] at h
    simp only [hr]
    exact h

end Nodes

theorem generateFile_exactlyWhen {g : Graph} (hnodes : ∀ n ∈ g.nodes, n.Complete)
    (hlinks : Graph.Acyclic g.Declares) (hscopes : Graph.Acyclic g.ScopedIn) (rf : RequestedFile) :
    ExactlyWhen (∃ file, g.find? rf.id = some file ∧ file.kind = .fileNode ∧ g.WellLinkedBelow file)
      (generateFile g rf) := by
  refine .find_bind fun file _ => ?_
  by_cases hk : file.kind = .fileNode
  · have hsource : ExactlyWhen (g.WellLinkedBelow file) (sourceFile ⟨g, rf⟩ file) :=
      sourceFile_exactlyWhen hnodes hlinks hscopes hk
    have hnot : ¬file.kind ≠ .fileNode := fun h => h hk
    rw [if_neg hnot]
    exact (hsource.mapError (.node file.displayName)).map.congr (and_iff_right hk).symm
  · rw [if_pos hk]
    exact ⟨fun h => hk h.1, rfl⟩

/-- Generating a file of an accepted document, in which links do not lead back, succeeds exactly
when the file is there and all that is declared in it is well linked; a failure is always a broken
link. -/
theorem generateFile_succeeds_iff (d : Document) (r : Request) (g : Graph) (rf : RequestedFile)
    (hr : Document.request d = .ok r) (hg : Graph.ofNodes r.nodes = .ok g)
    (hlinks : Graph.Acyclic g.Declares) (hscopes : Graph.Acyclic g.ScopedIn) :
    ((generateFile g rf).isOk = true ↔
      ∃ file, g.find? rf.id = some file ∧ file.kind = .fileNode ∧
        ∀ n, ReflTransGen g.Declares file n → g.WellLinked n) ∧
    ∀ e, generateFile g rf = .error e → e.cause.isBrokenLink = true := by
  have hnodes : ∀ n ∈ g.nodes, n.Complete := by
    rw [Graph.nodes_of_ofNodes hg]
    exact Document.request_complete hr
  have h := generateFile_exactlyWhen hnodes hlinks hscopes rf
  exact ⟨h.isOk_iff, fun e he => h.isBrokenLink he⟩

namespace Points

def fileRecord : Document.NodeRecord :=
  { (default : Document.NodeRecord) with
    id := 1
    kind := "file"
    displayName := "point.capnp"
    nested := [⟨"Point", 2⟩] }

/-- A struct with a list of its own kind. -/
def pointRecord : Document.NodeRecord :=
  { (default : Document.NodeRecord) with
    id := 2
    kind := "struct"
    displayName := "point.capnp:Point"
    scopeId := 1
    struct? := some
      { (default : Document.StructRecord) with
        fields := [⟨"next", 0, none, some ⟨0, .containing "list" 0 (.leaf "struct" 2), none, 0⟩,
          none⟩] } }

def document : Document :=
  ⟨some [fileRecord, pointRecord], some [⟨1, "point.capnp", []⟩]⟩

def file : Node :=
  { (default : Node) with
    id := 1
    kind := .fileNode
    displayName := "point.capnp"
    nested := [⟨"Point", 2⟩] }

def nextField : Field :=
  ⟨"next", 0, noDiscriminant, .slot ⟨0, .listOf (.plain .struct 2), .zero .list, 0⟩⟩

def point : Node :=
  { (default : Node) with
    id := 2
    kind := .structNode
    displayName := "point.capnp:Point"
    scopeId := 1
    struct? := some { (default : StructInfo) with fields := [nextField] } }

def requested : RequestedFile :=
  ⟨1, "point.capnp", []⟩

def graph : Graph :=
  ⟨[file, point], by decide⟩

theorem request_document : Document.request document = .ok ⟨[file, point], [requested]⟩ := by
  decide +kernel

theorem declares_iff (n m : Node) (hn : n ∈ graph.nodes) :
    graph.Declares n m ↔ n = file ∧ m = point := by
  have hn : n = file ∨ n = point := by simpa [graph] using hn
  rcases hn with rfl | rfl
  · constructor
    · rintro ⟨id, hid, hm⟩
      cases List.mem_singleton.1 hid
      exact ⟨rfl, (Option.some.inj hm).symm⟩
    · rintro ⟨-, rfl⟩
      exact ⟨2, List.mem_singleton.2 rfl, rfl⟩
  · constructor
    · rintro ⟨id, hid, -⟩
      cases hid
    · rintro ⟨h, -⟩
      cases congrArg Node.id h

theorem acyclic_declares : Graph.Acyclic graph.Declares := by
  refine Graph.acyclic_of_rank (fun n => if n = file then 1 else 0) (fun _ _ h => h.mem) ?_
  intro n hn m h
  obtain ⟨rfl, rfl⟩ := (declares_iff n m hn).1 h
  decide

theorem acyclic_scopedIn : Graph.Acyclic graph.ScopedIn := by
  refine Graph.acyclic_of_rank (fun n => if n = file then 0 else 1)
    (fun _ _ h => Graph.mem_of_find? h.2) ?_
  rintro n hn m ⟨hs, hm⟩
  have hn : n = file ∨ n = point := by simpa [graph] using hn
  rcases hn with rfl | rfl
  · exact absurd rfl hs
  · obtain rfl : file = m := Option.some.inj hm
    decide

theorem wellLinkedBelow_file : graph.WellLinkedBelow file := by
  have hdecl : graph.Declarable 2 := by
    refine ⟨point, rfl, by decide, Graph.wellLinkedBelow_iff.2 ⟨?_, ?_, ?_, ?_⟩⟩
    · rintro _ ⟨⟩
    · rintro _ ⟨⟩
    · intro id hid
      obtain rfl : id = 2 := List.mem_singleton.1 hid
      exact ⟨point, rfl, .nested ⟨by decide, rfl⟩ ⟨_, List.mem_singleton.2 rfl, rfl⟩ (.top rfl)⟩
    · rintro _ ⟨⟩
  rw [Graph.wellLinkedBelow_iff]
  simpa [Node.groups, Node.references, file] using hdecl

end Points

/-- The file of the points is generated; asking for the struct itself as a file is a broken link. -/
theorem generateFile_succeeds_iff_points :
    Document.request Points.document = .ok ⟨[Points.file, Points.point], [Points.requested]⟩ ∧
    Graph.ofNodes [Points.file, Points.point] = .ok Points.graph ∧
    (generateFile Points.graph Points.requested).isOk = true ∧
    (generateFile Points.graph ⟨2, "point.capnp:Point", []⟩).isOk = false := by
  have hg : Graph.ofNodes [Points.file, Points.point] = .ok Points.graph := rfl
  have h := fun rf => generateFile_succeeds_iff _ _ _ rf Points.request_document hg
    Points.acyclic_declares Points.acyclic_scopedIn
  refine ⟨Points.request_document, hg, (h _).1.2 ⟨Points.file, rfl, rfl, ?_⟩, ?_⟩
  · exact Points.wellLinkedBelow_file
  · rw [Bool.eq_false_iff, Ne, (h _).1]
    rintro ⟨file, hfile, hk, -⟩
    obtain rfl : Points.point = file := Option.some.inj hfile
    cases hk

end SchemaBindings.Bindings
