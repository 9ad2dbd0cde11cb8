import SchemaBindings.Bindings.File
import SchemaBindings.Proofs.Bindings.Tracks

namespace SchemaBindings

open SchemaBindings.Schema

namespace Layout

variable {g₁ g₂ : Graph} {S : UInt64 → Prop} {n : Node}

/-- The slots of a struct are found along its groups. -/
theorem candidates_linkRecursion :
    LinkRecursion fun g depth (_ : Unit) n => candidates g depth n where
  zero _ _ _ := rfl
  succ {p q g₁ g₂ S d₁ d₂ a b n} hS hn _ hrec := by
    simp only [candidates]
    split
    next s hk hs =>
      refine (Follows.mapM fun f hf => ?_).bind fun _ _ hparts => .ok fun hp => by rw [hparts hp]
      unfold fieldCandidates
      cases hb : f.body with
      | slot slot => exact .refl _
      | group id =>
        have hgroup : (f.name, id) ∈ n.groups := Node.mem_groups.2 ⟨hk, s, hs, f, hf, rfl, hb⟩
        have hlink := Node.group_mem_links hgroup
        dsimp only
        rw [← hS.find_eq (hn id hlink)]
        refine .bind_same fun m hm => ?_
        rw [Outcome.mapError_eq_ok_iff, Graph.find_eq_ok_iff] at hm
        exact hrec m () () ⟨id, hlink, hm⟩ fun _ => rfl
    next => exact .refl _

theorem occupied_eq_of_agreeOn (hS : g₁.AgreeOn g₂ S) (hn : ∀ id ∈ n.links, S id) :
    occupied g₁ n = occupied g₂ n := by
  have h : candidates g₁ g₁.depthBound n = candidates g₂ g₂.depthBound n :=
    (candidates_linkRecursion.follows hS hn fun _ => Eq.refl ()).eq
  rw [occupied, occupied, h]

end Layout

namespace Bindings

open SchemaBindings.Layout

variable {p q : Prop} {file : RequestedFile} {g₁ g₂ : Graph} {S : UInt64 → Prop} {n : Node}

theorem scopedName_eq (h : g₁.find n.scopeId = g₂.find n.scopeId) :
    g₁.scopedName n = g₂.scopedName n := by
  rw [Graph.scopedName, Graph.scopedName, h]

/-- The name of a node is found along its scopes. -/
theorem qualify_linkRecursion (file : RequestedFile) :
    LinkRecursion fun g depth used n => Generation.result (qualify depth n) ⟨g, file⟩ used where
  zero _ _ _ := rfl
  succ {p q g₁ g₂ S d₁ d₂ a b n} hS hn hab hrec := by
    suffices h : Tracks p q file g₁ g₂ (qualify (d₁ + 1) n) (qualify (d₂ + 1) n) from h a b hab
    rw [qualify, qualify]
    refine .read_bind ?_
    by_cases htop : n.isTopLevel = true
    · rw [if_pos htop, if_pos htop]
      by_cases hfile : n.id ≠ file.id
      · rw [if_pos hfile, if_pos hfile]
        exact (Tracks.markUsed n.id).bind fun _ _ _ => .pure fun _ => rfl
      · rw [if_neg hfile, if_neg hfile]
        exact .pure fun _ => rfl
    · rw [if_neg htop, if_neg htop]
      have hscope := Node.scope_mem_links htop
      refine .lookup_bind (.ofExcept _) (scopedName_eq (hS.find_eq (hn _ hscope)) ▸ .ofExcept _) ?_
      rintro ⟨scope, name⟩ hok
      obtain ⟨hfind, -⟩ := Graph.scopedName_eq_ok_iff.1 hok
      exact .map (fun u v huv => hrec scope u v ⟨n.scopeId, hscope, hfind⟩ huv) fun _ => rfl

section Steps

variable (hS : g₁.AgreeOn g₂ S)
include hS

theorem qualifiedName_tracks (hn : ∀ id ∈ n.links, S id) :
    Tracks p q file g₁ g₂ (qualifiedName n) (qualifiedName n) :=
  .read_bind (Tracks.weaken fun _ _ hused => (qualify_linkRecursion file).follows hS hn hused)

theorem qualifiedNameOf_tracks {id : UInt64} (hid : S id) :
    Tracks p q file g₁ g₂ (qualifiedNameOf id) (qualifiedNameOf id) :=
  .find_bind hS hid fun m hm => qualifiedName_tracks hS (hS.closed id m hid hm)

theorem typeExpr_tracks {t : TypeRef} (ht : ∀ id ∈ t.references, S id) :
    Tracks p q file g₁ g₂ (typeExpr t) (typeExpr t) := by
  induction t with
  | plain kind typeId =>
    cases kind with
    | enum | struct | interface =>
      exact (qualifiedNameOf_tracks hS (ht typeId List.mem_cons_self)).map fun _ => rfl
    | list | unlisted => exact .fail _
    | _ => exact .pure fun _ => rfl
  | listOf element ih =>
    rw [typeExpr]
    exact (ih ht).map fun _ => rfl

theorem enumLiteral_tracks {id : UInt64} (hid : S id) (ordinal : UInt16) :
    Tracks p q file g₁ g₂ (enumLiteral id ordinal) (enumLiteral id ordinal) := by
  refine .find_bind hS hid fun m hm => ?_
  refine (qualifiedName_tracks hS (hS.closed id m hid hm)).bind fun type type' htype => ?_
  cases (m.enumerants?.getD [])[ordinal.toNat]? with
  | some e => exact .pure fun hp => by rw [htype hp]
  | none => exact .pure fun _ => rfl

theorem constExpr_tracks (hn : ∀ id ∈ n.links, S id) (hk : n.kind = .constNode) :
    Tracks p q file g₁ g₂ (constExpr n) (constExpr n) := by
  unfold constExpr
  cases hc : n.const? with
  | none => exact .fail _
  | some c =>
    have href : ∀ id ∈ c.references, S id := by
      intro id hid
      exact hn id (Node.reference_mem_links (by simpa only [Node.references, hk, hc] using hid))
    unfold ConstInfo.references at href
    dsimp only
    cases hkind : c.type.kind with
    | struct | list =>
      simp only [hkind] at href
      exact (typeExpr_tracks hS href).map fun _ => rfl
    | text | data | interface | anyPointer => exact .pure fun _ => rfl
    | enum =>
      simp only [hkind, TypeRef.references_of_enum hkind] at href
      simp only [literal, hkind]
      exact (enumLiteral_tracks hS (href _ List.mem_cons_self) _).map fun _ => rfl
    | unlisted =>
      simp only [literal, hkind]
      exact (Tracks.fail _).map fun _ => rfl
    | _ =>
      simp only [literal, hkind]
      exact .map (.pure fun _ => rfl) fun _ => rfl

theorem slotAccessors_tracks (nodeId : UInt64) {slot : SlotField}
    (hslot : ∀ id ∈ slot.references, S id) :
    Tracks p q file g₁ g₂ (slotAccessors nodeId slot) (slotAccessors nodeId slot) := by
  unfold slotAccessors
  unfold SlotField.references at hslot
  cases hk : slot.type.kind with
  | struct | list =>
    simp only [hk] at hslot
    exact (typeExpr_tracks hS hslot).map fun _ => rfl
  | unlisted => exact .fail _
  | _ => exact .pure fun _ => rfl

/-- Where a class is declared shows in the bindings of a field, and in nothing that may fail. -/
theorem fieldBindings_tracks {scope scope' : String} {s : StructInfo} {f : Field}
    (hn : ∀ id ∈ n.links, S id) (hk : n.kind = .structNode) (hs : n.struct? = some s)
    (hf : f ∈ s.fields) (hscope : p → scope = scope') :
    Tracks p q file g₁ g₂ (fieldBindings scope n.id s f) (fieldBindings scope' n.id s f) := by
  refine .within ?_ _
  cases hb : f.body with
  | slot slot =>
    have hslot : ∀ id ∈ slot.references, S id := by
      intro id hid
      refine hn id (Node.reference_mem_links ?_)
      simp only [Node.references, hk, hs, List.mem_flatMap]
      exact ⟨f, hf, by simpa only [Field.references, hb] using hid⟩
    exact (slotAccessors_tracks hS _ hslot).map fun hp => by rw [hscope hp]
  | group id =>
    have hgroup : (f.name, id) ∈ n.groups := Node.mem_groups.2 ⟨hk, s, hs, f, hf, rfl, hb⟩
    have hid := hn id (Node.group_mem_links hgroup)
    refine Tracks.map (.find_bind hS hid fun m hm => .read_bind ?_) fun hp => by rw [hscope hp]
    have hslots := occupied_eq_of_agreeOn hS (hS.closed id m hid hm)
    refine .lookup_bind (.ofExcept _) (hslots ▸ .ofExcept _) fun slots _ => ?_
    exact .pure fun hp => by rw [hscope hp]

theorem declarationBody_tracks {path path' : String} (hn : ∀ id ∈ n.links, S id)
    (hpath : p → path = path') :
    Tracks p q file g₁ g₂ (declarationBody path n) (declarationBody path' n) := by
  unfold declarationBody
  cases hk : n.kind with
  | structNode =>
    refine Tracks.map ?_ fun _ => rfl
    unfold structBody
    cases hs : n.struct? with
    | none => exact .fail _
    | some s =>
      refine Tracks.map (.mapM fun f hf => ?_) fun hp => by rw [hpath hp]
      exact fieldBindings_tracks hS hn hk hs hf fun hp => by rw [hpath hp]
  | constNode => exact (constExpr_tracks hS hn hk).map fun _ => rfl
  | _ => exact .pure fun _ => rfl

end Steps

/-- Where a declaration stands: the path around it, its name and how deep it is indented. -/
structure Site where
  path : String
  name : String
  indent : Nat

/-- The declaration of a node is found along its nested nodes and groups. -/
theorem declareNode_linkRecursion (file : RequestedFile) :
    LinkRecursion fun g depth (a : Site × UsedFiles) n =>
      Generation.result (declareNode depth a.1.path a.1.name a.1.indent n) ⟨g, file⟩ a.2 where
  zero _ _ _ := rfl
  succ {p q g₁ g₂ S d₁ d₂ a b n} hS hn hab hrec := by
    obtain ⟨⟨path, name, indent⟩, used⟩ := a
    obtain ⟨⟨path', name', indent'⟩, used'⟩ := b
    suffices h : Tracks p q file g₁ g₂ (declareNode (d₁ + 1) path name indent n)
        (declareNode (d₂ + 1) path' name' indent' n) from
      h used used' fun hp => congrArg Prod.snd (hab hp)
    have hsite : p → path = path' ∧ name = name' ∧ indent = indent' := by
      intro hp
      cases hab hp
      exact ⟨rfl, rfl, rfl⟩
    have hchild : ∀ id ∈ n.links, ∀ m, g₁.find? id = some m → ∀ own,
        Tracks p q file g₁ g₂ (declareNode d₁ (joinPath path name) own (indent + 2) m)
          (declareNode d₂ (joinPath path' name') own (indent' + 2) m) := by
      intro id hid m hm own u v huv
      refine hrec m ⟨⟨_, own, _⟩, u⟩ ⟨⟨_, own, _⟩, v⟩ ⟨id, hid, hm⟩ fun hp => ?_
      obtain ⟨rfl, rfl, rfl⟩ := hsite hp
      rw [huv hp]
    rw [declareNode, declareNode]
    split_ifs with hk
    · exact fun _ _ _ => .error _
    · refine Tracks.bind (.mapM fun entry he => ?_) fun nested nested' hnested => ?_
      · have hid := Node.nested_mem_links he
        exact .find_within_bind hS (hn _ hid) fun m hm => hchild _ hid m hm _
      refine Tracks.bind (.mapM fun group hg => ?_) fun groups groups' hgroups => ?_
      · have hid := Node.group_mem_links hg
        exact .find_within_bind hS (hn _ hid) fun m hm => hchild _ hid m hm _
      refine Tracks.bind (.within (declarationBody_tracks hS hn fun hp => ?_) _)
        fun body body' hbody => .pure fun hp => ?_
      · obtain ⟨rfl, rfl, rfl⟩ := hsite hp
        rfl
      · obtain ⟨rfl, rfl, rfl⟩ := hsite hp
        rw [hnested hp, hgroups hp, hbody hp]

theorem declaration_tracks (hS : g₁.AgreeOn g₂ S) (hn : ∀ id ∈ n.links, S id)
    (path name : String) (indent : Nat) :
    Tracks p q file g₁ g₂ (declaration path name indent n) (declaration path name indent n) := by
  refine .read_bind (Tracks.weaken fun used used' hused => ?_)
  have hsite : p → ((⟨path, name, indent⟩, used) : Site × UsedFiles) =
      (⟨path, name, indent⟩, used') := fun hp => by rw [hused hp]
  have h := (declareNode_linkRecursion file).follows hS hn hsite
  dsimp only at h ⊢
  exact h

theorem fileDeclarations_tracks (hS : g₁.AgreeOn g₂ S) (hn : ∀ id ∈ n.links, S id) :
    Tracks p q file g₁ g₂ (fileDeclarations n) (fileDeclarations n) := by
  refine .mapM fun entry he => ?_
  have hid := hn _ (Node.nested_mem_links he)
  exact .find_within_bind hS hid fun m hm => declaration_tracks hS (hS.closed _ m hid hm) _ _ _

/-- Of the files used, those of a failed run are lost. -/
theorem sourceFile_eq_result (context : FileContext) (n : Node) :
    sourceFile context n = (Generation.result (fileDeclarations n) context []).map fun r =>
      { id := n.id
        displayName := n.displayName
        exportName? := n.annotationText? namespaceAnnotationId
        imports := usedImports context.file r.2
        declarations := r.1 } := by
  unfold sourceFile Generation.result
  cases Generation.run (fileDeclarations n) context [] with
  | mk answer used => cases answer <;> rfl

theorem generateFile_eq_of_reaches {request : RequestedFile}
    (h : ∀ id, g₁.Reaches request.id id → g₁.find? id = g₂.find? id) :
    generateFile g₁ request = generateFile g₂ request := by
  have hS := Graph.agreeOn_reaches h
  have hsource : ∀ n, g₁.find? request.id = some n →
      sourceFile ⟨g₁, request⟩ n = sourceFile ⟨g₂, request⟩ n := by
    intro n hn
    have hlinks := hS.closed request.id n .start hn
    rw [sourceFile_eq_result, sourceFile_eq_result,
      (fileDeclarations_tracks hS hlinks [] [] fun _ => rfl).eq]
  rw [generateFile, generateFile, ← hS.find_eq .start]
  cases hn : g₁.find? request.id with
  | none => rw [Graph.find_of_find?_none hn]; rfl
  | some n =>
    rw [Graph.find_eq_ok_iff.2 hn]
    simp only [Except.mapError, bind, Except.bind, hsource n hn]

/-- What is generated for a file depends on the nodes that links lead to from it: on graphs that
agree on them there is the same output or the same failure. The order of the nodes is of no
account, and neither are nodes out of reach. -/
theorem generateFile_depends_on_reachable (request : RequestedFile) (nodes₁ nodes₂ : List Node)
    (h₁ : (nodes₁.map Node.id).Nodup) (h₂ : (nodes₂.map Node.id).Nodup) :
    ∃ g₁ g₂, Graph.ofNodes nodes₁ = .ok g₁ ∧ Graph.ofNodes nodes₂ = .ok g₂ ∧
      ((∀ id, g₁.Reaches request.id id → g₁.find? id = g₂.find? id) →
        generateFile g₁ request = generateFile g₂ request) ∧
      (nodes₁.Perm nodes₂ → generateFile g₁ request = generateFile g₂ request) ∧
      ((∀ n, g₁.Reaches request.id n.id → (n ∈ nodes₁ ↔ n ∈ nodes₂)) →
        generateFile g₁ request = generateFile g₂ request) := by
  obtain ⟨g₁, hg₁⟩ := Graph.exists_ofNodes h₁
  obtain ⟨g₂, hg₂⟩ := Graph.exists_ofNodes h₂
  have hmem : (∀ n, g₁.Reaches request.id n.id → (n ∈ nodes₁ ↔ n ∈ nodes₂)) →
      generateFile g₁ request = generateFile g₂ request := by
    intro h
    refine generateFile_eq_of_reaches fun id hid => Graph.find?_eq_of_mem_iff ?_
    rintro n rfl
    rw [Graph.nodes_of_ofNodes hg₁, Graph.nodes_of_ofNodes hg₂]
    exact h n hid
  exact ⟨g₁, g₂, hg₁, hg₂, generateFile_eq_of_reaches, fun h => hmem fun n _ => h.mem_iff, hmem⟩

namespace Ledger

def ledgerFile : Node :=
  { (default : Node) with id := 1, kind := .fileNode, nested := [⟨"Account", 2⟩] }

/-- A struct that refers to a declaration of another file. -/
def account : Node :=
  { (default : Node) with
    id := 2
    kind := .structNode
    scopeId := 1
    struct? := some ⟨0, 1, 0, false, 0, 0,
      [⟨"owner", 0, noDiscriminant, .slot ⟨0, .plain .struct 4, .zero .struct, 0⟩⟩]⟩ }

def peopleFile : Node :=
  { (default : Node) with id := 3, kind := .fileNode, nested := [⟨"Person", 4⟩] }

def person : Node :=
  { (default : Node) with
    id := 4
    kind := .structNode
    scopeId := 3
    struct? := some ⟨0, 0, 0, false, 0, 0, []⟩ }

/-- A scope that declares itself. -/
def knot : Node :=
  { (default : Node) with id := 9, kind := .interfaceNode, scopeId := 9, nested := [⟨"Knot", 9⟩] }

def nodes : List Node :=
  [ledgerFile, account, peopleFile, person]

/-- The same nodes in another order, and one more that none of them leads to. -/
def knotted : List Node :=
  [person, knot, account, peopleFile, ledgerFile]

def graph : Graph :=
  ⟨nodes, by decide⟩

def request : RequestedFile :=
  ⟨1, "ledger", [⟨"people", 3⟩]⟩

theorem links_eq : nodes.flatMap Node.links = [2, 4, 1, 4, 3] :=
  rfl

theorem not_reaches_knot : ¬graph.Reaches 1 knot.id := by
  intro h
  generalize hid : knot.id = id at h
  cases h with
  | start => cases hid
  | link _ hn hl =>
    have hmem := List.mem_flatMap.2 ⟨_, Graph.mem_of_find? hn, hl⟩
    rw [show graph.nodes = nodes from rfl, links_eq, ← hid] at hmem
    simp [knot] at hmem

theorem mem_iff_of_reaches (n : Node) (h : graph.Reaches 1 n.id) : n ∈ nodes ↔ n ∈ knotted := by
  have hknot : n ≠ knot := by
    rintro rfl
    exact not_reaches_knot h
  simp only [nodes, knotted, List.mem_cons, List.not_mem_nil, or_false, hknot, false_or]
  tauto

end Ledger

/-- A ledger leads into the file of people and not to the knot, which would have no end. -/
theorem generateFile_depends_on_reachable_ledger :
    (Ledger.nodes.map Node.id).Nodup ∧ (Ledger.knotted.map Node.id).Nodup ∧
    ∃ g₁ g₂ out, Graph.ofNodes Ledger.nodes = .ok g₁ ∧ Graph.ofNodes Ledger.knotted = .ok g₂ ∧
      g₁.Reaches 1 4 ∧ ¬g₁.Reaches 1 9 ∧ g₁.depthBound ≠ g₂.depthBound ∧
      generateFile g₁ Ledger.request = .ok out ∧ generateFile g₂ Ledger.request = .ok out ∧
      out.usedImports = [⟨"people", 3⟩] := by
  have h₁ : (Ledger.nodes.map Node.id).Nodup := by decide
  have h₂ : (Ledger.knotted.map Node.id).Nodup := by decide
  obtain ⟨g₁, g₂, hg₁, hg₂, -, -, hmem⟩ :=
    generateFile_depends_on_reachable Ledger.request Ledger.nodes Ledger.knotted h₁ h₂
  cases hg₁
  cases hg₂
  have haccount : (2 : UInt64) ∈ Ledger.ledgerFile.links := by decide
  have howner : (4 : UInt64) ∈ Ledger.account.links := by decide
  have hperson : Ledger.graph.Reaches 1 4 := .link (.link .start rfl haccount) rfl howner
  have heq := hmem Ledger.mem_iff_of_reaches
  exact ⟨h₁, h₂, _, _, _, rfl, rfl, hperson, Ledger.not_reaches_knot, by decide, rfl,
    heq.symm.trans rfl, rfl⟩

end Bindings
end SchemaBindings
