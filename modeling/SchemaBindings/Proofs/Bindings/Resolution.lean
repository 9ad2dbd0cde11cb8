import Mathlib.Logic.Relation
import SchemaBindings.Proofs.Bindings.Mentions
import SchemaBindings.Proofs.Bindings.Naming

namespace SchemaBindings

open Relation
open SchemaBindings.Schema

namespace Schema

/-- Whether what a node declares has a place in the definition of the node. -/
def Node.showsDeclared (n : Node) : Bool :=
  match n.kind with
  | .fileNode | .structNode | .interfaceNode => true
  | .enumNode | .constNode | .annotationNode | .unlistedNode => false

namespace Graph

/-- The scopes of the node with an id end at a file. -/
def LiesIn (g : Graph) (id file : UInt64) : Prop :=
  ∃ n top names, g.find? id = some n ∧ g.ScopePath top names n ∧ top.id = file

/-- The node is a constant whose value has no name in its enum. -/
def IsUnnamedValue (g : Graph) (n : Node) : Prop :=
  ∃ c e, n.kind = .constNode ∧ n.const? = some c ∧ c.type.kind = .enum ∧
    g.find? c.type.typeId = some e ∧ (e.enumerants?.getD [])[c.value.enum.toNat]? = none

/-- An id occurs in a node or in what is declared inside it. -/
def RefersBelow (g : Graph) (n : Node) (id : UInt64) : Prop :=
  ∃ m, ReflTransGen g.Declares n m ∧ id ∈ m.references

def RefersInside (g : Graph) (n : Node) (id : UInt64) : Prop :=
  ∃ m, TransGen g.Declares n m ∧ id ∈ m.references

/-- A file is referred to below a node where the definitions do not show it: by a constant whose
value has no name, or inside a node that does not show what it declares. -/
inductive LeftOut (g : Graph) (n : Node) (file : UInt64) : Prop where
  | unnamed {m : Node} {id : UInt64} (hm : ReflTransGen g.Declares n m) (hu : g.IsUnnamedValue m)
      (hid : id ∈ m.references) (hf : g.LiesIn id file)
  | hidden {m : Node} {id : UInt64} (hm : ReflTransGen g.Declares n m)
      (hs : m.showsDeclared = false) (hid : g.RefersInside m id) (hf : g.LiesIn id file)

variable {g : Graph} {n m : Node} {id file : UInt64}

theorem RefersBelow.head (hm : g.Declares n m) (h : g.RefersBelow m id) : g.RefersBelow n id := by
  obtain ⟨k, hk, hid⟩ := h
  exact ⟨k, .head hm hk, hid⟩

theorem RefersBelow.inside (hm : g.Declares n m) (h : g.RefersBelow m id) :
    g.RefersInside n id := by
  obtain ⟨k, hk, hid⟩ := h
  exact ⟨k, .head' hm hk, hid⟩

theorem RefersInside.below (h : g.RefersInside n id) : g.RefersBelow n id := by
  obtain ⟨k, hk, hid⟩ := h
  exact ⟨k, hk.to_reflTransGen, hid⟩

theorem LeftOut.head (hm : g.Declares n m) (h : g.LeftOut m file) : g.LeftOut n file := by
  cases h with
  | unnamed hk hu hid hf => exact .unnamed (.head hm hk) hu hid hf
  | hidden hk hs hid hf => exact .hidden (.head hm hk) hs hid hf

theorem declares_of_nested {entry : NamedId} (he : entry ∈ n.nested)
    (hm : g.find? entry.id = some m) : g.Declares n m :=
  ⟨entry.id, List.mem_append_left _ (List.mem_map_of_mem he), hm⟩

end Graph
end Schema

namespace Bindings

variable {context : FileContext} {refers refers' lost : UInt64 → Prop}
  {used mid used' : UsedFiles} {ns ms : List QualifiedName} {q : QualifiedName} {n : Node}
  {f : UInt64}

def Root.file? : Root → Option UInt64
  | own => none
  | foreign fileId | provided fileId => some fileId

/-- A name leads into another file than the one being generated. -/
def LeadsInto (context : FileContext) (q : QualifiedName) (f : UInt64) : Prop :=
  q.root.file? = some f ∧ f ≠ context.file.id

/-- A name stands for a node: it is the path from the file at the end of the node's scopes. -/
def Names (context : FileContext) (q : QualifiedName) (n : Node) : Prop :=
  ∃ top, context.graph.ScopePath top q.path n ∧ q.root = rootOf context top

theorem leadsInto_iff {top : Node} (h : q.root = rootOf context top) :
    LeadsInto context q f ↔ f = top.id ∧ f ≠ context.file.id := by
  unfold LeadsInto rootOf at *
  rw [h]
  split_ifs with ha hid
  · simp [Root.file?, eq_comm]
  · simp [Root.file?, hid]
  · simp [Root.file?, eq_comm]

theorem Names.liesIn {id : UInt64} (h : Names context q n)
    (hn : context.graph.find? id = some n) (hf : LeadsInto context q f) :
    context.graph.LiesIn id f := by
  obtain ⟨top, hpath, hroot⟩ := h
  exact ⟨n, top, q.path, hn, hpath, ((leadsInto_iff hroot).1 hf).1.symm⟩

/-- What a step leaves of the used files, given the names in its result. Each name stands for a node
that is referred to, and leads into used files only. A file is used for no other reason than a name,
some lost files apart. -/
structure Resolved (context : FileContext) (refers lost : UInt64 → Prop) (used : UsedFiles)
    (names : List QualifiedName) (used' : UsedFiles) : Prop where
  kept : ∀ f ∈ used, f ∈ used'
  marked : ∀ q ∈ names, ∀ f, LeadsInto context q f → f ∈ used'
  named : ∀ f ∈ used', f ∈ used ∨ (∃ q ∈ names, LeadsInto context q f) ∨ lost f
  referred : ∀ q ∈ names, ∃ id n, refers id ∧ context.graph.find? id = some n ∧ Names context q n

namespace Resolved

theorem refl (used : UsedFiles) : Resolved context refers lost used [] used where
  kept _ hf := hf
  marked _ hq := by cases hq
  named _ hf := Or.inl hf
  referred _ hq := by cases hq

theorem trans (h : Resolved context refers lost used ns mid)
    (h' : Resolved context refers lost mid ms used') :
    Resolved context refers lost used (ns ++ ms) used' where
  kept f hf := h'.kept f (h.kept f hf)
  marked q hq f hf := by
    rcases List.mem_append.1 hq with hq | hq
    · exact h'.kept f (h.marked q hq f hf)
    · exact h'.marked q hq f hf
  named f hf := by
    rcases h'.named f hf with hf | ⟨q, hq, hf⟩ | hf
    · rcases h.named f hf with hf | ⟨q, hq, hf⟩ | hf
      · exact Or.inl hf
      · exact Or.inr (Or.inl ⟨q, List.mem_append_left _ hq, hf⟩)
      · exact Or.inr (Or.inr hf)
    · exact Or.inr (Or.inl ⟨q, List.mem_append_right _ hq, hf⟩)
    · exact Or.inr (Or.inr hf)
  referred q hq := by
    rcases List.mem_append.1 hq with hq | hq
    · exact h.referred q hq
    · exact h'.referred q hq

theorem congr (h : Resolved context refers lost used ns used') (hns : ∀ q, q ∈ ms ↔ q ∈ ns) :
    Resolved context refers lost used ms used' where
  kept := h.kept
  marked q hq := h.marked q ((hns q).1 hq)
  named f hf := by simpa only [hns] using h.named f hf
  referred q hq := h.referred q ((hns q).1 hq)

theorem mono (h : Resolved context refers lost used ns used') (hr : ∀ id, refers id → refers' id) :
    Resolved context refers' lost used ns used' where
  kept := h.kept
  marked := h.marked
  named := h.named
  referred q hq := by
    obtain ⟨id, n, hid, hn⟩ := h.referred q hq
    exact ⟨id, n, hr id hid, hn⟩

/-- Names may be left out when the files they lead into count as lost. -/
theorem drop (h : Resolved context refers lost used ns used')
    (hlost : ∀ id, refers id → ∀ f, context.graph.LiesIn id f → lost f) :
    Resolved context refers lost used [] used' where
  kept := h.kept
  marked _ hq := by cases hq
  named f hf := by
    rcases h.named f hf with hf | ⟨q, hq, hf⟩ | hf
    · exact Or.inl hf
    · obtain ⟨id, n, hid, hn, hnames⟩ := h.referred q hq
      exact Or.inr (Or.inr (hlost id hid f (hnames.liesIn hn hf)))
    · exact Or.inr (Or.inr hf)
  referred _ hq := by cases hq

theorem mapM {α β : Type} {step : α → Generation β} {names : β → List QualifiedName} {xs : List α}
    {ys : List β}
    (hstep : ∀ x ∈ xs, ∀ u y u', Generation.run (step x) context u = (.ok y, u') →
      Resolved context refers lost u (names y) u')
    (h : Generation.run (xs.mapM step) context used = (.ok ys, used')) :
    Resolved context refers lost used (ys.flatMap names) used' := by
  induction xs generalizing ys used with
  | nil =>
    rw [List.mapM_nil] at h
    obtain ⟨rfl, rfl⟩ := Generation.run_pure_eq_ok_iff.1 h
    exact refl used
  | cons x xs ih =>
    rw [List.mapM_cons] at h
    obtain ⟨y, u, hy, h⟩ := Generation.run_bind_eq_ok_iff.1 h
    obtain ⟨zs, hz, rfl⟩ := Generation.run_map_eq_ok_iff.1 h
    rw [List.flatMap_cons]
    exact (hstep x List.mem_cons_self _ _ _ hy).trans
      (ih (fun z hz => hstep z (List.mem_cons_of_mem _ hz)) hz)

end Resolved

theorem qualifiedName_resolved {id : UInt64} (hn : context.graph.find? id = some n)
    (h : Generation.run (qualifiedName n) context used = (.ok q, used')) :
    Resolved context (· = id) lost used [q] used' := by
  obtain ⟨top, hpath, hroot, rfl⟩ := run_qualifiedName_eq_ok_iff.1 h
  refine ⟨fun f hf => UsedFiles.mem_after.2 (Or.inl hf), ?_, ?_, ?_⟩
  · intro p hp f hf
    obtain rfl := List.mem_singleton.1 hp
    exact UsedFiles.mem_after.2 (Or.inr ((leadsInto_iff hroot).1 hf))
  · intro f hf
    rcases UsedFiles.mem_after.1 hf with hf | hf
    · exact Or.inl hf
    · exact Or.inr (Or.inl ⟨q, List.mem_singleton.2 rfl, (leadsInto_iff hroot).2 hf⟩)
  · intro p hp
    obtain rfl := List.mem_singleton.1 hp
    exact ⟨id, n, rfl, hn, top, hpath, hroot⟩

theorem qualifiedNameOf_resolved {id : UInt64}
    (h : Generation.run (qualifiedNameOf id) context used = (.ok q, used')) :
    Resolved context (· = id) lost used [q] used' := by
  obtain ⟨n, mid, hfind, hq⟩ := Generation.run_bind_eq_ok_iff.1 h
  obtain ⟨hn, rfl⟩ := run_find_eq_ok_iff.1 hfind
  exact qualifiedName_resolved hn hq

theorem typeExpr_resolved {t : TypeRef} {e : TypeExpr}
    (h : Generation.run (typeExpr t) context used = (.ok e, used')) :
    Resolved context (· ∈ t.references) lost used e.names used' := by
  induction t generalizing e with
  | plain kind typeId =>
    have hnamed (h : Generation.run (do return .declared (← qualifiedNameOf typeId)) context used =
        (.ok e, used')) : Resolved context (· ∈ [typeId]) lost used e.names used' := by
      obtain ⟨q, hq, rfl⟩ := Generation.run_map_eq_ok_iff.1 h
      exact (qualifiedNameOf_resolved hq).mono fun id hid => List.mem_singleton.2 hid
    cases kind with
    | enum | struct | interface => exact hnamed h
    | list | unlisted => simp [typeExpr, runtimeClass?] at h
    | _ =>
      obtain ⟨rfl, rfl⟩ := Generation.run_pure_eq_ok_iff.1 h
      exact .refl used
  | listOf element ih =>
    obtain ⟨inner, hinner, rfl⟩ := Generation.run_map_eq_ok_iff.1 h
    have hnames := ih hinner
    exact hnames

theorem enumLiteral_resolved {id : UInt64} {ordinal : UInt16} {l : Literal}
    (h : Generation.run (enumLiteral id ordinal) context used = (.ok l, used'))
    (hlost : ∀ e, context.graph.find? id = some e →
      (e.enumerants?.getD [])[ordinal.toNat]? = none → ∀ f, context.graph.LiesIn id f → lost f) :
    Resolved context (· = id) lost used l.names used' := by
  obtain ⟨n, mid, hfind, h⟩ := Generation.run_bind_eq_ok_iff.1 h
  obtain ⟨hn, rfl⟩ := run_find_eq_ok_iff.1 hfind
  obtain ⟨q, mid', hq, h⟩ := Generation.run_bind_eq_ok_iff.1 h
  -- the enum is resolved before it is known whether the value has a name in it
  have hnamed : Resolved context (· = id) lost used [q] mid' := qualifiedName_resolved hn hq
  split at h
  next e he =>
    obtain ⟨rfl, rfl⟩ := Generation.run_pure_eq_ok_iff.1 h
    exact hnamed
  next he =>
    obtain ⟨rfl, rfl⟩ := Generation.run_pure_eq_ok_iff.1 h
    refine hnamed.drop ?_
    rintro _ rfl f hf
    exact hlost n hn he f hf

theorem constExpr_resolved {value? : Option ConstExpr} (hk : n.kind = .constNode)
    (h : Generation.run (constExpr n) context used = (.ok value?, used'))
    (hlost : context.graph.IsUnnamedValue n →
      ∀ id ∈ n.references, ∀ f, context.graph.LiesIn id f → lost f) :
    Resolved context (· ∈ n.references) lost used (Body.constant value?).names used' := by
  unfold constExpr at h
  cases hc : n.const? with
  | none => simp [hc] at h
  | some c =>
    have hrefs : n.references = c.references := by simp [Node.references, hk, hc]
    rw [ConstInfo.references] at hrefs
    simp only [hc] at h
    cases hkind : c.type.kind with
    | struct | list =>
      simp only [hkind] at h hrefs
      rw [hrefs]
      obtain ⟨type, htype, rfl⟩ := Generation.run_map_eq_ok_iff.1 h
      exact typeExpr_resolved htype
    | enum =>
      simp only [hkind, literal] at h hrefs
      rw [TypeRef.references_of_enum hkind] at hrefs
      obtain ⟨value, hvalue, rfl⟩ := Generation.run_map_eq_ok_iff.1 h
      have hid : c.type.typeId ∈ n.references := by simp [hrefs]
      refine (enumLiteral_resolved hvalue fun e he hnone f hf => ?_).mono ?_
      · exact hlost ⟨c, e, hk, hc, hkind, he, hnone⟩ _ hid f hf
      · rintro _ rfl
        exact hid
    | unlisted =>
      simp only [hkind, literal] at h
      obtain ⟨value, hvalue, -⟩ := Generation.run_map_eq_ok_iff.1 h
      simp at hvalue
    | text | data | interface | anyPointer =>
      simp only [hkind] at h
      obtain ⟨rfl, rfl⟩ := Generation.run_pure_eq_ok_iff.1 h
      exact .refl used
    | _ =>
      simp only [hkind, literal] at h
      obtain ⟨value, hvalue, rfl⟩ := Generation.run_map_eq_ok_iff.1 h
      obtain ⟨rfl, rfl⟩ := Generation.run_pure_eq_ok_iff.1 hvalue
      exact .refl used

theorem slotAccessors_resolved {nodeId : UInt64} {slot : SlotField}
    {accessors : List (Verb × Operation)}
    (h : Generation.run (slotAccessors nodeId slot) context used = (.ok accessors, used')) :
    ∃ names, AccessorsName accessors names ∧
      Resolved context (· ∈ slot.references) lost used names used' := by
  unfold slotAccessors at h
  unfold SlotField.references
  cases hkind : slot.type.kind with
  | void =>
    simp only [hkind] at h
    obtain ⟨rfl, rfl⟩ := Generation.run_pure_eq_ok_iff.1 h
    exact ⟨[], voidAccessors_name, .refl used⟩
  | text | data | anyPointer =>
    simp only [hkind] at h
    obtain ⟨rfl, rfl⟩ := Generation.run_pure_eq_ok_iff.1 h
    exact ⟨[], pointerAccessors_name _ _ _, .refl used⟩
  | struct | list =>
    simp only [hkind] at h
    obtain ⟨type, htype, rfl⟩ := Generation.run_map_eq_ok_iff.1 h
    exact ⟨type.names, pointerAccessors_name _ _ _, typeExpr_resolved htype⟩
  | interface =>
    simp only [hkind] at h
    obtain ⟨rfl, rfl⟩ := Generation.run_pure_eq_ok_iff.1 h
    exact ⟨[], accessorsName_nil (by simp), .refl used⟩
  | unlisted => simp [hkind, Layout.accessorSuffix?, Layout.sectionOf] at h
  | _ =>
    simp only [hkind, Layout.accessorSuffix?, Option.isSome_some, if_true] at h
    obtain ⟨rfl, rfl⟩ := Generation.run_pure_eq_ok_iff.1 h
    exact ⟨[], dataAccessors_name slot, .refl used⟩

theorem fieldBindings_resolved {scope : String} {nodeId : UInt64} {s : StructInfo} {field : Field}
    {b : FieldBindings}
    (h : Generation.run (fieldBindings scope nodeId s field) context used = (.ok b, used')) :
    Resolved context (· ∈ field.references) lost used (b.names .reader ++ b.names .builder)
      used' := by
  rw [fieldBindings, Generation.run_within_eq_ok_iff] at h
  obtain ⟨accessors, haccessors, rfl⟩ := Generation.run_map_eq_ok_iff.1 h
  -- the two views of a field name the same declarations
  suffices hnames : ∃ names, AccessorsName accessors names ∧
      Resolved context (· ∈ field.references) lost used names used' by
    obtain ⟨names, hnames, hres⟩ := hnames
    refine hres.congr fun q => ?_
    rw [List.mem_append, hnames, hnames, or_self]
  unfold Field.references
  cases hbody : field.body with
  | slot slot =>
    rw [hbody] at haccessors
    exact slotAccessors_resolved haccessors
  | group id =>
    rw [hbody] at haccessors
    obtain ⟨group, mid, hgroup, haccessors⟩ := Generation.run_bind_eq_ok_iff.1 haccessors
    obtain ⟨-, rfl⟩ := run_find_eq_ok_iff.1 hgroup
    rw [Generation.run_bind, Generation.run_read] at haccessors
    obtain ⟨slots, hslots, rfl⟩ := Generation.run_map_eq_ok_iff.1 haccessors
    rw [Generation.run_ofExcept, Prod.mk.injEq] at hslots
    obtain ⟨-, rfl⟩ := hslots
    exact ⟨[], groupAccessors_name _ _, .refl used⟩

theorem structBody_resolved {path : String} {b : StructBody} (hk : n.kind = .structNode)
    (h : Generation.run (structBody path n) context used = (.ok b, used')) :
    Resolved context (· ∈ n.references) lost used b.names used' := by
  unfold structBody at h
  cases hs : n.struct? with
  | none => simp [hs] at h
  | some s =>
    have hrefs : n.references = s.fields.flatMap Field.references := by
      simp [Node.references, hk, hs]
    simp only [hs] at h
    obtain ⟨bindings, hbindings, rfl⟩ := Generation.run_map_eq_ok_iff.1 h
    rw [hrefs]
    have hres : Resolved context (· ∈ s.fields.flatMap Field.references) lost used
        (bindings.flatMap fun b => b.names .reader ++ b.names .builder) used' := by
      refine Resolved.mapM (fun field hfield u b u' hb => ?_) hbindings
      exact (fieldBindings_resolved hb).mono fun id hid => List.mem_flatMap.2 ⟨field, hfield, hid⟩
    refine hres.congr fun q => ?_
    simp only [StructBody.names, List.mem_append, List.mem_flatMap, and_or_left, exists_or]

theorem declarationBody_resolved {path : String} {body : Body}
    (h : Generation.run (declarationBody path n) context used = (.ok body, used'))
    (hlost : context.graph.IsUnnamedValue n →
      ∀ id ∈ n.references, ∀ f, context.graph.LiesIn id f → lost f) :
    Resolved context (· ∈ n.references) lost used body.names used' := by
  cases declarationBody_cases h with
  | struct hk hb => exact structBody_resolved hk hb
  | constant hk hvalue => exact constExpr_resolved hk hvalue hlost
  | enum _ hu | scope _ hu | nothing _ hu =>
    rw [← hu]
    exact .refl used

theorem declarationBody_showsChildren {path : String} {body : Body} (hk : n.kind ≠ .fileNode)
    (h : Generation.run (declarationBody path n) context used = (.ok body, used')) :
    body.showsChildren = n.showsDeclared := by
  unfold Node.showsDeclared
  cases declarationBody_cases h with
  | struct hkind | enum hkind | constant hkind | scope hkind =>
    rw [hkind]
    rfl
  | nothing hkind =>
    rcases hkind with hkind | hkind | hkind
    · exact absurd hkind hk
    · rw [hkind]
      rfl
    · rw [hkind]
      rfl

theorem declareNode_resolved {fuel depth : Nat} {path name : String} {d : Declaration}
    (h : Generation.run (declareNode fuel path name depth n) context used = (.ok d, used'))
    (hlost : ∀ f, context.graph.LeftOut n f → lost f) :
    Resolved context (context.graph.RefersBelow n) lost used d.names used' := by
  -- on how deep declarations may still be nested
  induction fuel generalizing path name depth n d used used' with
  | zero => simp [declareNode] at h
  | succ fuel ih =>
    rw [declareNode] at h
    split_ifs at h with hk
    · cases h
    · obtain ⟨nested, u, hnested, h⟩ := Generation.run_bind_eq_ok_iff.1 h
      obtain ⟨groups, v, hgroups, h⟩ := Generation.run_bind_eq_ok_iff.1 h
      obtain ⟨body, hbody, rfl⟩ := Generation.run_map_eq_ok_iff.1 h
      rw [Generation.run_within_eq_ok_iff] at hbody
      have hchild : ∀ m, context.graph.Declares n m → ∀ path name depth u d u',
          Generation.run (declareNode fuel path name depth m) context u = (.ok d, u') →
          Resolved context (context.graph.RefersInside n) lost u d.names u' := by
        intro m hm path name depth u d u' hd
        exact (ih hd fun f hf => hlost f (hf.head hm)).mono fun id hid => hid.inside hm
      have hchildren : Resolved context (context.graph.RefersInside n) lost used
          ((nested ++ groups).flatMap Declaration.names) v := by
        rw [List.flatMap_append]
        refine .trans (.mapM (fun entry he u d u' hd => ?_) hnested)
          (.mapM (fun group hg u d u' hd => ?_) hgroups)
        · obtain ⟨m, mid, hfind, hrun⟩ := Generation.run_bind_eq_ok_iff.1 hd
          obtain ⟨hm, rfl⟩ := run_find_within_eq_ok hfind
          exact hchild m (Graph.declares_of_nested he hm) _ _ _ _ _ _ hrun
        · obtain ⟨m, mid, hfind, hrun⟩ := Generation.run_bind_eq_ok_iff.1 hd
          obtain ⟨hm, rfl⟩ := run_find_within_eq_ok hfind
          exact hchild m (Graph.GroupOf.declares ⟨group, hg, hm⟩) _ _ _ _ _ _ hrun
      have hown := declarationBody_resolved hbody fun hu id hid f hf =>
        hlost f (.unnamed .refl hu hid hf)
      rw [Declaration.names, Declaration.namesList_eq]
      refine .trans ?_ (hown.mono fun id hid => ⟨n, .refl, hid⟩)
      cases hshows : body.showsChildren with
      | true => exact hchildren.mono fun id hid => hid.below
      | false =>
        -- the children have used files by now, but their definitions are dropped
        rw [declarationBody_showsChildren hk hbody] at hshows
        refine (hchildren.drop ?_).mono fun id hid => hid.below
        intro id hid f hf
        exact hlost f (.hidden .refl hshows hid hf)

theorem fileDeclarations_resolved {file : Node} {ds : List Declaration}
    (h : Generation.run (fileDeclarations file) context used = (.ok ds, used'))
    (hlost : ∀ f, context.graph.LeftOut file f → lost f) :
    Resolved context (context.graph.RefersBelow file) lost used (Declaration.namesList ds)
      used' := by
  rw [Declaration.namesList_eq]
  refine .mapM (fun entry he u d u' hd => ?_) h
  obtain ⟨n, mid, hfind, hrun⟩ := Generation.run_bind_eq_ok_iff.1 hd
  obtain ⟨hn, rfl⟩ := run_find_within_eq_ok hfind
  have hdecl := Graph.declares_of_nested he hn
  exact (declareNode_resolved hrun fun f hf => hlost f (hf.head hdecl)).mono fun id hid =>
    hid.head hdecl

end Bindings
end SchemaBindings
