import SchemaBindings.Proofs.Bindings.Resolution

namespace SchemaBindings

open Relation
open SchemaBindings.Schema

namespace Schema.Graph

variable {g : Graph} {n top : Node} {names : List String} {id f : UInt64}

theorem liesIn_iff (hn : g.find? id = some n) (hpath : g.ScopePath top names n) :
    g.LiesIn id f ↔ f = top.id := by
  constructor
  · intro h
    obtain ⟨n', top', names', hn', hpath', hf⟩ := h
    have hsame : n = n' := Option.some.inj (hn.symm.trans hn')
    subst hsame
    have htop : top = top' := (hpath.unique hpath').1
    rw [htop, hf]
  · intro h
    exact ⟨n, top, names, hn, hpath, h.symm⟩

/-- What is referred to below a node stands in the node itself, or below a node declared in it. -/
theorem refersBelow_iff :
    g.RefersBelow n id ↔ id ∈ n.references ∨ ∃ m, g.Declares n m ∧ g.RefersBelow m id := by
  constructor
  · intro h
    obtain ⟨k, hk, hid⟩ := h
    rcases ReflTransGen.cases_head hk with heq | ⟨m, hm, hmk⟩
    · subst heq
      exact Or.inl hid
    · exact Or.inr ⟨m, hm, k, hmk, hid⟩
  · intro h
    rcases h with hid | ⟨m, hm, hbelow⟩
    · exact ⟨n, .refl, hid⟩
    · exact hbelow.head hm

theorem declares_iff {m : Node} : g.Declares n m ↔
    (∃ entry ∈ n.nested, g.find? entry.id = some m) ∨ g.GroupOf n m := by
  constructor
  · intro h
    obtain ⟨id, hid, hm⟩ := h
    rcases List.mem_append.1 hid with hid | hid
    · obtain ⟨entry, he, heq⟩ := List.mem_map.1 hid
      exact Or.inl ⟨entry, he, by rw [heq]; exact hm⟩
    · obtain ⟨group, hg, heq⟩ := List.mem_map.1 hid
      exact Or.inr ⟨group, hg, by rw [heq]; exact hm⟩
  · intro h
    rcases h with ⟨entry, he, hm⟩ | hm
    · exact declares_of_nested he hm
    · exact hm.declares

end Schema.Graph

namespace Bindings

variable {α β : Type} {context : FileContext} {refers refers' : UInt64 → Prop} {n : Node}

/-- The other files than the one being generated that some ids lie in. -/
def FileContext.Reached (context : FileContext) (refers : UInt64 → Prop) (f : UInt64) : Prop :=
  f ≠ context.file.id ∧ ∃ id, refers id ∧ context.graph.LiesIn id f

/-- A step that succeeds has marked the files reached from some ids, and no others. -/
def Marks (context : FileContext) (refers : UInt64 → Prop) (step : Generation α) : Prop :=
  ∀ used a used', Generation.run step context used = (.ok a, used') →
    ∀ f, f ∈ used' ↔ f ∈ used ∨ context.Reached refers f

namespace Marks

theorem congr {step : Generation α} (h : Marks context refers step)
    (hr : ∀ id, refers' id ↔ refers id) : Marks context refers' step := by
  have heq : refers' = refers := funext fun id => propext (hr id)
  rw [heq]
  exact h

theorem pure (a : α) : Marks context (fun _ => False) (Pure.pure a) := by
  intro used b used' h f
  have hu : used = used' := (Generation.run_pure_eq_ok_iff.1 h).2
  simp [hu, FileContext.Reached]

theorem fail (cause : Cause) : Marks context refers (.fail cause : Generation α) := by
  intro used a used' h
  simp at h

theorem ofExcept (x : Except Failure α) : Marks context (fun _ => False) (.ofExcept x) := by
  intro used a used' h f
  have hu : used = used' := by simpa using congrArg Prod.snd h
  simp [hu, FileContext.Reached]

theorem bind {x : Generation α} {k : α → Generation β} (hx : Marks context refers x)
    (hk : ∀ a, Marks context refers' (k a)) :
    Marks context (fun id => refers id ∨ refers' id) (x >>= k) := by
  intro used b used' h f
  obtain ⟨a, mid, ha, hb⟩ := Generation.run_bind_eq_ok_iff.1 h
  have hfirst := hx used a mid ha f
  have hsecond := hk a mid b used' hb f
  rw [hsecond, hfirst]
  unfold FileContext.Reached
  constructor
  · intro h
    rcases h with (hu | ⟨hne, id, hid, hf⟩) | ⟨hne, id, hid, hf⟩
    · exact Or.inl hu
    · exact Or.inr ⟨hne, id, Or.inl hid, hf⟩
    · exact Or.inr ⟨hne, id, Or.inr hid, hf⟩
  · intro h
    rcases h with hu | ⟨hne, id, hid | hid, hf⟩
    · exact Or.inl (Or.inl hu)
    · exact Or.inl (Or.inr ⟨hne, id, hid, hf⟩)
    · exact Or.inr ⟨hne, id, hid, hf⟩

theorem map {x : Generation α} (hx : Marks context refers x) (k : α → β) :
    Marks context refers (x >>= fun a => Pure.pure (k a)) :=
  (hx.bind fun a => .pure (k a)).congr fun id => by simp

theorem read_bind {k : FileContext → Generation β} (h : Marks context refers (k context)) :
    Marks context refers (read >>= k) :=
  h

theorem within {x : Generation α} (hx : Marks context refers x) (place : Place) :
    Marks context refers (.within place x) := by
  intro used a used' h
  exact hx used a used' (Generation.run_within_eq_ok_iff.1 h)

/-- Looking a node up marks nothing; what comes after may go by the node that was found. -/
theorem find_bind {id : UInt64} {k : Node → Generation β}
    (hk : ∀ m, context.graph.find? id = some m → Marks context refers (k m)) :
    Marks context refers (.find id >>= k) := by
  intro used b used' h
  obtain ⟨m, mid, hm, hb⟩ := Generation.run_bind_eq_ok_iff.1 h
  obtain ⟨hfind, hu⟩ := run_find_eq_ok_iff.1 hm
  subst hu
  exact hk m hfind used b used' hb

theorem mapM {k : α → Generation β} {refersOf : α → UInt64 → Prop} {xs : List α}
    (h : ∀ x ∈ xs, Marks context (refersOf x) (k x)) :
    Marks context (fun id => ∃ x ∈ xs, refersOf x id) (xs.mapM k) := by
  induction xs with
  | nil =>
    rw [List.mapM_nil]
    exact (pure []).congr fun id => by simp
  | cons x xs ih =>
    have hhead := h x List.mem_cons_self
    have htail := ih fun y hy => h y (List.mem_cons_of_mem _ hy)
    rw [List.mapM_cons]
    refine (hhead.bind fun y => htail.map fun ys => y :: ys).congr fun id => ?_
    simp

end Marks

theorem qualifiedName_marks {id : UInt64} (hn : context.graph.find? id = some n) :
    Marks context (· = id) (qualifiedName n) := by
  intro used q used' h f
  obtain ⟨top, hpath, -, hused⟩ := run_qualifiedName_eq_ok_iff.1 h
  have hlies : context.graph.LiesIn id f ↔ f = top.id := Graph.liesIn_iff hn hpath
  rw [hused, UsedFiles.mem_after]
  simp [FileContext.Reached, hlies, and_comm]

theorem qualifiedNameOf_marks (id : UInt64) : Marks context (· = id) (qualifiedNameOf id) :=
  .find_bind fun _ hm => qualifiedName_marks hm

theorem typeExpr_marks (t : TypeRef) : Marks context (· ∈ t.references) (typeExpr t) := by
  induction t with
  | plain kind typeId =>
    cases kind with
    | enum | struct | interface =>
      refine ((qualifiedNameOf_marks typeId).map _).congr fun id => ?_
      simp [TypeRef.references]
    | list | unlisted => exact .fail _
    | _ => exact (Marks.pure _).congr fun id => by simp [TypeRef.references]
  | listOf element ih =>
    rw [typeExpr]
    exact ih.map _

theorem enumLiteral_marks (id : UInt64) (ordinal : UInt16) :
    Marks context (· = id) (enumLiteral id ordinal) := by
  refine .find_bind fun m hm => ?_
  -- the enum is marked whether or not the ordinal has a name in it
  cases (m.enumerants?.getD [])[ordinal.toNat]? with
  | some e => exact (qualifiedName_marks hm).map _
  | none => exact (qualifiedName_marks hm).map _

theorem constExpr_marks (hk : n.kind = .constNode) :
    Marks context (· ∈ n.references) (constExpr n) := by
  unfold constExpr
  cases hc : n.const? with
  | none => exact .fail _
  | some c =>
    have hrefs : n.references = c.references := by simp [Node.references, hk, hc]
    rw [hrefs]
    unfold ConstInfo.references
    dsimp only
    cases hkind : c.type.kind with
    | struct | list => exact (typeExpr_marks c.type).map _
    | enum =>
      simp only [literal, hkind]
      refine ((enumLiteral_marks c.type.typeId c.value.enum).map _).congr fun id => ?_
      simp [TypeRef.references_of_enum hkind]
    | text | data | interface | anyPointer =>
      exact (Marks.pure _).congr fun id => by simp
    | unlisted =>
      simp only [literal, hkind]
      exact Marks.map (.fail _) _
    | _ =>
      simp only [literal, hkind]
      exact ((Marks.pure _).map _).congr fun id => by simp

theorem slotAccessors_marks (nodeId : UInt64) (slot : SlotField) :
    Marks context (· ∈ slot.references) (slotAccessors nodeId slot) := by
  unfold slotAccessors SlotField.references
  cases hkind : slot.type.kind with
  | struct | list => exact (typeExpr_marks slot.type).map _
  | unlisted => exact .fail _
  | _ => exact (Marks.pure _).congr fun id => by simp

theorem fieldBindings_marks (scope : String) (nodeId : UInt64) (s : StructInfo) (f : Field) :
    Marks context (· ∈ f.references) (fieldBindings scope nodeId s f) := by
  refine .within (.map ?_ _) _
  unfold Field.references
  cases f.body with
  | slot slot => exact slotAccessors_marks nodeId slot
  | group id =>
    refine .find_bind fun m _ => .read_bind ?_
    exact ((Marks.ofExcept _).map _).congr fun id => by simp

theorem declarationBody_marks (path : String) (n : Node) :
    Marks context (· ∈ n.references) (declarationBody path n) := by
  unfold declarationBody
  cases hk : n.kind with
  | structNode =>
    refine Marks.map ?_ _
    unfold structBody
    cases hs : n.struct? with
    | none => exact .fail _
    | some s =>
      have hrefs : n.references = s.fields.flatMap Field.references := by
        simp [Node.references, hk, hs]
      have hfields : Marks context (fun id => ∃ f ∈ s.fields, id ∈ f.references)
          (s.fields.mapM (fieldBindings ("module." ++ path) n.id s)) :=
        .mapM fun f _ => fieldBindings_marks _ _ s f
      refine (hfields.map _).congr fun id => ?_
      rw [hrefs, List.mem_flatMap]
  | constNode => exact (constExpr_marks hk).map _
  | _ => exact (Marks.pure _).congr fun id => by simp [Node.references, hk]

/-- A reference below one of the nodes that some ids stand for. -/
def FileContext.RefersBelowId (context : FileContext) (nodeId id : UInt64) : Prop :=
  ∃ m, context.graph.find? nodeId = some m ∧ context.graph.RefersBelow m id

theorem declareNode_marks (fuel : Nat) (path name : String) (depth : Nat) (n : Node) :
    Marks context (context.graph.RefersBelow n) (declareNode fuel path name depth n) := by
  -- on how deep declarations may still be nested
  induction fuel generalizing path name depth n with
  | zero => exact .fail _
  | succ fuel ih =>
    have hchild : ∀ (nodeId : UInt64) (place : Place) (own : String),
        Marks context (context.RefersBelowId nodeId)
          (Generation.within place (Generation.find nodeId) >>=
            declareNode fuel (joinPath path name) own (depth + 2)) := by
      intro nodeId place own used d used' h
      obtain ⟨m, mid, hm, hd⟩ := Generation.run_bind_eq_ok_iff.1 h
      obtain ⟨hfind, hu⟩ := run_find_within_eq_ok hm
      subst hu
      have hbelow := ih (joinPath path name) own (depth + 2) m
      refine hbelow.congr (fun id => ?_) used d used' hd
      simp [FileContext.RefersBelowId, hfind]
    rw [declareNode]
    split_ifs with hk
    · intro used a used' h
      cases h
    · have hnested := Marks.mapM fun (entry : NamedId) (_ : entry ∈ n.nested) =>
        hchild entry.id (.nestedEntryOf entry.name n.displayName) entry.name
      have hgroups := Marks.mapM fun (group : String × UInt64) (_ : group ∈ n.groups) =>
        hchild group.2 (.groupEntryOf group.1 n.displayName) (titleCase group.1)
      have hbody : Marks context (· ∈ n.references) (declarationBody (joinPath path name) n) :=
        declarationBody_marks _ n
      refine (hnested.bind fun nested => hgroups.bind fun groups =>
        (hbody.within _).map _).congr fun id => ?_
      rw [Graph.refersBelow_iff]
      simp only [Graph.declares_iff, Graph.GroupOf, FileContext.RefersBelowId]
      constructor
      · intro h
        rcases h with hid | ⟨m, ⟨entry, he, hm⟩ | ⟨group, hg, hm⟩, hbelow⟩
        · exact Or.inr (Or.inr hid)
        · exact Or.inl ⟨entry, he, m, hm, hbelow⟩
        · exact Or.inr (Or.inl ⟨group, hg, m, hm, hbelow⟩)
      · intro h
        rcases h with ⟨entry, he, m, hm, hbelow⟩ | ⟨group, hg, m, hm, hbelow⟩ | hid
        · exact Or.inr ⟨m, Or.inl ⟨entry, he, hm⟩, hbelow⟩
        · exact Or.inr ⟨m, Or.inr ⟨group, hg, hm⟩, hbelow⟩
        · exact Or.inl hid

theorem fileDeclarations_marks {file : Node} (hk : file.kind = .fileNode) :
    Marks context (context.graph.RefersBelow file) (fileDeclarations file) := by
  have hentry : ∀ entry ∈ file.nested, Marks context (context.RefersBelowId entry.id)
      (do
        let n ← Generation.within (.nestedEntry entry.name) (Generation.find entry.id)
        declaration "" entry.name 1 n) := by
    intro entry _ used d used' h
    obtain ⟨m, mid, hm, hd⟩ := Generation.run_bind_eq_ok_iff.1 h
    obtain ⟨hfind, hu⟩ := run_find_within_eq_ok hm
    subst hu
    have hbelow : Marks context (context.graph.RefersBelow m)
        (declareNode context.graph.depthBound "" entry.name 1 m) := declareNode_marks _ _ _ _ m
    refine hbelow.congr (fun id => ?_) used d used' hd
    simp [FileContext.RefersBelowId, hfind]
  have hrefs : file.references = [] := by simp [Node.references, hk]
  have hgroups : file.groups = [] := by simp [Node.groups, hk]
  refine (Marks.mapM hentry).congr fun id => ?_
  rw [Graph.refersBelow_iff, hrefs]
  simp only [Graph.declares_iff, Graph.GroupOf, hgroups, FileContext.RefersBelowId]
  constructor
  · intro h
    rcases h with hid | ⟨m, ⟨entry, he, hm⟩ | ⟨group, hg, -⟩, hbelow⟩
    · cases hid
    · exact ⟨entry, he, m, hm, hbelow⟩
    · cases hg
  · intro h
    obtain ⟨entry, he, m, hm, hbelow⟩ := h
    exact Or.inr ⟨m, Or.inl ⟨entry, he, hm⟩, hbelow⟩

end Bindings
end SchemaBindings
