import SchemaBindings.Proofs.Bindings.DefinedObjects
import SchemaBindings.Proofs.Bindings.GroupAccess
import SchemaBindings.Proofs.Text.Digits

namespace SchemaBindings

open SchemaBindings.Schema SchemaBindings.Outcome

namespace Schema

end Schema

namespace Bindings

def Argument.schemaRef? : Argument → Option UInt64
  | embedded nodeId _ => some nodeId
  | _ => none

def Call.schemaRefs (c : Call) : List UInt64 :=
  c.arguments.filterMap Argument.schemaRef?

def Answer.schemaRefs : Answer → List UInt64
  | undefined | groupView .. => []
  | anyOf tests => tests.flatMap fun test => test.call.schemaRefs
  | result call | structView _ _ call => call.schemaRefs

def Statement.schemaRefs : Statement → List UInt64
  | perform call => call.schemaRefs
  | answer value => value.schemaRefs
  | answerFalseUnless _ | failUnless .. => []

def FieldBindings.schemaRefs (b : FieldBindings) (view : View) : List UInt64 :=
  (b.accessorsOf view).flatMap fun a => (b.body view a.1 a.2).flatMap Statement.schemaRefs

def ConstExpr.schemaRefs : ConstExpr → List UInt64
  | literal _ => []
  | text nodeId _ _ | data nodeId _ _ | struct _ nodeId _ | list _ nodeId _ => [nodeId]

/-- The nodes whose encoded form a definition refers to, what is nested in it left out. -/
def Body.schemaRefs : Body → List UInt64
  | struct b =>
    b.bindings.flatMap (FieldBindings.schemaRefs · .reader)
      ++ b.bindings.flatMap (FieldBindings.schemaRefs · .builder)
  | constant value? => (value?.map ConstExpr.schemaRefs).getD []
  | enum _ | scope | nothing => []

/-- Whether a definition comes with an entry for its node; a constant that is written as a literal
has none. -/
def Body.needsEntry : Body → Bool
  | constant value? => (value?.map ConstExpr.needsSchema).getD false
  | struct _ | enum _ | scope | nothing => true

def Declaration.entry : Declaration → SchemaEntry
  | mk _ entry _ _ => entry

variable {id : UInt64}

theorem Call.schemaRefs_within {c : Call} (h : id ∈ c.schemaRefs) :
    Within (schemaRef id) c.text := by
  obtain ⟨a, ha, hid⟩ := List.mem_filterMap.1 h
  cases a with
  | embedded nodeId byteOffset =>
    obtain rfl := Option.some.inj hid
    have htext : Within (schemaRef nodeId) (Argument.embedded nodeId byteOffset).text :=
      (Within.refl _).left.left.left
    exact htext.trans (argument_within ha)
  | _ => cases hid

theorem Statement.schemaRefs_within {s : Statement} (h : id ∈ s.schemaRefs) (depth : Nat) :
    Within (schemaRef id) (s.text depth) := by
  cases s with
  | perform call => exact (Call.schemaRefs_within h).left
  | answerFalseUnless | failUnless => cases h
  | answer value =>
    suffices hvalue : Within (schemaRef id) (value.text depth) from hvalue.right.left
    cases value with
    | undefined | groupView => cases h
    | anyOf tests =>
      obtain ⟨test, ht, hid⟩ := List.mem_flatMap.1 h
      have hne : ¬tests.isEmpty = true := by simpa using List.ne_nil_of_mem ht
      rw [Answer.text, if_neg hne]
      exact (Call.schemaRefs_within hid).right.trans (.intercalate _ (List.mem_map_of_mem ht))
    | result call => exact Call.schemaRefs_within h
    | structView type view call => exact (Call.schemaRefs_within h).right.left

theorem StructBody.schemaRefs_within {b : StructBody} {f : FieldBindings} {view : View}
    (hf : f ∈ b.bindings) (h : id ∈ f.schemaRefs view) (name : String) (depth : Nat) :
    Within (schemaRef id) (b.members name depth) := by
  obtain ⟨a, ha, h⟩ := List.mem_flatMap.1 h
  obtain ⟨s, hs, hid⟩ := List.mem_flatMap.1 h
  have hstatement := FieldBindings.statement_within ha hs (depth + 1)
  have hbinding := binding_within hf view name depth
  exact (Statement.schemaRefs_within hid _).trans (hstatement.trans hbinding)

theorem ConstExpr.schemaRefs_within {c : ConstExpr} (h : id ∈ c.schemaRefs) :
    Within (schemaRef id) c.expression := by
  cases c with
  | literal => cases h
  | text nodeId wordOffset size | data nodeId byteOffset size =>
    rw [List.mem_singleton.1 h]
    exact (Within.refl _).right.left.left.left.left.left
  | struct type nodeId wordOffset | list type nodeId wordOffset =>
    rw [List.mem_singleton.1 h]
    exact (Within.refl _).right.left.left.left

theorem Declaration.schemaRefs_within {d : Declaration} (h : id ∈ d.body.schemaRefs) :
    Within (schemaRef id) d.text := by
  cases d with
  | mk place entry body children =>
    cases body with
    | struct b =>
      rw [text]
      refine place.within_object (Within.right ?_)
      rcases List.mem_append.1 h with h | h
      · obtain ⟨f, hf, hid⟩ := List.mem_flatMap.1 h
        exact StructBody.schemaRefs_within hf hid _ _
      · obtain ⟨f, hf, hid⟩ := List.mem_flatMap.1 h
        exact StructBody.schemaRefs_within hf hid _ _
    | constant value? =>
      cases value? with
      | none => cases h
      | some value =>
        rw [text]
        exact place.within_constant (ConstExpr.schemaRefs_within h)
    | enum | scope | nothing => cases h

def Operation.schemaRefs : Operation → List UInt64
  | readPointer _ _ default? => default?.toList.map PointerDefault.nodeId
  | _ => []

variable {context : FileContext} {used used' : UsedFiles} {n : Node}

variable {path name : String} {d : Declaration}

theorem DeclaredAs.entry_eq (h : DeclaredAs context path name n d) : d.entry = .ofNode n :=
  h.induct (motive := fun _ _ n d => d.entry = .ofNode n) fun _ _ _ _ _ _ _ _ _ _ _ => rfl

/-- A declaration of a node that the graph has. -/
def Declaration.Stems (context : FileContext) (d : Declaration) : Prop :=
  ∃ n path name, context.graph.find? n.id = some n ∧ DeclaredAs context path name n d

theorem DeclaredAs.child_stems (h : DeclaredAs context path name n d) {child : Declaration}
    (hc : child ∈ d.children) : child.Stems context := by
  obtain ⟨m, hm, hchild⟩ := h.child_declaredAs hc
  exact ⟨m, _, _, hm, hchild⟩

namespace Declaration

variable {ds : List Declaration} {names : List String} {e : SchemaEntry}

theorem entries_mk (place : Placement) (entry : SchemaEntry) (body : Body)
    (children : List Declaration) :
    (mk place entry body children).entries =
      if body.needsEntry then entry :: entriesList children else [] := by
  cases body <;> rfl

theorem entriesList_cons (d : Declaration) (ds : List Declaration) :
    entriesList (d :: ds) = d.entries ++ entriesList ds :=
  rfl

theorem mem_entriesList (hd : d ∈ ds) (he : e ∈ d.entries) : e ∈ entriesList ds := by
  induction ds with
  | nil => cases hd
  | cons first ds ih =>
    rw [entriesList_cons]
    rcases List.mem_cons.1 hd with rfl | hd
    · exact List.mem_append_left _ he
    · exact List.mem_append_right _ (ih hd)

mutual

/-- All entries of a declaration are of nodes that the graph has. -/
theorem mem_entries_stems (context : FileContext) : ∀ d : Declaration, d.Stems context →
    ∀ e ∈ d.entries, ∃ n, context.graph.find? n.id = some n ∧ e = .ofNode n
  | mk place entry body children, hd, e, he => by
    obtain ⟨n, path, name, hn, hdecl⟩ := hd
    rw [entries_mk] at he
    split_ifs at he
    · rcases List.mem_cons.1 he with rfl | he
      · exact ⟨n, hn, hdecl.entry_eq⟩
      · exact mem_entriesList_stems context children (fun c hc => hdecl.child_stems hc) e he
    · cases he

theorem mem_entriesList_stems (context : FileContext) : ∀ ds : List Declaration,
    (∀ d ∈ ds, d.Stems context) →
    ∀ e ∈ entriesList ds, ∃ n, context.graph.find? n.id = some n ∧ e = .ofNode n
  | [], _, e, he => by cases he
  | d :: ds, hds, e, he => by
    rw [entriesList_cons, List.mem_append] at he
    rcases he with he | he
    · exact mem_entries_stems context d (hds d List.mem_cons_self) e he
    · exact mem_entriesList_stems context ds (fun c hc => hds c (List.mem_cons_of_mem _ hc)) e he

end

/-- What shows its children has entries for all of them. -/
theorem child_entries {child : Declaration} (hd : d.body.showsChildren = true)
    (hc : child ∈ d.children) (he : e ∈ child.entries) : e ∈ d.entries := by
  cases d with
  | mk place entry body children =>
    have hneeds : body.needsEntry = true := by
      cases body with
      | struct | scope => rfl
      | enum | constant | nothing => cases hd
    rw [entries_mk, if_pos hneeds]
    exact List.mem_cons_of_mem _ (mem_entriesList hc he)

theorem At.entries (h : At (fun d => d.body.showsChildren = true) ds names d) (he : e ∈ d.entries) :
    e ∈ entriesList ds := by
  induction h with
  | top hd => exact mem_entriesList hd he
  | inside _ hd hc ih => exact ih (child_entries hd hc he)

end Declaration

namespace Library

/-- Some value behind a pointer. -/
def stored (kind : Kind) : Value :=
  { Value.zero kind with present := true }

def cover : Node :=
  { node 4 .structNode 3 [] with
    encoded := [0, 17, 255]
    struct? := some ⟨0, 2, 0, true, 0, 0,
      [⟨"image", 0, noDiscriminant, .slot ⟨1, .plain .data 0, stored .data, 2⟩⟩]⟩ }

/-- A struct with a group; both have a field with a default. -/
def volume : Node :=
  { node 3 .structNode 2 [] with
    encoded := [1, 2, 3]
    struct? := some ⟨0, 2, 0, false, 0, 0,
      [⟨"title", 0, noDiscriminant, .slot ⟨0, .plain .text 0, stored .text, 1⟩⟩,
        ⟨"cover", 1, noDiscriminant, .group 4⟩]⟩ }

def motto : Node :=
  { node 5 .constNode 1 [] with
    encoded := [5]
    const? := some ⟨.plain .text 0, stored .text, 3⟩ }

def bindery : Node :=
  node 2 .interfaceNode 1 [⟨"Volume", 3⟩]

end Library

end Bindings
end SchemaBindings
