import SchemaBindings.Proofs.Bindings.EmbeddedSchemas
import SchemaBindings.Proofs.Bindings.UnionAccess
import SchemaBindings.Proofs.Document.Conversion

namespace SchemaBindings.Bindings

open SchemaBindings.Schema SchemaBindings.Layout SchemaBindings.Text SchemaBindings.Outcome

/-- Whether a statement asks for the active tag. -/
def Statement.asksTag : Statement → Bool
  | answerFalseUnless _ | failUnless .. => true
  | perform _ | answer _ => false

/-- Whether the predicate of a field is written: there is none without accessors. -/
def FieldBindings.HasPredicate (b : FieldBindings) : Prop :=
  b.tag?.isSome = true ∧ b.accessors ≠ []

/-- The bindings of a field in the struct `s`. -/
structure FieldBindings.For (scope : String) (s : StructInfo) (f : Field) (b : FieldBindings) :
    Prop where
  scope_eq : b.scope = scope
  name_eq : b.name = f.name
  tag_eq : b.tag? = UnionTag.ofField? s f
  accessors_iff : b.accessors ≠ [] ↔ hasAccessors f = true

/-- Union members that have accessors are declared as a union. -/
def DeclaresTags (s : StructInfo) : Prop :=
  ∀ f ∈ s.fields, f.inUnion = true → hasAccessors f = true → s.hasUnion = true

namespace StructBody

/-- The places where a view calls `which`: guards and predicates of union members, and the
printer. -/
inductive AsksTag (b : StructBody) (view : View) : Prop where
  | guard {f : FieldBindings} {a : Verb × Operation} {s : Statement} (hf : f ∈ b.bindings)
      (ha : a ∈ f.accessorsOf view) (hs : s ∈ f.body view a.1 a.2) (hasks : s.asksTag = true)
  | predicate {f : FieldBindings} (hf : f ∈ b.bindings) (hp : f.HasPredicate)
  | printer (h : b.info.hasUnion = true)

/-- A view assigns `which`, and it reads the 16 bits at an offset. -/
structure AssignsTag (b : StructBody) (view : View) (offset : Nat) : Prop where
  call : b.whichCall? view = some (.storage view (.getData "uint16" false) offset [])
  text : ∀ name depth, Within ("this.which = function() \x7b return " ++ view.storage
    ++ ".getDataField_uint16(" ++ decimal offset ++ "); \x7d;") (b.viewText name depth view)

theorem within_lines {text : String} {texts : List String} (h : text ∈ texts) (depth : Nat) :
    Within text (lines depth texts) := by
  have hline : indent depth ++ text ++ "\n" ∈ texts.map fun t => indent depth ++ t ++ "\n" :=
    List.mem_map.2 ⟨text, h, rfl⟩
  have htext : Within text (indent depth ++ text ++ "\n") := (Within.refl text).right.left
  exact htext.trans (.join hline)

theorem field_within_viewText {b : StructBody} {f : FieldBindings} (hf : f ∈ b.bindings)
    (view : View) (name : String) (depth : Nat) :
    Within (f.text view (depth + 1)) (b.viewText name depth view) := by
  have hmem : f.text view (depth + 1) ∈ b.bindings.map fun f => f.text view (depth + 1) :=
    List.mem_map_of_mem hf
  exact (Within.join hmem).right.left.left.left

end StructBody

theorem Statement.asksTag_within {s : Statement} (h : s.asksTag = true) (depth : Nat) :
    Within "this.which()" (s.text depth) := by
  have hsplit : "if (this.which() !== " = "if (" ++ "this.which()" ++ " !== " := rfl
  have hif : Within "this.which()" "if (this.which() !== " := by
    rw [hsplit]
    exact (Within.refl _).right.left
  cases s with
  | perform | answer => cases h
  | answerFalseUnless tag => exact hif.left.left
  | failUnless tag message => exact hif.left.left.left.left

theorem FieldBindings.predicate_within {b : FieldBindings} (h : b.HasPredicate) (view : View)
    (depth : Nat) :
    Within ("this.is" ++ titleCase b.name ++ " = function() \x7b return this.which() === "
      ++ b.scope ++ "." ++ upperSnake b.name ++ "; \x7d;\n") (b.text view depth) := by
  obtain ⟨htag, haccessors⟩ := h
  have hsome : ¬b.accessors.isEmpty = true := by simpa using haccessors
  have htagged : ¬b.tag?.isNone = true := by simpa [Option.isSome_iff_ne_none] using htag
  have htext : b.predicateText depth = indent depth ++ ("this.is" ++ titleCase b.name
      ++ " = function() \x7b return this.which() === " ++ b.scope ++ "." ++ upperSnake b.name
      ++ "; \x7d;\n") := by
    rw [FieldBindings.predicateText, if_neg htagged]
    simp only [String.append_assoc]
  rw [FieldBindings.text, if_neg hsome, htext]
  exact (Within.refl _).right.left

namespace StructBody

variable {b : StructBody} {view : View}

/-- Each of the places shows in the text of the view. -/
theorem AsksTag.within (h : b.AsksTag view) (name : String) (depth : Nat) :
    Within "this.which()" (b.viewText name depth view) := by
  cases h with
  | guard hf ha hs hasks =>
    have hfield := field_within_viewText hf view name depth
    have hstatement := FieldBindings.statement_within ha hs (depth + 1)
    exact ((Statement.asksTag_within hasks _).trans hstatement).trans hfield
  | predicate hf hp =>
    have hfield := field_within_viewText hf view name depth
    have hsplit : " = function() \x7b return this.which() === " =
        " = function() \x7b return " ++ "this.which()" ++ " === " := rfl
    have hcall : Within "this.which()" " = function() \x7b return this.which() === " := by
      rw [hsplit]
      exact (Within.refl _).right.left
    exact (hcall.right.left.left.left.left.trans (FieldBindings.predicate_within hp view _)).trans
      hfield
  | printer hunion =>
    have hsplit : ", this.which()" = ", " ++ "this.which()" := rfl
    have hcall : Within "this.which()" ", this.which()" := by
      rw [hsplit]
      exact (Within.refl _).right
    have hline : Within "this.which()" (lines (depth + 1) (b.tail view ++ b.tables name view)) := by
      refine Within.trans ?_ (within_lines (List.mem_append_right _
        (List.mem_cons_of_mem _ (List.mem_cons_of_mem _ List.mem_cons_self))) _)
      rw [if_pos hunion]
      exact hcall.right.left
    exact hline.right.left.left

theorem whichText_eq (view : View) (offset : Nat) :
    "this.which = function() \x7b return " ++ view.storage ++ ".getDataField_uint16("
        ++ decimal offset ++ "); \x7d;" =
      "this.which = function() \x7b return "
        ++ (Call.storage view (.getData "uint16" false) offset []).text ++ "; \x7d;" := by
  have hopen : ".getDataField_uint16(" =
      "." ++ StorageMethod.text (.getData "uint16" false) ++ "(" := rfl
  have hclose : "); \x7d;" = ")" ++ "; \x7d;" := rfl
  rw [hopen, hclose]
  simp only [Call.text, List.map_nil, String.intercalate_singleton, String.append_assoc]

theorem assignsTag (h : b.info.hasUnion = true) (view : View) :
    b.AssignsTag view b.info.discriminantOffset.toNat := by
  have hcall : b.whichCall? view = some (.storage view (.getData "uint16" false)
      b.info.discriminantOffset.toNat []) := by
    rw [whichCall?, if_pos h]
  refine ⟨hcall, ?_⟩
  intro name depth
  rw [whichText_eq]
  have hline : "this.which = function() \x7b return "
      ++ (Call.storage view (.getData "uint16" false) b.info.discriminantOffset.toNat []).text
      ++ "; \x7d;" ∈ preamble view ++ b.whichLine view := by
    apply List.mem_append_right
    rw [whichLine, hcall]
    exact List.mem_singleton.2 rfl
  exact (within_lines hline (depth + 1)).right.left.left.left.left

end StructBody

theorem Operation.statements_asksTag (operation : Operation) (view : View) :
    ∀ s ∈ operation.statements view, s.asksTag = false := by
  cases operation with
  | clearSlots slots type =>
    intro s hs
    rcases List.mem_append.1 hs with hclear | hanswer
    · obtain ⟨slot, -, rfl⟩ := List.mem_map.1 hclear
      unfold slotClear
      split <;> rfl
    · rw [List.mem_singleton.1 hanswer]
      rfl
  | nothing =>
    intro s hs
    cases hs
  | _ =>
    intro s hs
    rw [List.mem_singleton.1 hs]
    rfl

section Generated

variable {context : FileContext} {used used' : UsedFiles} {nodeId : UInt64} {scope path : String}
  {n : Node} {s : StructInfo} {f : Field} {fb : FieldBindings} {b : StructBody}

theorem slotAccessors_ne_nil {slot : SlotField} {accessors : List (Verb × Operation)}
    (h : Generation.run (slotAccessors nodeId slot) context used = (.ok accessors, used')) :
    accessors ≠ [] ↔ slot.type.kind ≠ .interface := by
  constructor
  · intro hne hkind
    apply hne
    simp only [slotAccessors, hkind] at h
    exact Generation.run_pure_eq_ok h
  · intro hkind
    rcases slotAccessors_cases h with rfl | ⟨-, rfl⟩ | ⟨hcapability, -⟩ | ⟨shape, default?, rfl⟩
    · exact List.cons_ne_nil _ _
    · exact List.cons_ne_nil _ _
    · exact absurd hcapability hkind
    · exact List.cons_ne_nil _ _

theorem fieldBindings_for
    (h : Generation.run (fieldBindings scope nodeId s f) context used = (.ok fb, used')) :
    FieldBindings.For scope s f fb := by
  obtain ⟨accessors, rfl, ⟨slot, u, u', hf, hslot⟩ | ⟨id, group, slots, hf, -, -, rfl⟩⟩ :=
    fieldBindings_eq_ok h
  · refine ⟨rfl, rfl, rfl, ?_⟩
    simp only [slotAccessors_ne_nil hslot, hasAccessors, hf, bne_iff_ne]
  · refine ⟨rfl, rfl, rfl, ?_⟩
    simp [groupAccessors, hasAccessors, hf]

/-- Every field of a struct has its bindings. -/
def StructBody.IsBound (b : StructBody) : Prop :=
  List.Forall₂ (FieldBindings.For b.scope b.info) b.info.fields b.bindings

theorem structBody_isBound
    (h : Generation.run (structBody path n) context used = (.ok b, used')) :
    n.struct? = some b.info ∧ b.path = path ∧ b.IsBound := by
  unfold structBody at h
  cases hs : n.struct? with
  | none => simp [hs] at h
  | some s =>
    simp only [hs] at h
    obtain ⟨bindings, _, hmap, h⟩ := Generation.run_bind_eq_ok_iff.1 h
    obtain rfl := Generation.run_pure_eq_ok h
    refine ⟨rfl, rfl, (Generation.run_mapM_eq_ok hmap).imp ?_⟩
    rintro f fb ⟨u, u', hfield⟩
    exact fieldBindings_for hfield

theorem DeclaredAs.run_structBody {name : String} {d : Declaration}
    (h : DeclaredAs context path name n d) (hd : d.body = .struct b) :
    ∃ u u', Generation.run (structBody (joinPath path name) n) context u = (.ok b, u') := by
  obtain ⟨depth, body, nested, groups, rfl, -, -, u, u', hbody⟩ := h.parts
  cases hbody with
  | struct _ hrun =>
    cases hd
    exact ⟨u, u', hrun⟩
  | enum | constant | scope | nothing => cases hd

theorem DeclaredAs.isBound {name : String} {d : Declaration} (h : DeclaredAs context path name n d)
    (hd : d.body = .struct b) :
    n.struct? = some b.info ∧ b.path = joinPath path name ∧ b.IsBound := by
  obtain ⟨u, u', hrun⟩ := h.run_structBody hd
  exact structBody_isBound hrun

end Generated

namespace StructBody

variable {b : StructBody}

/-- The keys of the members that every struct has. -/
def commonKeys : List String :=
  ["STRUCT_SIZE", "ELEMENT_SIZE", "FIELD_LIST", "FIELDS_BY_DISCRIMINANT", "toString",
    "getOrphanReader", "getOrphan", "copyOrphan", "Reader", "Builder"]

/-- The keys of a struct's object behind those of nested declarations, in order, and the numbers
under them where they are constants. -/
def keys (b : StructBody) : List (String × Option UInt16) :=
  b.tagConstants.map (fun t => (t.1, some t.2)) ++ commonKeys.map fun key => (key, none)

/-- The number under a key of the object, where the last member with a key replaces the others. -/
def number? (b : StructBody) (key : String) : Option UInt16 :=
  (b.keys.reverse.lookup key).join

/-- A member of the object: a key and what stands under it. -/
def Keyed (depth : Nat) (key : String × Option UInt16) (text : String) : Prop :=
  ∃ value, text = indent depth ++ (key.1 ++ ": " ++ value) ∧
    ∀ number, key.2 = some number → value = decimal number.toNat ++ ",\n"

/-- A line of the object that begins with a key. -/
def Begins (key line : String) : Prop :=
  ∃ rest, line = key ++ ": " ++ rest

theorem Begins.append {key line : String} (h : Begins key line) (after : String) :
    Begins key (line ++ after) := by
  obtain ⟨rest, rfl⟩ := h
  exact ⟨rest ++ after, by simp only [String.append_assoc]⟩

theorem Begins.keyed {key line : String} (h : Begins key line) (depth : Nat) :
    Keyed depth (key, none) (indent depth ++ line ++ "\n") := by
  obtain ⟨rest, rfl⟩ := h
  refine ⟨rest ++ "\n", ?_, ?_⟩
  · simp only [String.append_assoc]
  · intro number hnumber
    cases hnumber

theorem constant_keyed (key : String) (tag : UInt16) (depth : Nat) :
    Keyed depth (key, some tag)
      (indent depth ++ (key ++ ": " ++ decimal tag.toNat ++ ",") ++ "\n") := by
  have hend : ",\n" = "," ++ "\n" := rfl
  refine ⟨decimal tag.toNat ++ ",\n", ?_, ?_⟩
  · rw [hend]
    simp only [String.append_assoc]
  · intro number hnumber
    cases hnumber
    rfl

theorem viewText_keyed (b : StructBody) (name : String) (depth : Nat) (view : View) :
    Keyed depth (view.className, none) (b.viewText name depth view) := by
  have hsplit : ": function(" = ": " ++ "function(" := rfl
  refine ⟨"function(" ++ view.storage ++ ") \x7b\n"
    ++ lines (depth + 1) (preamble view ++ b.whichLine view)
    ++ String.join (b.bindings.map fun f => f.text view (depth + 1))
    ++ lines (depth + 1) (b.tail view ++ b.tables name view) ++ indent depth ++ "\x7d,\n", ?_, ?_⟩
  · rw [viewText, hsplit]
    simp only [String.append_assoc]
  · intro number hnumber
    cases hnumber

/-- The members of the object are the keys in order, each with what stands under it. -/
theorem members_keyed (b : StructBody) (name : String) (depth : Nat) :
    ∃ texts, b.members name depth = String.join texts ∧
      List.Forall₂ (Keyed depth) b.keys texts := by
  refine ⟨b.memberLines.map (fun t => indent depth ++ t ++ "\n") ++
    [b.viewText name depth .reader, b.viewText name depth .builder], ?_, ?_⟩
  · rw [members, lines, String.join_append]
    simp [String.append_assoc]
  · rw [memberLines, List.map_append, List.append_assoc, keys]
    apply List.rel_append
    · rw [List.map_map, List.forall₂_map_left_iff, List.forall₂_map_right_iff, List.forall₂_same]
      intro t _
      exact constant_keyed t.1 t.2 depth
    · have hsize : Begins "STRUCT_SIZE" "STRUCT_SIZE: new capnp.genhelper.StructSize(" :=
        ⟨"new capnp.genhelper.StructSize(", rfl⟩
      have hfields : Begins "FIELD_LIST" "FIELD_LIST: [" := ⟨"[", rfl⟩
      have hordered : Begins "FIELDS_BY_DISCRIMINANT" "FIELDS_BY_DISCRIMINANT: [" := ⟨"[", rfl⟩
      have hprinter : Begins "toString" "toString: function() \x7b return '" :=
        ⟨"function() \x7b return '", rfl⟩
      refine .cons (Begins.keyed ?_ _) ?_
      · exact (((((hsize.append _).append _).append _).append _).append _).append _
      refine .cons (Begins.keyed ⟨"7, // INLINE_COMPOSITE", rfl⟩ _) ?_
      refine .cons (((hfields.append _).append _).keyed _) ?_
      refine .cons (((hordered.append _).append _).keyed _) ?_
      refine .cons (((hprinter.append _).append _).keyed _) ?_
      refine .cons (Begins.keyed ⟨"function(builder) \x7b return new this.Reader("
        ++ "builder.asStructReader(this.STRUCT_SIZE)); \x7d,", by simp⟩ _) ?_
      refine .cons (Begins.keyed ⟨"function(builder) \x7b return new this.Builder("
        ++ "builder.asStruct(this.STRUCT_SIZE)); \x7d,", by simp⟩ _) ?_
      refine .cons (Begins.keyed ⟨"capnp.layout.OrphanBuilder.copyStruct,", rfl⟩ _) ?_
      exact .cons (b.viewText_keyed name depth .reader)
        (.cons (b.viewText_keyed name depth .builder) .nil)

/-- The object has a constant for a tag. It is found under its name unless a member with the same
name says otherwise. -/
structure HoldsConstant (b : StructBody) (key : String) (tag : UInt16) : Prop where
  listed : (key, some tag) ∈ b.keys
  text : ∀ name depth, Within (indent depth ++ (key ++ ": " ++ decimal tag.toNat ++ ",") ++ "\n")
    (b.members name depth)
  found : (∀ other ∈ b.keys, other.1 = key → other.2 = some tag) → b.number? key = some tag

theorem number?_eq_some {key : String} {tag : UInt16} (h : (key, some tag) ∈ b.keys)
    (hsame : ∀ other ∈ b.keys, other.1 = key → other.2 = some tag) : b.number? key = some tag := by
  obtain ⟨found, hfound, hmem⟩ := exists_lookup_of_mem (List.mem_reverse.2 h)
  have htag : found = some tag := hsame _ (List.mem_reverse.1 hmem) rfl
  rw [number?, hfound, htag]
  rfl

theorem holdsConstant {f : Field} (hu : b.info.hasUnion = true) (hf : f ∈ b.info.fields)
    (hin : f.inUnion = true) : b.HoldsConstant (upperSnake f.name) f.discriminant := by
  have hconstant : (upperSnake f.name, f.discriminant) ∈ b.tagConstants := by
    rw [tagConstants, if_pos hu]
    exact List.mem_map.2 ⟨f, List.mem_filter.2 ⟨hf, hin⟩, rfl⟩
  have hlisted : (upperSnake f.name, some f.discriminant) ∈ b.keys :=
    List.mem_append_left _ (List.mem_map.2 ⟨_, hconstant, rfl⟩)
  refine ⟨hlisted, ?_, number?_eq_some hlisted⟩
  intro name depth
  have hline : upperSnake f.name ++ ": " ++ decimal f.discriminant.toNat ++ "," ∈ b.memberLines :=
    List.mem_append_left _ (List.mem_map.2 ⟨_, hconstant, rfl⟩)
  have hlines : Within (indent depth ++ (upperSnake f.name ++ ": "
      ++ decimal f.discriminant.toNat ++ ",") ++ "\n") (lines depth b.memberLines) :=
    .join (List.mem_map.2 ⟨_, hline, rfl⟩)
  exact hlines.left.left

/-- A struct treats the tags of its union alike everywhere. A view that asks for the active tag
reads it where members write theirs, the guards of a member have its tag, and its predicate compares
with a constant of the object that is the same number. -/
structure TagsAgree (b : StructBody) : Prop where
  asked : ∀ view, b.AsksTag view → b.AssignsTag view b.info.discriminantOffset.toNat
  guarded : ∀ f fb, b.Binds f fb → f.inUnion = true → ∀ view, ∀ a ∈ fb.accessorsOf view,
    fb.body view a.1 a.2 =
      UnionTag.guard ⟨f.discriminant, b.info.discriminantOffset⟩ a.1 :: a.2.statements view
  compared : ∀ f fb, b.Binds f fb → fb.HasPredicate →
    (∀ view name depth, Within ("this.is" ++ titleCase f.name
      ++ " = function() \x7b return this.which() === " ++ b.scope ++ "." ++ upperSnake f.name
      ++ "; \x7d;\n") (b.viewText name depth view)) ∧
    b.HoldsConstant (upperSnake f.name) f.discriminant

end StructBody

/-- A guard that asks for the active tag belongs to a union member with accessors, so there is a
predicate too. -/
theorem FieldBindings.hasPredicate_of_guard {fb : FieldBindings} {view : View}
    {a : Verb × Operation} {statement : Statement} (ha : a ∈ fb.accessorsOf view)
    (hs : statement ∈ fb.body view a.1 a.2) (hasks : statement.asksTag = true) :
    fb.HasPredicate := by
  constructor
  · rcases List.mem_append.1 hs with hguard | hown
    · cases htag : fb.tag? with
      | none =>
        rw [htag] at hguard
        cases hguard
      | some tag => rfl
    · rw [Operation.statements_asksTag a.2 view statement hown] at hasks
      cases hasks
  · intro hnone
    cases view <;> simp [accessorsOf, hnone] at ha

namespace FieldBindings.For

variable {scope : String} {s : StructInfo} {f : Field} {fb : FieldBindings}

theorem hasPredicate_iff (h : FieldBindings.For scope s f fb) :
    fb.HasPredicate ↔ f.inUnion = true ∧ hasAccessors f = true := by
  unfold HasPredicate
  rw [h.accessors_iff, h.tag_eq, UnionTag.ofField?]
  cases f.inUnion <;> simp

theorem body_eq (h : FieldBindings.For scope s f fb) (hin : f.inUnion = true) (view : View)
    (verb : Verb) (operation : Operation) :
    fb.body view verb operation =
      UnionTag.guard ⟨f.discriminant, s.discriminantOffset⟩ verb :: operation.statements view := by
  rw [body, h.tag_eq, UnionTag.ofField?, if_pos hin]
  rfl

end FieldBindings.For

namespace StructBody

variable {b : StructBody}

theorem IsBound.of_binds (h : b.IsBound) {f : Field} {fb : FieldBindings} (hb : b.Binds f fb) :
    f ∈ b.info.fields ∧ FieldBindings.For b.scope b.info f fb :=
  ⟨(List.of_mem_zip hb).1, (List.forall₂_iff_zip.1 h).2 hb⟩

theorem IsBound.exists_binds (h : b.IsBound) {f : Field} (hf : f ∈ b.info.fields) :
    ∃ fb, b.Binds f fb := by
  have hlength := h.length_eq
  obtain ⟨i, hi, rfl⟩ := List.getElem_of_mem hf
  refine ⟨b.bindings[i], ?_⟩
  rw [StructBody.Binds, List.mem_iff_getElem]
  refine ⟨i, ?_, List.getElem_zip⟩
  rw [List.length_zip]
  omega

/-- A view asks for the active tag where the struct has a union, or where members are in one. -/
theorem IsBound.asksTag_cases (h : b.IsBound) {view : View} (hasks : b.AsksTag view) :
    b.info.hasUnion = true ∨
      ∃ f ∈ b.info.fields, f.inUnion = true ∧ hasAccessors f = true := by
  have hmember : ∀ fb ∈ b.bindings, fb.HasPredicate →
      ∃ f ∈ b.info.fields, f.inUnion = true ∧ hasAccessors f = true := by
    intro fb hfb hp
    obtain ⟨f, hf, hfor⟩ := exists_of_forall₂_right h hfb
    exact ⟨f, hf, hfor.hasPredicate_iff.1 hp⟩
  cases hasks with
  | guard hf ha hs hguard =>
    exact Or.inr (hmember _ hf (FieldBindings.hasPredicate_of_guard ha hs hguard))
  | predicate hf hp => exact Or.inr (hmember _ hf hp)
  | printer hunion => exact Or.inl hunion

theorem IsBound.tagsAgree (h : b.IsBound) (hdeclares : DeclaresTags b.info) : b.TagsAgree where
  asked := by
    intro view hasks
    rcases h.asksTag_cases hasks with hunion | ⟨f, hf, hin, haccessors⟩
    · exact assignsTag hunion view
    · exact assignsTag (hdeclares f hf hin haccessors) view
  guarded := by
    intro f fb hb hin view a _
    exact (h.of_binds hb).2.body_eq hin view a.1 a.2
  compared := by
    intro f fb hb hp
    obtain ⟨hf, hfor⟩ := h.of_binds hb
    obtain ⟨hin, haccessors⟩ := hfor.hasPredicate_iff.1 hp
    refine ⟨?_, holdsConstant (hdeclares f hf hin haccessors) hf hin⟩
    intro view name depth
    have hpredicate := FieldBindings.predicate_within hp view (depth + 1)
    rw [hfor.scope_eq, hfor.name_eq] at hpredicate
    exact hpredicate.trans (field_within_viewText (List.of_mem_zip hb).2 view name depth)

theorem IsBound.declaresTags (h : b.IsBound) (hagree : b.TagsAgree) : DeclaresTags b.info := by
  intro f hf hin haccessors
  obtain ⟨fb, hfb, hfor⟩ := exists_of_forall₂_left h hf
  have hp := hfor.hasPredicate_iff.2 ⟨hin, haccessors⟩
  have hcall := (hagree.asked .reader (.predicate hfb hp)).call
  cases hunion : b.info.hasUnion with
  | true => rfl
  | false => simp [whichCall?, hunion] at hcall

end StructBody

/-- In every struct or group that a generated file defines, the tags of the union agree exactly if
union members that have accessors are declared as a union: the views that ask for the active tag
assign `which`, at the offset that members write their tags to, and predicates compare with
constants of the object that are the numbers in the guards. -/
theorem tags_agree_iff_declared (g : Graph) (request : RequestedFile) (out : FileOutput)
    (h : generateFile g request = .ok out) :
    ∃ file source, g.find? request.id = some file ∧ sourceFile ⟨g, request⟩ file = .ok source ∧
      out.source = source.text ∧
      ∀ names place entry b children,
        Declaration.At (fun d => d.body.showsChildren = true) source.declarations names
          (.mk place entry (.struct b) children) →
        Within (place.object (Declaration.textList children
          ++ b.members place.name (place.depth + 2))) source.definitions ∧
        (∃ n, g.find? n.id = some n ∧ n.struct? = some b.info) ∧
        b.scope = "module." ++ dotted names ∧
        (∃ texts, b.members place.name (place.depth + 2) = String.join texts ∧
          List.Forall₂ (StructBody.Keyed (place.depth + 2)) b.keys texts) ∧
        (b.TagsAgree ↔ DeclaresTags b.info) := by
  obtain ⟨file, source, hfile, -, hsource, rfl⟩ := generateFile_eq_ok h
  obtain ⟨used, hrun, -⟩ := sourceFile_eq_ok hsource
  refine ⟨file, source, hfile, hsource, rfl, ?_⟩
  intro names place entry b children hat
  have htext := hat.text_within
  rw [Declaration.text] at htext
  obtain ⟨outer, n, rfl, hn, hdecl⟩ := hat.declaredAs (fileDeclarations_declaredAs hrun)
  obtain ⟨hstruct, hpath, hbound⟩ := hdecl.isBound rfl
  refine ⟨htext, ⟨n, hn, hstruct⟩, ?_, b.members_keyed _ _, ?_⟩
  · rw [StructBody.scope, hpath, dotted_append]
  · exact ⟨hbound.declaresTags, hbound.tagsAgree⟩

namespace Figures

def fileRecord : Document.NodeRecord :=
  { (default : Document.NodeRecord) with
    id := 1
    kind := "file"
    displayName := "figures.capnp"
    nested := [⟨"Shape", 2⟩] }

/-- A shape has a radius, or it has none. -/
def shapeRecord (count : UInt16) : Document.NodeRecord :=
  { (default : Document.NodeRecord) with
    id := 2
    kind := "struct"
    displayName := "figures.capnp:Shape"
    scopeId := 1
    struct? := some ⟨1, 0, 7, false, count, 0,
      [⟨"radius", 0, some 0, some ⟨1, .leaf "float32" 0, none, 0⟩, none⟩,
        ⟨"point", 1, some 1, some ⟨0, .leaf "void" 0, none, 0⟩, none⟩]⟩ }

/-- The number of union members that the shape declares is independent of those that it has. -/
def document (count : UInt16) : Document :=
  ⟨some [fileRecord, shapeRecord count], some [⟨1, "figures.capnp", []⟩]⟩

def radius : Field :=
  ⟨"radius", 0, 0, .slot ⟨1, .plain .float32 0, .zero .float32, 0⟩⟩

def point : Field :=
  ⟨"point", 1, 1, .slot ⟨0, .plain .void 0, .zero .void, 0⟩⟩

def info (count : UInt16) : StructInfo :=
  ⟨1, 0, 7, false, count, 0, [radius, point]⟩

def file : Node :=
  { (default : Node) with
    id := 1
    kind := .fileNode
    displayName := "figures.capnp"
    nested := [⟨"Shape", 2⟩] }

def shape (count : UInt16) : Node :=
  { (default : Node) with
    id := 2
    kind := .structNode
    displayName := "figures.capnp:Shape"
    scopeId := 1
    struct? := some (info count) }

def requested : RequestedFile :=
  ⟨1, "figures.capnp", []⟩

theorem request_figures (count : UInt16) :
    Document.request (document count) = .ok ⟨[file, shape count], [requested]⟩ := by
  have hfile : fileRecord.checked = .ok file := by
    simp only [Document.NodeRecord.checked]
    rw [show fileRecord.encoded = "" from rfl, Document.checkedBase64_empty]
    rfl
  have hshape : (shapeRecord count).checked = .ok (shape count) := by
    simp only [Document.NodeRecord.checked]
    rw [show (shapeRecord count).encoded = "" from rfl, Document.checkedBase64_empty]
    rfl
  exact Document.request_eq_ok_iff.2 ⟨.cons hfile (.cons hshape .nil), rfl⟩

/-- What is generated for the shape. -/
def body (count : UInt16) : StructBody :=
  ⟨"Shape", info count,
    [⟨"module.Shape", "radius", some ⟨0, 0⟩,
        dataAccessors ⟨1, .plain .float32 0, .zero .float32, 0⟩⟩,
      ⟨"module.Shape", "point", some ⟨1, 0⟩, voidAccessors⟩]⟩

def declared (count : UInt16) : Declaration :=
  .mk ⟨true, "Shape", 1⟩ (.ofNode (shape count)) (.struct (body count)) []

def graph (count : UInt16) : Graph :=
  ⟨[file, shape count], by simp [file, shape]⟩

end Figures

/-- A shape that declares its two members. -/
theorem tags_agree_iff_declared_figures :
    Document.request (Figures.document 2) =
      .ok ⟨[Figures.file, Figures.shape 2], [Figures.requested]⟩ ∧
    Graph.ofNodes [Figures.file, Figures.shape 2] = .ok (Figures.graph 2) ∧
    (∃ out, generateFile (Figures.graph 2) Figures.requested = .ok out) ∧
    DeclaresTags (Figures.info 2) ∧ (Figures.body 2).TagsAgree ∧
    (Figures.body 2).number? "RADIUS" = some 0 ∧ (Figures.body 2).number? "POINT" = some 1 := by
  obtain ⟨file, source, hfile, hsource, -, hall⟩ :=
    tags_agree_iff_declared (Figures.graph 2) Figures.requested _ rfl
  cases hfile
  cases hsource
  obtain ⟨-, -, -, -, hagree⟩ := hall _ _ _ _ _ (.top (d := Figures.declared 2) List.mem_cons_self)
  have hdeclares : DeclaresTags (Figures.info 2) := fun _ _ _ _ => rfl
  exact ⟨Figures.request_figures 2, rfl, ⟨_, rfl⟩, hdeclares, hagree.2 hdeclares, by decide,
    by decide⟩

/-- A shape that declares no union, though its fields have discriminants. Its guards and predicates
ask for an active tag that no view assigns, and the constants are missing. -/
theorem tag_asked_but_not_assigned :
    Document.request (Figures.document 0) =
      .ok ⟨[Figures.file, Figures.shape 0], [Figures.requested]⟩ ∧
    Graph.ofNodes [Figures.file, Figures.shape 0] = .ok (Figures.graph 0) ∧
    (∃ out source, generateFile (Figures.graph 0) Figures.requested = .ok out ∧
      sourceFile ⟨Figures.graph 0, Figures.requested⟩ Figures.file = .ok source ∧
      out.source = source.text ∧ source.declarations = [Figures.declared 0]) ∧
    (∀ view, (Figures.body 0).AsksTag view ∧
      (∀ name depth, Within "this.which()" ((Figures.body 0).viewText name depth view)) ∧
      (Figures.body 0).whichCall? view = none) ∧
    (Figures.body 0).number? "RADIUS" = none := by
  refine ⟨Figures.request_figures 0, rfl, ⟨_, _, rfl, rfl, rfl, rfl⟩, ?_, ?_⟩
  · intro view
    have hasks : (Figures.body 0).AsksTag view :=
      .predicate List.mem_cons_self ⟨rfl, List.cons_ne_nil _ _⟩
    exact ⟨hasks, hasks.within, rfl⟩
  · decide

end SchemaBindings.Bindings
