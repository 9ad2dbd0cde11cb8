import Mathlib.Tactic.MkIffOfInductiveProp
import SchemaBindings.Proofs.Document.Conversion
import SchemaBindings.Proofs.Text.Base64

namespace SchemaBindings

open SchemaBindings.Schema SchemaBindings.Outcome SchemaBindings.Number SchemaBindings.Text

namespace Schema

/-- The names of a kind: its own, and for untyped pointers an older one. -/
def Kind.GoesBy (kind : Kind) (name : String) : Prop :=
  (kind ∈ Kind.listed ∧ kind.name = name) ∨ (kind = .anyPointer ∧ name = "object")

/-- The kinds whose types are told apart by an id. -/
def Kind.needsId : Kind → Bool
  | enum | struct | interface => true
  | _ => false

theorem Kind.ofName?_eq_some_iff {name : String} {kind : Kind} :
    Kind.ofName? name = some kind ↔ kind.GoesBy name := by
  have hlisted : ∀ k ∈ Kind.listed, Kind.ofName? k.name = some k := by decide
  constructor
  · intro h
    unfold ofName? at h
    split_ifs at h with hobject
    · exact Or.inr ⟨(Option.some.inj h).symm, hobject⟩
    · have hname : kind.name = name := by simpa using List.find?_some h
      exact Or.inl ⟨List.mem_of_find?_eq_some h, hname⟩
  · rintro (⟨hmem, rfl⟩ | ⟨rfl, rfl⟩)
    · exact hlisted kind hmem
    · rfl

/-- A name stands for one kind only. -/
theorem Kind.GoesBy.unique {a b : Kind} {name : String} (ha : a.GoesBy name) (hb : b.GoesBy name) :
    a = b := by
  rw [← Kind.ofName?_eq_some_iff] at ha hb
  exact Option.some.inj (ha.symm.trans hb)

theorem NodeKind.ofName?_eq_some_iff {name : String} {kind : NodeKind} :
    NodeKind.ofName? name = some kind ↔ kind ∈ NodeKind.listed ∧ kind.name = name := by
  have hlisted : ∀ k ∈ NodeKind.listed, NodeKind.ofName? k.name = some k := by decide
  constructor
  · intro h
    have hname : kind.name = name := by simpa using List.find?_some h
    exact ⟨List.mem_of_find?_eq_some h, hname⟩
  · rintro ⟨hmem, rfl⟩
    exact hlisted kind hmem

end Schema

namespace Document

/-- Kinds are known at every depth of lists, every list has an element type, and types that need an
id have one. -/
def TypeRecord.WellFormed : TypeRecord → Prop
  | leaf name typeId =>
    ∃ kind : Kind, kind.GoesBy name ∧ kind ≠ .list ∧ (kind.needsId = true → typeId ≠ 0)
  | containing name typeId element =>
    ∃ kind : Kind, kind.GoesBy name ∧ (kind = .list → element.WellFormed) ∧
      (kind.needsId = true → typeId ≠ 0)

/-- A value that can stand for a type of the given kind. -/
structure ValueRecord.WellFormed (r : ValueRecord) (kind : Kind) : Prop where
  named : r.kind = "" ∨ kind.GoesBy r.kind
  floatBits : ∀ bits, r.floatBits? = some bits →
    (kind = .float32 ∧ bits ≤ 0xffffffff) ∨ kind = .float64
  data : Base64.IsValid r.data

structure SlotRecord.WellFormed (r : SlotRecord) : Prop where
  type : r.type.WellFormed
  default : ∀ value kind, r.default? = some value → kind.GoesBy r.type.kind → value.WellFormed kind

/-- A field is a slot or a group, and not both. -/
@[mk_iff]
structure FieldRecord.WellFormed (r : FieldRecord) : Prop where
  placed : r.slot?.isSome = !r.groupId?.isSome
  slot : ∀ slot, r.slot? = some slot → slot.WellFormed

structure ConstRecord.WellFormed (r : ConstRecord) : Prop where
  type : r.type.WellFormed
  value : ∀ kind : Kind, kind.GoesBy r.type.kind → r.value.WellFormed kind

/-- Only the payload of the node's own kind has to be there, and to be well formed. -/
@[mk_iff]
structure NodeRecord.WellFormed (r : NodeRecord) : Prop where
  kind : r.kind ∈ ["file", "struct", "enum", "interface", "const", "annotation"]
  encoded : Base64.IsValid r.encoded
  struct : r.kind = "struct" → ∃ s, r.struct? = some s ∧ ∀ f ∈ s.fields, f.WellFormed
  enum : r.kind = "enum" → ∃ enumerants?, r.enum? = some enumerants?
  const : r.kind = "const" → ∃ c, r.const? = some c ∧ c.WellFormed

/-- A type keeps its kind at every depth; an id that its kind has no use for is dropped. -/
inductive TypeRecord.Becomes : TypeRecord → TypeRef → Prop where
  | plain {r : TypeRecord} {kind : Kind} (hkind : kind.GoesBy r.kind) (hlist : kind ≠ .list) :
      Becomes r (.plain kind (if kind.needsId then r.typeId else 0))
  | listOf {name : String} {typeId : UInt64} {element : TypeRecord} {type : TypeRef}
      (hkind : Kind.list.GoesBy name) (helement : Becomes element type) :
      Becomes (containing name typeId element) (.listOf type)

structure ValueRecord.Becomes (r : ValueRecord) (v : Value) : Prop where
  scalars : v.bool = r.bool ∧ v.int = r.int ∧ v.uint = r.uint ∧ v.enum = r.enum
  float : v.float = match r.floatBits? with
    | none => r.float
    | some bits => if v.kind = .float32 then .widen bits.toNat else ⟨bits⟩
  text : v.text = r.text
  data : Base64.decode r.data = .ok v.data
  present : v.present = true ↔ r.present = true ∨ (v.kind = .text ∧ v.text ≠ "") ∨
    (v.kind = .data ∧ v.data ≠ [])

/-- A slot has the default that is written, or the zero of its kind. -/
structure SlotRecord.Becomes (r : SlotRecord) (slot : SlotField) : Prop where
  offsets : slot.offset = r.offset ∧ slot.defaultOffset = r.defaultOffset
  type : r.type.Becomes slot.type
  kind : slot.default.kind = slot.type.kind
  written : ∀ value, r.default? = some value → value.Becomes slot.default
  absent : r.default? = none → slot.default = .zero slot.type.kind

structure FieldRecord.Becomes (r : FieldRecord) (f : Field) : Prop where
  name : f.name = r.name
  codeOrder : f.codeOrder = r.codeOrder
  discriminant : f.discriminant = r.discriminant?.getD noDiscriminant
  group : ∀ id, r.groupId? = some id → f.body = .group id
  slot : ∀ record, r.slot? = some record → ∃ slot, f.body = .slot slot ∧ record.Becomes slot

structure StructRecord.Becomes (r : StructRecord) (s : StructInfo) : Prop where
  sizes : s.dataWords = r.dataWords ∧ s.pointers = r.pointers ∧ s.listEncoding = r.listEncoding
  isGroup : s.isGroup = r.isGroup
  discriminant : s.discriminantCount = r.discriminantCount ∧
    s.discriminantOffset = r.discriminantOffset
  fields : List.Forall₂ FieldRecord.Becomes r.fields s.fields

structure ConstRecord.Becomes (r : ConstRecord) (c : ConstInfo) : Prop where
  type : r.type.Becomes c.type
  kind : c.value.kind = c.type.kind
  value : r.value.Becomes c.value
  valueOffset : c.valueOffset = r.valueOffset

/-- An enumerant or a method. -/
def MemberRecord.Becomes (r : MemberRecord) (m : Member) : Prop :=
  m.name = r.name ∧ m.codeOrder = r.codeOrder

def NamedRecord.Becomes (r : NamedRecord) (i : NamedId) : Prop :=
  i.name = r.name ∧ i.id = r.id

def AnnotationRecord.Becomes (r : AnnotationRecord) (a : Annotated) : Prop :=
  a.id = r.id ∧ a.text = r.text

/-- A node has the payload of its kind and no other. -/
structure NodeRecord.Becomes (r : NodeRecord) (n : Node) : Prop where
  ids : n.id = r.id ∧ n.scopeId = r.scopeId
  kind : n.kind ∈ NodeKind.listed ∧ n.kind.name = r.kind
  displayName : n.displayName = r.displayName ∧ n.prefixLength = r.prefixLength.toInt
  nested : List.Forall₂ NamedRecord.Becomes r.nested n.nested
  annotations : List.Forall₂ AnnotationRecord.Becomes r.annotations n.annotations
  encoded : Base64.decode r.encoded = .ok n.encoded
  struct : n.kind = .structNode → ∃ record s, r.struct? = some record ∧ n.struct? = some s ∧
    record.Becomes s
  enum : n.kind = .enumNode → ∃ enumerants? members, r.enum? = some enumerants? ∧
    n.enumerants? = some members ∧
    List.Forall₂ MemberRecord.Becomes (enumerants?.getD []) members
  interface : n.kind = .interfaceNode → ∃ members, n.methods? = some members ∧
    List.Forall₂ MemberRecord.Becomes (r.interface?.getD []) members
  const : n.kind = .constNode → ∃ record c, r.const? = some record ∧ n.const? = some c ∧
    record.Becomes c
  only : (n.kind ≠ .structNode → n.struct? = none) ∧ (n.kind ≠ .enumNode → n.enumerants? = none) ∧
    (n.kind ≠ .interfaceNode → n.methods? = none) ∧ (n.kind ≠ .constNode → n.const? = none)

structure FileRecord.Becomes (r : FileRecord) (f : RequestedFile) : Prop where
  id : f.id = r.id
  filename : f.filename = r.filename
  imports : List.Forall₂ NamedRecord.Becomes r.imports f.imports

theorem checkedKind_eq_ok_iff {name : String} {kind : Kind} :
    checkedKind name = .ok kind ↔ kind.GoesBy name := by
  rw [← Kind.ofName?_eq_some_iff, checkedKind]
  cases Kind.ofName? name <;> simp [fail]

theorem checkedBase64_eq_ok_iff {s : String} {bytes : List UInt8} :
    checkedBase64 s = .ok bytes ↔ Base64.decode s = .ok bytes :=
  mapError_eq_ok_iff

theorem checkedLeaf_eq_ok_iff {kind : Kind} {typeId : UInt64} {type : TypeRef} :
    checkedLeaf kind typeId = .ok type ↔ kind ≠ .list ∧ (kind.needsId = true → typeId ≠ 0) ∧
      type = .plain kind (if kind.needsId then typeId else 0) := by
  cases kind with
  | list => simp [checkedLeaf, fail]
  | enum | struct | interface =>
    by_cases hid : typeId = 0 <;> simp [checkedLeaf, Kind.needsId, fail, hid, eq_comm]
  | _ => simp [checkedLeaf, Kind.needsId, eq_comm]

theorem checkedLeaf_succeeds_iff {kind : Kind} {typeId : UInt64} :
    (∃ type, checkedLeaf kind typeId = .ok type) ↔
      kind ≠ .list ∧ (kind.needsId = true → typeId ≠ 0) := by
  simp [checkedLeaf_eq_ok_iff]

theorem TypeRecord.checked_succeeds_iff (r : TypeRecord) :
    (∃ type, r.checked = .ok type) ↔ r.WellFormed := by
  induction r with
  | leaf name typeId =>
    rw [checked, bind_succeeds_iff, WellFormed]
    refine exists_congr fun kind => ?_
    rw [checkedKind_eq_ok_iff, checkedLeaf_succeeds_iff]
  | containing name typeId element ih =>
    rw [checked, bind_succeeds_iff, WellFormed]
    refine exists_congr fun kind => ?_
    rw [checkedKind_eq_ok_iff]
    refine and_congr_right fun _ => ?_
    cases kind with
    | list =>
      dsimp only
      rw [map_succeeds_iff]
      simp [inside_eq_ok_iff, ih, Kind.needsId]
    | _ => simp [checkedLeaf_succeeds_iff]

theorem TypeRecord.becomes_of_checked {r : TypeRecord} {type : TypeRef} (h : r.checked = .ok type) :
    r.Becomes type := by
  induction r generalizing type with
  | leaf name typeId =>
    obtain ⟨kind, hkind, hleaf⟩ := bind_eq_ok_iff.1 h
    obtain ⟨hlist, -, rfl⟩ := checkedLeaf_eq_ok_iff.1 hleaf
    exact .plain (r := .leaf name typeId) (checkedKind_eq_ok_iff.1 hkind) hlist
  | containing name typeId element ih =>
    obtain ⟨kind, hkind, h⟩ := bind_eq_ok_iff.1 h
    rw [checkedKind_eq_ok_iff] at hkind
    split at h
    · obtain ⟨inner, hinner, h⟩ := bind_eq_ok_iff.1 h
      cases h
      exact .listOf hkind (ih (inside_eq_ok_iff.1 hinner))
    · obtain ⟨hlist, -, rfl⟩ := checkedLeaf_eq_ok_iff.1 h
      exact .plain (r := .containing name typeId element) hkind hlist

theorem TypeRecord.Becomes.kind_goesBy {r : TypeRecord} {type : TypeRef} (h : r.Becomes type) :
    type.kind.GoesBy r.kind := by
  cases h with
  | plain hkind _ => exact hkind
  | listOf hkind _ => exact hkind

theorem ValueRecord.checkedFloat_succeeds_iff (r : ValueRecord) (kind : Kind) :
    (∃ x, r.checkedFloat kind = .ok x) ↔ ∀ bits, r.floatBits? = some bits →
      (kind = .float32 ∧ bits ≤ 0xffffffff) ∨ kind = .float64 := by
  unfold checkedFloat
  cases r.floatBits? with
  | none => simp
  | some bits =>
    cases kind with
    | float32 =>
      by_cases hwide : 0xffffffff < bits
      · have hnot : ¬bits ≤ 0xffffffff := UInt64.not_le.2 hwide
        simp [hwide, hnot, fail]
      · have hle : bits ≤ 0xffffffff := UInt64.not_lt.1 hwide
        simp [hwide, hle]
    | _ => simp [fail]

/-- The value of a record, once its number and its data are known. -/
def ValueRecord.value (r : ValueRecord) (kind : Kind) (float : Double) (data : List UInt8) : Value :=
  ⟨kind, r.bool, r.int, r.uint, float, r.enum, r.text, data,
    r.present || ((kind == .text && r.text != "") || (kind == .data && !data.isEmpty))⟩

theorem ValueRecord.checked_eq_ok_iff {r : ValueRecord} {kind : Kind} {v : Value} :
    r.checked kind = .ok v ↔ (r.kind = "" ∨ kind.GoesBy r.kind) ∧
      ∃ float data, r.checkedFloat kind = .ok float ∧ Base64.decode r.data = .ok data ∧
        r.value kind float data = v := by
  have hrest : (r.checkedFloat kind >>= fun float =>
      if r.data = "" then (pure [] : Checked _) >>= fun data => pure (r.value kind float data)
      else inside .data (checkedBase64 r.data) >>= fun data => pure (r.value kind float data))
      = .ok v ↔ ∃ float data, r.checkedFloat kind = .ok float ∧ Base64.decode r.data = .ok data ∧
        r.value kind float data = v := by
    rw [bind_eq_ok_iff]
    refine exists_congr fun float => ?_
    rw [exists_and_left]
    refine and_congr_right fun _ => ?_
    split_ifs with hempty
    · have hnone : Base64.decode "" = .ok [] := checkedBase64_eq_ok_iff.1 checkedBase64_empty
      rw [map_eq_ok_iff, hempty, hnone]
      simp [pure, Except.pure]
    · simp only [map_eq_ok_iff, inside_eq_ok_iff, checkedBase64_eq_ok_iff]
  unfold ValueRecord.checked
  dsimp only
  by_cases hname : r.kind = ""
  · rw [if_neg (not_not.2 hname)]
    simp only [hname, true_or, true_and]
    exact hrest
  · rw [if_pos hname, bind_eq_ok_iff]
    simp only [hname, false_or]
    constructor
    · rintro ⟨given, hgiven, h⟩
      rw [checkedKind_eq_ok_iff] at hgiven
      by_cases hsame : given = kind
      · rw [if_neg (not_not.2 hsame)] at h
        rw [hsame] at hgiven
        exact ⟨hgiven, hrest.1 h⟩
      · rw [if_pos hsame] at h
        cases h
    · rintro ⟨hgiven, h⟩
      refine ⟨kind, checkedKind_eq_ok_iff.2 hgiven, ?_⟩
      rw [if_neg (by simp)]
      exact hrest.2 h

theorem ValueRecord.checked_succeeds_iff (r : ValueRecord) (kind : Kind) :
    (∃ v, r.checked kind = .ok v) ↔ r.WellFormed kind := by
  simp only [checked_eq_ok_iff]
  constructor
  · rintro ⟨v, hkind, float, data, hfloat, hdata, -⟩
    exact ⟨hkind, (r.checkedFloat_succeeds_iff kind).1 ⟨float, hfloat⟩,
      (Base64.decode_succeeds_iff _).1 ⟨data, hdata⟩⟩
  · intro h
    obtain ⟨float, hfloat⟩ := (r.checkedFloat_succeeds_iff kind).2 h.floatBits
    obtain ⟨data, hdata⟩ := (Base64.decode_succeeds_iff _).2 h.data
    exact ⟨_, h.named, float, data, hfloat, hdata, rfl⟩

theorem ValueRecord.checkedFloat_eq {r : ValueRecord} {kind : Kind} {x : Double}
    (h : r.checkedFloat kind = .ok x) :
    x = match r.floatBits? with
      | none => r.float
      | some bits => if kind = .float32 then .widen bits.toNat else ⟨bits⟩ := by
  unfold checkedFloat at h
  cases hbits : r.floatBits? with
  | none =>
    rw [hbits] at h
    exact (Except.ok.inj h).symm
  | some bits =>
    rw [hbits] at h
    cases kind with
    | float32 =>
      dsimp only at h
      split_ifs at h
      · cases h
      · exact (Except.ok.inj h).symm
    | float64 => exact (Except.ok.inj h).symm
    | _ => cases h

theorem ValueRecord.becomes_of_checked {r : ValueRecord} {kind : Kind} {v : Value}
    (h : r.checked kind = .ok v) : v.kind = kind ∧ r.Becomes v := by
  obtain ⟨-, float, data, hfloat, hdata, rfl⟩ := checked_eq_ok_iff.1 h
  refine ⟨rfl, ⟨rfl, rfl, rfl, rfl⟩, checkedFloat_eq hfloat, rfl, hdata, ?_⟩
  simp [value]

theorem SlotRecord.checked_succeeds_iff (r : SlotRecord) :
    (∃ slot, r.checked = .ok slot) ↔ r.WellFormed := by
  rw [checked, bind_succeeds_iff]
  constructor
  · rintro ⟨type, htype, slot, h⟩
    have hgoes := (TypeRecord.becomes_of_checked htype).kind_goesBy
    refine ⟨(TypeRecord.checked_succeeds_iff _).1 ⟨type, htype⟩, ?_⟩
    intro value kind hvalue hkind
    simp only [hvalue] at h
    obtain ⟨initial, hinitial, -⟩ := map_eq_ok_iff.1 h
    rw [hkind.unique hgoes]
    exact (value.checked_succeeds_iff _).1 ⟨initial, inside_eq_ok_iff.1 hinitial⟩
  · intro h
    obtain ⟨type, htype⟩ := (TypeRecord.checked_succeeds_iff _).2 h.type
    have hgoes := (TypeRecord.becomes_of_checked htype).kind_goesBy
    refine ⟨type, htype, ?_⟩
    cases hdefault : r.default? with
    | none => exact ⟨_, rfl⟩
    | some value =>
      obtain ⟨v, hv⟩ := (value.checked_succeeds_iff _).2 (h.default value _ hdefault hgoes)
      exact map_succeeds_iff.2 ⟨v, inside_eq_ok_iff.2 hv⟩

theorem SlotRecord.becomes_of_checked {r : SlotRecord} {slot : SlotField}
    (h : r.checked = .ok slot) : r.Becomes slot := by
  obtain ⟨htype, hdefault⟩ := checked_eq_ok h
  have hoffsets : slot.offset = r.offset ∧ slot.defaultOffset = r.defaultOffset := by
    obtain ⟨type, -, h⟩ := bind_eq_ok_iff.1 h
    dsimp only at h
    split at h
    · obtain ⟨initial, -, rfl⟩ := map_eq_ok_iff.1 h
      exact ⟨rfl, rfl⟩
    · cases h
      exact ⟨rfl, rfl⟩
  refine ⟨hoffsets, TypeRecord.becomes_of_checked htype, checked_default_kind h, ?_, ?_⟩
  · intro value hvalue
    rcases hdefault with ⟨hnone, -⟩ | ⟨value', hvalue', hchecked⟩
    · cases hvalue.symm.trans hnone
    · cases hvalue.symm.trans hvalue'
      exact (ValueRecord.becomes_of_checked hchecked).2
  · intro hnone
    rcases hdefault with ⟨-, hzero⟩ | ⟨value', hvalue', -⟩
    · exact hzero
    · cases hnone.symm.trans hvalue'

theorem FieldRecord.checked_succeeds_iff (r : FieldRecord) :
    (∃ f, r.checked = .ok f) ↔ r.WellFormed := by
  have hbody : (∃ f, r.checked = .ok f) ↔ ∃ body, r.checkedBody = .ok body := by
    rw [checked, map_succeeds_iff]
    simp only [inside_eq_ok_iff]
  rw [hbody, checkedBody]
  cases hslot : r.slot? with
  | none =>
    cases hgroup : r.groupId? with
    | none => simp [fail, FieldRecord.wellFormed_iff, hslot, hgroup]
    | some id => simp [FieldRecord.wellFormed_iff, hslot, hgroup]
  | some slot =>
    cases hgroup : r.groupId? with
    | none =>
      have hmap : (∃ body, slot.checked.map FieldBody.slot = .ok body) ↔
          ∃ s, slot.checked = .ok s := by
        cases slot.checked <;> simp [Except.map]
      simp [FieldRecord.wellFormed_iff, hslot, hgroup, hmap, slot.checked_succeeds_iff]
    | some id => simp [fail, FieldRecord.wellFormed_iff, hslot, hgroup]

theorem FieldRecord.becomes_of_checked {r : FieldRecord} {f : Field} (h : r.checked = .ok f) :
    r.Becomes f := by
  have hbody := checked_eq_ok h
  obtain ⟨body, -, rfl⟩ := map_eq_ok_iff.1 h
  refine ⟨rfl, rfl, rfl, ?_, ?_⟩
  · intro id hid
    rcases hbody with ⟨id', -, hid', hbody⟩ | ⟨slot, info, hslot, -, -⟩
    · cases hid.symm.trans hid'
      exact hbody
    · -- a record with both is refused
      have hplaced := ((checked_succeeds_iff r).1 ⟨_, h⟩).placed
      simp [hslot, hid] at hplaced
  · intro record hrecord
    rcases hbody with ⟨id, hnone, -, -⟩ | ⟨slot, info, hslot, hinfo, hbody⟩
    · cases hrecord.symm.trans hnone
    · cases hrecord.symm.trans hslot
      exact ⟨info, hbody, SlotRecord.becomes_of_checked hinfo⟩

theorem StructRecord.checked_succeeds_iff (r : StructRecord) :
    (∃ s, r.checked = .ok s) ↔ ∀ f ∈ r.fields, f.WellFormed := by
  rw [checked, map_succeeds_iff, mapM_succeeds_iff]
  simp only [FieldRecord.checked_succeeds_iff]

theorem StructRecord.becomes_of_checked {r : StructRecord} {s : StructInfo}
    (h : r.checked = .ok s) : r.Becomes s := by
  have hfields := checked_eq_ok h
  obtain ⟨fields, -, rfl⟩ := map_eq_ok_iff.1 h
  exact ⟨⟨rfl, rfl, rfl⟩, rfl, ⟨rfl, rfl⟩,
    hfields.imp fun _ _ hf => FieldRecord.becomes_of_checked hf⟩

theorem ConstRecord.checked_succeeds_iff (r : ConstRecord) :
    (∃ c, r.checked = .ok c) ↔ r.WellFormed := by
  rw [checked, bind_succeeds_iff]
  simp only [map_succeeds_iff, inside_eq_ok_iff, ValueRecord.checked_succeeds_iff]
  constructor
  · rintro ⟨type, htype, hvalue⟩
    refine ⟨(TypeRecord.checked_succeeds_iff _).1 ⟨type, htype⟩, ?_⟩
    intro kind hkind
    rw [hkind.unique (TypeRecord.becomes_of_checked htype).kind_goesBy]
    exact hvalue
  · intro h
    obtain ⟨type, htype⟩ := (TypeRecord.checked_succeeds_iff _).2 h.type
    exact ⟨type, htype, h.value _ (TypeRecord.becomes_of_checked htype).kind_goesBy⟩

theorem ConstRecord.becomes_of_checked {r : ConstRecord} {c : ConstInfo} (h : r.checked = .ok c) :
    r.Becomes c := by
  obtain ⟨htype, hvalue⟩ := checked_eq_ok h
  obtain ⟨hkind, hbecomes⟩ := ValueRecord.becomes_of_checked hvalue
  have hoffset : c.valueOffset = r.valueOffset := by
    obtain ⟨type, -, h⟩ := bind_eq_ok_iff.1 h
    obtain ⟨value, -, rfl⟩ := map_eq_ok_iff.1 h
    rfl
  exact ⟨TypeRecord.becomes_of_checked htype, hkind, hbecomes, hoffset⟩

theorem NodeRecord.checked_succeeds_iff (r : NodeRecord) :
    (∃ n, r.checked = .ok n) ↔ r.WellFormed := by
  rw [checked, NodeRecord.wellFormed_iff]
  cases hkind : NodeKind.ofName? r.kind with
  | none =>
    have hnot : ¬r.kind ∈ ["file", "struct", "enum", "interface", "const", "annotation"] := by
      intro hmem
      simp only [List.mem_cons, List.not_mem_nil, or_false] at hmem
      rcases hmem with h | h | h | h | h | h <;> rw [h] at hkind <;> cases hkind
    simp [fail, hnot]
  | some kind =>
    obtain ⟨hlisted, hname⟩ := NodeKind.ofName?_eq_some_iff.1 hkind
    dsimp only
    rw [bind_succeeds_iff]
    simp only [inside_eq_ok_iff, checkedBase64_eq_ok_iff, ← Base64.decode_succeeds_iff]
    cases kind with
    | structNode =>
      cases hstruct : r.struct? with
      | none => simp [← hname, NodeKind.name, fail]
      | some s =>
        simp only [map_succeeds_iff, StructRecord.checked_succeeds_iff]
        simp [← hname, NodeKind.name]
    | constNode =>
      cases hconst : r.const? with
      | none => simp [← hname, NodeKind.name, fail]
      | some c =>
        simp only [map_succeeds_iff, ConstRecord.checked_succeeds_iff]
        simp [← hname, NodeKind.name]
    | enumNode =>
      cases henum : r.enum? with
      | none => simp [← hname, NodeKind.name, fail]
      | some enumerants? => simp [← hname, NodeKind.name, pure, Except.pure]
    | unlistedNode => simp [NodeKind.listed] at hlisted
    | fileNode | interfaceNode | annotationNode => simp [← hname, NodeKind.name, pure, Except.pure]

theorem NamedRecord.forall₂_becomes (rs : List NamedRecord) :
    List.Forall₂ NamedRecord.Becomes rs (rs.map NamedRecord.named) := by
  rw [List.forall₂_map_right_iff, List.forall₂_same]
  exact fun _ _ => ⟨rfl, rfl⟩

theorem MemberRecord.forall₂_becomes (rs : List MemberRecord) :
    List.Forall₂ MemberRecord.Becomes rs (rs.map MemberRecord.member) := by
  rw [List.forall₂_map_right_iff, List.forall₂_same]
  exact fun _ _ => ⟨rfl, rfl⟩

theorem AnnotationRecord.forall₂_becomes (rs : List AnnotationRecord) :
    List.Forall₂ AnnotationRecord.Becomes rs (rs.map fun a => ⟨a.id, a.text⟩) := by
  rw [List.forall₂_map_right_iff, List.forall₂_same]
  exact fun _ _ => ⟨rfl, rfl⟩

theorem NodeRecord.becomes_of_checked {r : NodeRecord} {n : Node} (h : r.checked = .ok n) :
    r.Becomes n := by
  have hnested := NamedRecord.forall₂_becomes r.nested
  have hannotations := AnnotationRecord.forall₂_becomes r.annotations
  rw [checked] at h
  cases hkind : NodeKind.ofName? r.kind with
  | none =>
    rw [hkind] at h
    cases h
  | some kind =>
    have hnamed := NodeKind.ofName?_eq_some_iff.1 hkind
    rw [hkind] at h
    obtain ⟨encoded, hencoded, h⟩ := bind_eq_ok_iff.1 h
    rw [inside_eq_ok_iff, checkedBase64_eq_ok_iff] at hencoded
    cases kind with
    | structNode =>
      cases hstruct : r.struct? with
      | none => simp [hstruct, fail] at h
      | some record =>
        simp only [hstruct] at h
        obtain ⟨s, hs, rfl⟩ := map_eq_ok_iff.1 h
        exact ⟨⟨rfl, rfl⟩, hnamed, ⟨rfl, rfl⟩, hnested, hannotations, hencoded,
          fun _ => ⟨record, s, hstruct, rfl, StructRecord.becomes_of_checked hs⟩, nofun, nofun,
          nofun, by simp⟩
    | constNode =>
      cases hconst : r.const? with
      | none => simp [hconst, fail] at h
      | some record =>
        simp only [hconst] at h
        obtain ⟨c, hc, rfl⟩ := map_eq_ok_iff.1 h
        exact ⟨⟨rfl, rfl⟩, hnamed, ⟨rfl, rfl⟩, hnested, hannotations, hencoded, nofun, nofun,
          nofun, fun _ => ⟨record, c, hconst, rfl, ConstRecord.becomes_of_checked hc⟩, by simp⟩
    | enumNode =>
      cases henum : r.enum? with
      | none => simp [henum, fail] at h
      | some enumerants? =>
        simp only [henum] at h
        cases h
        exact ⟨⟨rfl, rfl⟩, hnamed, ⟨rfl, rfl⟩, hnested, hannotations, hencoded, nofun,
          fun _ => ⟨enumerants?, _, henum, rfl, MemberRecord.forall₂_becomes _⟩, nofun, nofun,
          by simp⟩
    | interfaceNode =>
      cases h
      exact ⟨⟨rfl, rfl⟩, hnamed, ⟨rfl, rfl⟩, hnested, hannotations, hencoded, nofun, nofun,
        fun _ => ⟨_, rfl, MemberRecord.forall₂_becomes _⟩, nofun, by simp⟩
    | fileNode | annotationNode | unlistedNode =>
      cases h
      exact ⟨⟨rfl, rfl⟩, hnamed, ⟨rfl, rfl⟩, hnested, hannotations, hencoded, nofun, nofun, nofun,
        nofun, by simp⟩

theorem checkedNodes_succeeds_iff (index : Nat) (rs : List NodeRecord) :
    (∃ nodes, checkedNodes index rs = .ok nodes) ↔ ∀ r ∈ rs, r.WellFormed := by
  induction rs generalizing index with
  | nil => simp [checkedNodes]
  | cons r rs ih =>
    rw [checkedNodes, bind_succeeds_iff]
    simp only [mapError_eq_ok_iff, map_succeeds_iff, ih, List.forall_mem_cons,
      ← NodeRecord.checked_succeeds_iff r, exists_and_right]

/-- The first node that is not well formed ends the conversion, and the problem names it. -/
theorem checkedNodes_eq_error {index : Nat} {rs : List NodeRecord} {e : Problem}
    (h : checkedNodes index rs = .error e) :
    ∃ before record after problem, rs = before ++ record :: after ∧
      (∀ r ∈ before, r.WellFormed) ∧ ¬record.WellFormed ∧
      e = .badNode (index + before.length) record.id problem := by
  induction rs generalizing index with
  | nil => cases h
  | cons r rs ih =>
    rw [checkedNodes] at h
    cases hr : r.checked with
    | error problem =>
      rw [hr] at h
      cases h
      refine ⟨[], r, rs, problem, rfl, by simp, ?_, rfl⟩
      rw [← NodeRecord.checked_succeeds_iff, hr]
      simp
    | ok node =>
      have hwell : r.WellFormed := (NodeRecord.checked_succeeds_iff r).1 ⟨node, hr⟩
      rw [hr] at h
      cases hrest : checkedNodes (index + 1) rs with
      | ok nodes =>
        simp [hrest, Except.mapError, bind, Except.bind, pure, Except.pure] at h
      | error e' =>
        obtain rfl : e' = e := by simpa [hrest, Except.mapError, bind, Except.bind] using h
        obtain ⟨before, record, after, problem, hsplit, hbefore, hbad, hproblem⟩ := ih hrest
        refine ⟨r :: before, record, after, problem, by rw [hsplit]; rfl, ?_, hbad, ?_⟩
        · intro b hb
          rcases List.mem_cons.1 hb with rfl | hb
          · exact hwell
          · exact hbefore b hb
        · rw [hproblem, List.length_cons, Nat.add_right_comm, Nat.add_assoc]

theorem FileRecord.forall₂_becomes (rs : List FileRecord) :
    List.Forall₂ FileRecord.Becomes rs (rs.map FileRecord.requested) := by
  rw [List.forall₂_map_right_iff, List.forall₂_same]
  exact fun r _ => ⟨rfl, rfl, NamedRecord.forall₂_becomes r.imports⟩

/-- A document has a request exactly if its nodes are well formed. The request follows it record by
record; where there is none, the problem names the first node that is not well formed. -/
theorem request_exactly_of_wellFormed (d : Document) :
    ((∃ r, request d = .ok r) ↔ ∀ record ∈ d.nodes?.getD [], record.WellFormed) ∧
    (∀ r, request d = .ok r →
      List.Forall₂ NodeRecord.Becomes (d.nodes?.getD []) r.nodes ∧
      List.Forall₂ FileRecord.Becomes (d.files?.getD []) r.files) ∧
    ∀ e, request d = .error e →
      ∃ before record after problem, d.nodes?.getD [] = before ++ record :: after ∧
        (∀ r ∈ before, r.WellFormed) ∧ ¬record.WellFormed ∧
        e = .badNode before.length record.id problem ∧
        e.message = "invalid request document: node " ++ decimal before.length ++ " (@"
          ++ idText record.id ++ "): " ++ problem.message := by
  refine ⟨?_, ?_, ?_⟩
  · rw [request, map_succeeds_iff, checkedNodes_succeeds_iff]
  · intro r h
    obtain ⟨hnodes, hfiles⟩ := request_eq_ok_iff.1 h
    rw [hfiles]
    exact ⟨hnodes.imp fun _ _ hn => NodeRecord.becomes_of_checked hn,
      FileRecord.forall₂_becomes _⟩
  · intro e h
    rw [request] at h
    cases hnodes : checkedNodes 0 (d.nodes?.getD []) with
    | ok nodes => simp [hnodes, bind, Except.bind, pure, Except.pure] at h
    | error e' =>
      obtain rfl : e' = e := by simpa [hnodes, bind, Except.bind] using h
      obtain ⟨before, record, after, problem, hsplit, hbefore, hbad, hproblem⟩ :=
        checkedNodes_eq_error hnodes
      rw [Nat.zero_add] at hproblem
      refine ⟨before, record, after, problem, hsplit, hbefore, hbad, hproblem, ?_⟩
      rw [hproblem]
      rfl

namespace Almanac

def fileRecord : NodeRecord :=
  { (default : NodeRecord) with
    id := 1
    kind := "file"
    displayName := "almanac.capnp"
    encoded := "AQ=="
    nested := [⟨"Day", 2⟩] }

/-- A day has a title with a default and rows of some type. -/
def dayRecord (rows : TypeRecord) : NodeRecord :=
  { (default : NodeRecord) with
    id := 2
    kind := "struct"
    displayName := "almanac.capnp:Day"
    scopeId := 1
    struct? := some
      { (default : StructRecord) with
        pointers := 2
        fields := [⟨"title", 0, none,
            some ⟨0, .leaf "text" 0, some { (default : ValueRecord) with text := "hi" }, 2⟩, none⟩,
          ⟨"rows", 1, none, some ⟨1, rows, none, 0⟩, none⟩] } }

def document (rows : TypeRecord) : Document :=
  ⟨some [fileRecord, dayRecord rows], some [⟨1, "almanac.capnp", [⟨"other.capnp", 3⟩]⟩]⟩

end Almanac

/-- Rows that are lists of objects can be taken into a request. Rows that are lists of lists of
nothing are a problem of the second node. -/
theorem request_exactly_of_wellFormed_almanac :
    (∃ r, request (Almanac.document (.containing "list" 0 (.leaf "object" 0))) = .ok r ∧
      List.Forall₂ NodeRecord.Becomes
        [Almanac.fileRecord, Almanac.dayRecord (.containing "list" 0 (.leaf "object" 0))] r.nodes) ∧
    request (Almanac.document (.containing "list" 0 (.leaf "list" 0))) =
      .error (.badNode 1 2 ⟨[.member "rows", .element], .listWithoutElement⟩) ∧
    Almanac.fileRecord.WellFormed ∧
    ¬(Almanac.dayRecord (.containing "list" 0 (.leaf "list" 0))).WellFormed := by
  have hgood : (request (Almanac.document (.containing "list" 0 (.leaf "object" 0)))).isOk = true := by
    decide +kernel
  have hbad : request (Almanac.document (.containing "list" 0 (.leaf "list" 0))) =
      .error (.badNode 1 2 ⟨[.member "rows", .element], .listWithoutElement⟩) := by
    decide +kernel
  refine ⟨?_, hbad, ?_⟩
  · cases hr : request (Almanac.document (.containing "list" 0 (.leaf "object" 0))) with
    | error e => simp [hr, Except.isOk, Except.toBool] at hgood
    | ok r => exact ⟨r, rfl, ((request_exactly_of_wellFormed _).2.1 r hr).1⟩
  · obtain ⟨before, record, after, problem, hsplit, hbefore, hnot, hproblem, -⟩ :=
      (request_exactly_of_wellFormed _).2.2 _ hbad
    have hlength : before.length = 1 := (Problem.badNode.inj hproblem).1.symm
    obtain ⟨first, rfl⟩ := List.length_eq_one_iff.1 hlength
    have hcons : [Almanac.fileRecord, Almanac.dayRecord (.containing "list" 0 (.leaf "list" 0))] =
        first :: record :: after := hsplit
    obtain ⟨rfl, hrest⟩ := List.cons.inj hcons
    obtain ⟨rfl, -⟩ := List.cons.inj hrest
    exact ⟨hbefore _ List.mem_cons_self, hnot⟩

end Document
end SchemaBindings
