import Mathlib.Data.List.Basic
import SchemaBindings.Proofs.Contract.Encoding

namespace SchemaBindings

namespace Contract

/-- The names that a node's kind may have. -/
def nodeKindNames : List String :=
  ["file", "struct", "enum", "interface", "const", "annotation"]

/-- The names that the kind of a type or value may have. -/
def typeKindNames : List String :=
  ["void", "bool", "int8", "int16", "int32", "int64", "uint8", "uint16", "uint32", "uint64",
    "float32", "float64", "text", "data", "list", "enum", "struct", "interface", "anyPointer",
    "object"]

/-- A character of the alphabet that bytes are written in. -/
def IsLetter (c : Char) : Prop :=
  ('A' ≤ c ∧ c ≤ 'Z') ∨ ('a' ≤ c ∧ c ≤ 'z') ∨ ('0' ≤ c ∧ c ≤ '9') ∨ c = '+' ∨ c = '/'

/-- Letters, and behind them at most two signs of padding. -/
def IsBase64Text (s : String) : Prop :=
  ∃ letters padding, s.toList = letters ++ List.replicate padding '=' ∧
    (∀ c ∈ letters, IsLetter c) ∧ padding ≤ 2

end Contract

open Contract

namespace Document

def TypeRecord.Obeys : TypeRecord → Prop
  | leaf kind _ => kind ∈ typeKindNames
  | containing kind _ element => kind ∈ typeKindNames ∧ element.Obeys

def ValueRecord.Obeys (r : ValueRecord) : Prop :=
  (r.kind = "" ∨ r.kind ∈ typeKindNames) ∧ IsBase64Text r.data

def SlotRecord.Obeys (r : SlotRecord) : Prop :=
  r.type.Obeys ∧ ∀ value ∈ r.default?, value.Obeys

def FieldRecord.Obeys (r : FieldRecord) : Prop :=
  r.name ≠ "" ∧ ∀ slot ∈ r.slot?, slot.Obeys

def StructRecord.Obeys (r : StructRecord) : Prop :=
  r.listEncoding ≤ 7 ∧ ∀ field ∈ r.fields, field.Obeys

def ConstRecord.Obeys (r : ConstRecord) : Prop :=
  r.type.Obeys ∧ r.value.Obeys

/-- Payloads are looked at whether or not they fit the node's kind. -/
structure NodeRecord.Obeys (r : NodeRecord) : Prop where
  kind : r.kind ∈ nodeKindNames
  displayName : r.displayName ≠ ""
  prefixLength : 0 ≤ r.prefixLength.toInt
  encoded : IsBase64Text r.encoded
  nested : ∀ entry ∈ r.nested, entry.name ≠ ""
  struct : ∀ s ∈ r.struct?, s.Obeys
  enum : ∀ enumerants? ∈ r.enum?, ∃ enumerants, enumerants? = some enumerants ∧
    ∀ m ∈ enumerants, m.name ≠ ""
  interface : ∀ methods ∈ r.interface?, ∀ m ∈ methods, m.name ≠ ""
  const : ∀ c ∈ r.const?, c.Obeys

def FileRecord.Obeys (r : FileRecord) : Prop :=
  r.filename ≠ "" ∧ ∀ entry ∈ r.imports, entry.name ≠ ""

/-- The values of a node: the defaults of its fields, and that of a constant. -/
def NodeRecord.values (r : NodeRecord) : List ValueRecord :=
  (r.struct?.toList.flatMap fun s =>
    s.fields.flatMap fun f => (f.slot?.bind SlotRecord.default?).toList)
    ++ r.const?.toList.map ConstRecord.value

def TypeRecord.texts : TypeRecord → List String
  | leaf kind _ => [kind]
  | containing kind _ element => kind :: element.texts

def ValueRecord.texts (r : ValueRecord) : List String :=
  [r.kind, r.text, r.data]

def SlotRecord.texts (r : SlotRecord) : List String :=
  r.type.texts ++ r.default?.toList.flatMap ValueRecord.texts

def FieldRecord.texts (r : FieldRecord) : List String :=
  r.name :: r.slot?.toList.flatMap SlotRecord.texts

def StructRecord.texts (r : StructRecord) : List String :=
  r.fields.flatMap FieldRecord.texts

def ConstRecord.texts (r : ConstRecord) : List String :=
  r.type.texts ++ r.value.texts

def NodeRecord.texts (r : NodeRecord) : List String :=
  [r.kind, r.displayName, r.encoded] ++ r.nested.map NamedRecord.name
    ++ r.annotations.map AnnotationRecord.text ++ r.struct?.toList.flatMap StructRecord.texts
    ++ (r.enum?.toList.flatMap fun enumerants? => (enumerants?.getD []).map MemberRecord.name)
    ++ (r.interface?.toList.flatMap fun methods => methods.map MemberRecord.name)
    ++ r.const?.toList.flatMap ConstRecord.texts

def FileRecord.texts (r : FileRecord) : List String :=
  r.filename :: r.imports.map NamedRecord.name

/-- What a request says obeys the contract, record by record. -/
def Obeys (d : Document) : Prop :=
  (∀ node ∈ d.nodes?.getD [], node.Obeys) ∧ ∀ file ∈ d.files?.getD [], file.Obeys

def values (d : Document) : List ValueRecord :=
  (d.nodes?.getD []).flatMap NodeRecord.values

/-- Every text of a document, whether it is written or left out for being empty. -/
def texts (d : Document) : List String :=
  (d.nodes?.getD []).flatMap NodeRecord.texts ++ (d.files?.getD []).flatMap FileRecord.texts

end Document

namespace Contract

open SchemaBindings.Document SchemaBindings.Number SchemaBindings.Schema

theorem isBase64Char_iff (c : Char) : isBase64Char c = true ↔ IsLetter c := by
  have hclasses : isBase64Char c = ((decide ('A' ≤ c ∧ c ≤ 'Z')
      || decide ('a' ≤ c) && decide (c ≤ 'z') || decide ('0' ≤ c) && decide (c ≤ '9'))
      || c == '+' || c == '/') := rfl
  rw [hclasses, IsLetter]
  simp only [Bool.or_eq_true, Bool.and_eq_true, decide_eq_true_eq, beq_iff_eq, or_assoc]

theorem isBase64_iff (s : String) : isBase64 s = true ↔ IsBase64Text s := by
  unfold isBase64 IsBase64Text
  simp only [Bool.and_eq_true, decide_eq_true_eq]
  constructor
  · rintro ⟨hlength, hpadding⟩
    have hsigns : s.toList.dropWhile isBase64Char =
        List.replicate (s.toList.dropWhile isBase64Char).length '=' := by
      rw [List.eq_replicate_iff]
      refine ⟨rfl, ?_⟩
      intro c hc
      exact beq_iff_eq.1 (List.all_eq_true.1 hpadding c hc)
    refine ⟨s.toList.takeWhile isBase64Char, _, ?_, ?_, hlength⟩
    · rw [← hsigns, List.takeWhile_append_dropWhile]
    · intro c hc
      exact (isBase64Char_iff c).1 (List.all_eq_true.1 List.all_takeWhile c hc)
  · rintro ⟨letters, padding, htext, hletters, hle⟩
    -- Padding is no letter, so what is dropped as letters ends where the padding begins.
    have hsign : isBase64Char '=' = false := by decide
    have hrest : s.toList.dropWhile isBase64Char = List.replicate padding '=' := by
      rw [htext, List.dropWhile_append_of_pos fun c hc => (isBase64Char_iff c).2 (hletters c hc)]
      cases padding with
      | zero => rfl
      | succ n => rw [List.replicate_succ, List.dropWhile_cons_of_neg (by simp [hsign])]
    rw [hrest]
    simp [hle]

theorem nodeKind_eq : Rule.nodeKind = .oneOf nodeKindNames :=
  rfl

theorem typeKind_eq : Rule.typeKind = .oneOf typeKindNames :=
  rfl

theorem named_admits (r : NamedRecord) :
    (Rule.record .named).admits r.encode = true ↔ r.name ≠ "" := by
  rw [NamedRecord.encode, Rule.admits_record, Rule.admitsMembers_append,
    Rule.admitsMembers_entry rfl, Rule.admitsMembers_count rfl r.id.toNat_lt,
    Rule.filledText_admits, Bool.and_true, bne_iff_ne]

theorem member_admits (r : MemberRecord) :
    (Rule.record .member).admits r.encode = true ↔ r.name ≠ "" := by
  rw [MemberRecord.encode, Rule.admits_record, Rule.admitsMembers_append,
    Rule.admitsMembers_entry rfl, Rule.admitsMembers_count rfl r.codeOrder.toNat_lt,
    Rule.filledText_admits, Bool.and_true, bne_iff_ne]

theorem annotation_admits (r : AnnotationRecord) :
    (Rule.record .remark).admits r.encode = true := by
  rw [AnnotationRecord.encode, Rule.admits_record, Rule.admitsMembers_append,
    Rule.admitsMembers_count rfl r.id.toNat_lt,
    Rule.admitsMembers_optional rfl (Rule.text_admits r.text), Bool.and_true]

theorem type_admits (r : TypeRecord) :
    (Rule.record .type).admits r.encode = true ↔ r.Obeys := by
  induction r with
  | leaf kind typeId =>
    rw [TypeRecord.encode, Rule.admits_record, Rule.admitsMembers_append,
      Rule.admitsMembers_entry rfl, Rule.admitsMembers_countIf rfl typeId.toNat_lt, typeKind_eq,
      Rule.oneOf_admits, Bool.and_true, List.contains_iff_mem]
    rfl
  | containing kind typeId element ih =>
    rw [TypeRecord.encode, Rule.admits_record, Rule.admitsMembers_append,
      Rule.admitsMembers_append, Rule.admitsMembers_entry rfl, Rule.admitsMembers_entry rfl,
      Rule.admitsMembers_countIf rfl typeId.toNat_lt, typeKind_eq, Rule.oneOf_admits, Bool.and_true,
      Bool.and_eq_true, List.contains_iff_mem, ih]
    rfl

/-- A text that is left out when it is empty. -/
theorem optional_text {admitted : Bool} {s : String} :
    (!(s != "") || admitted) = true ↔ s = "" ∨ admitted = true := by
  simp

theorem isBase64Text_empty : IsBase64Text "" :=
  ⟨[], 0, rfl, by simp, by simp⟩

theorem optional_base64 (s : String) :
    (!(s != "") || isBase64 s) = true ↔ IsBase64Text s := by
  rw [optional_text, isBase64_iff]
  constructor
  · rintro (rfl | hs)
    · exact isBase64Text_empty
    · exact hs
  · exact Or.inr

theorem value_admits (r : ValueRecord) :
    (Rule.record .value).admits r.encode = true ↔ r.Obeys := by
  have hint : (Rule.integer none none).admits (.ofInt r.int.toInt) = true := rfl
  rw [ValueRecord.encode, Rule.admits_record]
  simp only [Rule.admitsMembers_append]
  -- Of the ten members only the kind and the data can break their rules.
  rw [Rule.admitsMembers_entryIf rfl, Rule.admitsMembers_optional rfl (Rule.flag_admits r.bool),
    Rule.admitsMembers_optional rfl hint, Rule.admitsMembers_countIf rfl r.uint.toNat_lt,
    Rule.admitsMembers_optional rfl (Rule.number_admits r.float),
    Rule.admitsMembers_countOf? rfl UInt64.toNat_lt,
    Rule.admitsMembers_countIf rfl r.enum.toNat_lt,
    Rule.admitsMembers_optional rfl (Rule.text_admits r.text), Rule.admitsMembers_entryIf rfl,
    Rule.admitsMembers_optional rfl (Rule.flag_admits r.present), typeKind_eq, Rule.oneOf_admits,
    Rule.base64_admits]
  simp only [Bool.and_true, Bool.and_eq_true]
  rw [optional_text, optional_base64, List.contains_iff_mem]
  rfl

theorem slot_admits (r : SlotRecord) :
    (Rule.record .slot).admits r.encode = true ↔ r.Obeys := by
  rw [SlotRecord.encode, Rule.admits_record]
  simp only [Rule.admitsMembers_append]
  rw [Rule.admitsMembers_count rfl r.offset.toNat_lt, Rule.admitsMembers_entry rfl,
    Rule.admitsMembers_entryOf? rfl, Rule.admitsMembers_countIf rfl r.defaultOffset.toNat_lt]
  simp only [Bool.true_and, Bool.and_true, Bool.and_eq_true, type_admits, Option.all_eq_true,
    value_admits]
  rfl

theorem group_admits (id : UInt64) : (Rule.record .group).admits (encodeGroup id) = true := by
  rw [encodeGroup, Rule.admits_record, Rule.admitsMembers_count rfl id.toNat_lt]

theorem field_admits (r : FieldRecord) :
    (Rule.record .field).admits r.encode = true ↔ r.Obeys := by
  rw [FieldRecord.encode, Rule.admits_record]
  simp only [Rule.admitsMembers_append]
  rw [Rule.admitsMembers_entry rfl, Rule.admitsMembers_count rfl r.codeOrder.toNat_lt,
    Rule.admitsMembers_countOf? rfl UInt16.toNat_lt, Rule.admitsMembers_entryOf? rfl,
    Rule.admitsMembers_entryOf? rfl, Rule.filledText_admits]
  simp only [Bool.and_true, Bool.and_eq_true, bne_iff_ne, Option.all_eq_true, slot_admits,
    group_admits, implies_true, and_true]
  rfl

theorem struct_admits (r : StructRecord) :
    (Rule.record .struct).admits r.encode = true ↔ r.Obeys := by
  have hencoding : (Rule.integer (some 0) (some 7)).admits (ofNat r.listEncoding.toNat) = true ↔
      r.listEncoding ≤ 7 := by
    have hseven : (7 : UInt16).toNat = 7 := rfl
    rw [ofNat, Rule.integer_admits_ofInt, UInt16.le_iff_toNat_le, hseven]
    simp only [Option.all_some, Bool.and_eq_true, decide_eq_true_eq]
    omega
  rw [StructRecord.encode, Rule.admits_record]
  simp only [Rule.admitsMembers_append]
  rw [Rule.admitsMembers_count rfl r.dataWords.toNat_lt,
    Rule.admitsMembers_count rfl r.pointers.toNat_lt, Rule.admitsMembers_entry rfl,
    Rule.admitsMembers_optional rfl (Rule.flag_admits r.isGroup),
    Rule.admitsMembers_countIf rfl r.discriminantCount.toNat_lt,
    Rule.admitsMembers_countIf rfl r.discriminantOffset.toNat_lt, Rule.admitsMembers_listEntry rfl]
  simp only [Bool.true_and, Bool.and_true, Bool.and_eq_true, hencoding, List.all_eq_true,
    field_admits]
  rfl

theorem enum_admits (enumerants? : Option (List MemberRecord)) :
    (Rule.record .enumeration).admits (encodeEnum enumerants?) = true ↔
      ∃ enumerants, enumerants? = some enumerants ∧ ∀ m ∈ enumerants, m.name ≠ "" := by
  rw [encodeEnum, Rule.admits_record, Rule.admitsMembers_entry rfl, Rule.listOf_admits_listOrNull]
  cases enumerants? with
  | none => simp
  | some enumerants => simp [member_admits]

theorem interface_admits (methods : List MemberRecord) :
    (Rule.record .interface).admits (encodeInterface methods) = true ↔
      ∀ m ∈ methods, m.name ≠ "" := by
  rw [encodeInterface, Rule.admits_record, Rule.admitsMembers_listEntry rfl]
  simp only [List.all_eq_true, member_admits]

theorem const_admits (r : ConstRecord) :
    (Rule.record .constant).admits r.encode = true ↔ r.Obeys := by
  rw [ConstRecord.encode, Rule.admits_record]
  simp only [Rule.admitsMembers_append]
  rw [Rule.admitsMembers_entry rfl, Rule.admitsMembers_entry rfl,
    Rule.admitsMembers_countIf rfl r.valueOffset.toNat_lt]
  simp only [Bool.and_true, Bool.and_eq_true, type_admits, value_admits]
  rfl

theorem node_admits (r : NodeRecord) :
    (Rule.record .node).admits r.encode = true ↔ r.Obeys := by
  have hprefix : (!(r.prefixLength != 0) ||
      (Rule.integer (some 0) none).admits (.ofInt r.prefixLength.toInt)) = true ↔
      0 ≤ r.prefixLength.toInt := by
    rw [Rule.integer_admits_ofInt]
    -- A length of zero is left out, and it would be admitted.
    by_cases hzero : r.prefixLength = 0
    · simp [hzero]
    · simp [hzero]
  rw [NodeRecord.encode, Rule.admits_record]
  simp only [Rule.admitsMembers_append]
  rw [Rule.admitsMembers_count rfl r.id.toNat_lt, Rule.admitsMembers_entry rfl,
    Rule.admitsMembers_entry rfl, Rule.admitsMembers_entryIf rfl,
    Rule.admitsMembers_countIf rfl r.scopeId.toNat_lt, Rule.admitsMembers_entryIf rfl,
    Rule.admitsMembers_listEntry rfl, Rule.admitsMembers_listEntry rfl,
    Rule.admitsMembers_entryOf? rfl, Rule.admitsMembers_entryOf? rfl,
    Rule.admitsMembers_entryOf? rfl, Rule.admitsMembers_entryOf? rfl, nodeKind_eq,
    Rule.oneOf_admits, Rule.filledText_admits, Rule.base64_admits]
  simp only [Bool.true_and, Bool.and_true, Bool.and_eq_true, hprefix, optional_base64, bne_iff_ne,
    List.contains_iff_mem, List.all_eq_true, Option.all_eq_true, named_admits, annotation_admits,
    struct_admits, enum_admits, interface_admits, const_admits, implies_true, and_assoc]
  constructor
  · rintro ⟨hkind, hname, hlength, hencoded, hnested, -, hstruct, henum, hmethods, hconst⟩
    exact ⟨hkind, hname, hlength, hencoded, hnested, hstruct, henum, hmethods, hconst⟩
  · intro h
    exact ⟨h.kind, h.displayName, h.prefixLength, h.encoded, h.nested, trivial, h.struct, h.enum,
      h.interface, h.const⟩

theorem file_admits (r : FileRecord) :
    (Rule.record .file).admits r.encode = true ↔ r.Obeys := by
  rw [FileRecord.encode, Rule.admits_record]
  simp only [Rule.admitsMembers_append]
  rw [Rule.admitsMembers_count rfl r.id.toNat_lt, Rule.admitsMembers_entry rfl,
    Rule.admitsMembers_listEntry rfl, Rule.filledText_admits]
  simp only [Bool.true_and, Bool.and_eq_true, bne_iff_ne, List.all_eq_true, named_admits]
  rfl

theorem request_admits (d : Document) :
    requestRule.admits (Document.encode d) = true ↔ d.Obeys := by
  rw [requestRule, Document.encode, Rule.admits_record, Rule.admitsMembers_append,
    Rule.admitsMembers_entry rfl, Rule.admitsMembers_entry rfl, Rule.admits_listOrNull,
    Rule.admits_listOrNull]
  simp only [Bool.and_eq_true, List.all_eq_true, node_admits, file_admits]
  rfl

theorem type_legible (r : TypeRecord) :
    isLegible r.encode = r.texts.all isLegibleText := by
  induction r with
  | leaf kind typeId => simp [TypeRecord.encode, TypeRecord.texts]
  | containing kind typeId element ih => simp [TypeRecord.encode, TypeRecord.texts, ih]

theorem value_legible (r : ValueRecord) :
    isLegible r.encode = r.texts.all isLegibleText := by
  simp [ValueRecord.encode, ValueRecord.texts]

theorem slot_legible (r : SlotRecord) :
    isLegible r.encode = r.texts.all isLegibleText := by
  simp [SlotRecord.encode, SlotRecord.texts, type_legible, value_legible]

theorem field_legible (r : FieldRecord) :
    isLegible r.encode = r.texts.all isLegibleText := by
  simp [FieldRecord.encode, FieldRecord.texts, encodeGroup, slot_legible]

theorem struct_legible (r : StructRecord) :
    isLegible r.encode = r.texts.all isLegibleText := by
  simp [StructRecord.encode, StructRecord.texts, field_legible]

theorem const_legible (r : ConstRecord) :
    isLegible r.encode = r.texts.all isLegibleText := by
  simp [ConstRecord.encode, ConstRecord.texts, type_legible, value_legible]

theorem named_legible (r : NamedRecord) : isLegible r.encode = isLegibleText r.name := by
  simp [NamedRecord.encode]

theorem member_legible (r : MemberRecord) : isLegible r.encode = isLegibleText r.name := by
  simp [MemberRecord.encode]

theorem annotation_legible (r : AnnotationRecord) :
    isLegible r.encode = isLegibleText r.text := by
  simp [AnnotationRecord.encode]

theorem node_legible (r : NodeRecord) :
    isLegible r.encode = r.texts.all isLegibleText := by
  simp [NodeRecord.encode, NodeRecord.texts, encodeEnum, encodeInterface, Function.comp_def,
    named_legible, annotation_legible, member_legible, struct_legible, const_legible]

theorem file_legible (r : FileRecord) :
    isLegible r.encode = r.texts.all isLegibleText := by
  simp [FileRecord.encode, FileRecord.texts, Function.comp_def, named_legible]

/-- A document can be read again unless one of its texts holds the byte order mark. -/
theorem document_legible (d : Document) :
    isLegible (Document.encode d) = true ↔ ∀ s ∈ d.texts, orderMark ∉ s.toList := by
  have htexts : isLegible (Document.encode d) = d.texts.all isLegibleText := by
    simp [Document.encode, Document.texts, node_legible, file_legible]
  rw [htexts, List.all_eq_true]
  simp only [isLegibleText, Bool.not_eq_true', List.contains_eq_mem, decide_eq_false_iff_not]

theorem field_isFinite (r : FieldRecord) :
    r.isFinite = (r.slot?.bind SlotRecord.default?).toList.all fun v => v.float.isFinite := by
  unfold FieldRecord.isFinite
  cases r.slot?.bind SlotRecord.default? with
  | none => rfl
  | some value => simp

theorem node_isFinite (r : NodeRecord) :
    r.isFinite = r.values.all fun v => v.float.isFinite := by
  have hfields (s : StructRecord) : s.fields.all FieldRecord.isFinite =
      (s.fields.flatMap fun f => (f.slot?.bind SlotRecord.default?).toList).all
        fun v => v.float.isFinite := by
    rw [List.all_flatMap, funext field_isFinite]
  unfold NodeRecord.isFinite NodeRecord.values
  rw [List.all_append]
  cases r.struct? with
  | none => cases r.const? <;> simp
  | some s => cases r.const? <;> simp [hfields]

theorem document_isFinite (d : Document) :
    d.isFinite = true ↔ ∀ v ∈ d.values, v.float.isFinite = true := by
  have hnodes : d.isFinite = d.values.all fun v => v.float.isFinite := by
    rw [Document.isFinite, Document.values, List.all_flatMap, funext node_isFinite]
  rw [hnodes, List.all_eq_true]

/-- A document is accepted exactly if its numbers and texts can be written and read again and it
obeys the contract, and one that breaks the contract alone is said to violate it. -/
theorem accepted_iff_obeys (d : Document) :
    (checkDocument d = .ok () ↔
      (∀ v ∈ d.values, v.float.isFinite = true) ∧ (∀ s ∈ d.texts, orderMark ∉ s.toList) ∧
        d.Obeys) ∧
    (checkDocument d = .error .violated ↔
      (∀ v ∈ d.values, v.float.isFinite = true) ∧ (∀ s ∈ d.texts, orderMark ∉ s.toList) ∧
        ¬d.Obeys) := by
  rw [← document_isFinite, ← document_legible, ← request_admits]
  unfold checkDocument encode? checkTree
  by_cases hfinite : d.isFinite = true
  · by_cases hlegible : isLegible d.encode = true
    · by_cases hadmits : requestRule.admits d.encode = true
      · simp [hfinite, hlegible, hadmits]
      · simp [hfinite, hlegible, hadmits]
    · simp [hfinite, hlegible]
  · simp [hfinite]

/-- One file, with the byte order mark in its name. -/
def markedDocument : Document :=
  ⟨some [⟨1, "file", "a\ufeff.capnp", 0, 0, "", [], [], none, none, none, none⟩], none⟩

theorem markedDocument_obeys : markedDocument.Obeys := by
  refine ⟨?_, by simp [markedDocument]⟩
  intro node hnode
  obtain rfl := List.mem_singleton.1 hnode
  constructor
  case encoded => exact isBase64Text_empty
  all_goals simp [nodeKindNames]

/-- The contract says nothing of the mark, and a document that obeys it is refused for one. -/
theorem marked_name_refused :
    (∀ v ∈ markedDocument.values, v.float.isFinite = true) ∧ markedDocument.Obeys ∧
      checkDocument markedDocument = .error .unreadable := by
  refine ⟨?_, markedDocument_obeys, rfl⟩
  intro v hv
  cases hv

end Contract

end SchemaBindings
