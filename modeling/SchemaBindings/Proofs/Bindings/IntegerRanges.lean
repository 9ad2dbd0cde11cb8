import SchemaBindings.Proofs.Bindings.DefaultMasks
import SchemaBindings.Proofs.Document.Conversion

namespace SchemaBindings

open SchemaBindings.Schema SchemaBindings.Layout SchemaBindings.Outcome

namespace Schema

/-- The integer of a value with its kind, for the kinds that are narrower than the members of a value
that hold it. -/
def Kind.integers (k : Kind) (int : Int64) (uint : UInt64) : List (Kind × Int) :=
  match k with
  | .int8 | .int16 | .int32 => [(k, int.toInt)]
  | .uint8 | .uint16 | .uint32 => [(k, uint.toNat)]
  | _ => []

def Kind.InRange : Kind → Int → Prop
  | .int8, i => -128 ≤ i ∧ i ≤ 127
  | .int16, i => -32768 ≤ i ∧ i ≤ 32767
  | .int32, i => -2147483648 ≤ i ∧ i ≤ 2147483647
  | .uint8, i => 0 ≤ i ∧ i ≤ 255
  | .uint16, i => 0 ≤ i ∧ i ≤ 65535
  | .uint32, i => 0 ≤ i ∧ i ≤ 4294967295
  | _, _ => True

/-- A pattern of the kind's width stands for the number, with or without sign as the kind has it. -/
def Kind.Represents (k : Kind) (i : Int) : Prop :=
  match k with
  | .int8 | .int16 | .int32 => ∃ pattern : BitVec (bitWidth k), pattern.toInt = i
  | _ => ∃ pattern : BitVec (bitWidth k), (pattern.toNat : Int) = i

def SlotField.integers (slot : SlotField) : List (Kind × Int) :=
  slot.type.kind.integers slot.default.int slot.default.uint

def Field.integers (f : Field) : List (Kind × Int) :=
  match f.body with
  | .slot slot => slot.integers
  | .group _ => []

def ConstInfo.integers (c : ConstInfo) : List (Kind × Int) :=
  c.type.kind.integers c.value.int c.value.uint

def Node.integers (n : Node) : List (Kind × Int) :=
  (n.struct?.toList.flatMap fun s => s.fields.flatMap Field.integers)
    ++ n.const?.toList.flatMap ConstInfo.integers

/-- The narrow integers among the defaults and constants of a request. -/
def Request.integers (r : Request) : List (Kind × Int) :=
  r.nodes.flatMap Node.integers

variable {k : Kind} {i : Int}

theorem toInt_ofInt_of_fits {w : Nat} (hl : -(2 ^ w : Nat) ≤ i) (hr : i < (2 ^ w : Nat)) :
    (BitVec.ofInt (w + 1) i).toInt = i := by
  rw [BitVec.toInt_ofInt]
  apply Int.bmod_eq_of_le
  · rw [Nat.pow_succ]
    omega
  · rw [Nat.pow_succ]
    omega

theorem exists_toInt_iff (w : Nat) (i : Int) :
    (∃ pattern : BitVec (w + 1), pattern.toInt = i) ↔ -(2 ^ w : Nat) ≤ i ∧ i < (2 ^ w : Nat) := by
  constructor
  · intro h
    obtain ⟨pattern, rfl⟩ := h
    have hl := pattern.le_toInt
    have hr := pattern.toInt_lt
    simp only [Nat.add_sub_cancel] at hl hr
    push_cast
    omega
  · intro h
    exact ⟨BitVec.ofInt (w + 1) i, toInt_ofInt_of_fits h.1 h.2⟩

theorem exists_toNat_iff (w : Nat) (i : Int) :
    (∃ pattern : BitVec w, (pattern.toNat : Int) = i) ↔ 0 ≤ i ∧ i < (2 ^ w : Nat) := by
  constructor
  · intro h
    obtain ⟨pattern, rfl⟩ := h
    have hlt := pattern.isLt
    omega
  · intro h
    refine ⟨BitVec.ofNat w i.toNat, ?_⟩
    rw [BitVec.toNat_ofNat, Nat.mod_eq_of_lt (by omega)]
    omega

theorem Kind.eq_of_mem_integers {k' : Kind} {int : Int64} {uint : UInt64}
    (h : (k', i) ∈ k.integers int uint) : k' = k := by
  cases k <;> simp only [integers, List.mem_singleton, Prod.mk.injEq, List.not_mem_nil] at h <;>
    exact h.1

/-- The range of a narrow kind is what patterns of its width stand for. -/
theorem Kind.represents_iff {int : Int64} {uint : UInt64} (h : (k, i) ∈ k.integers int uint)
    (j : Int) : k.Represents j ↔ k.InRange j := by
  cases k <;> simp only [integers, List.not_mem_nil] at h
  · exact (exists_toInt_iff 7 j).trans (by simp only [InRange]; omega)
  · exact (exists_toInt_iff 15 j).trans (by simp only [InRange]; omega)
  · exact (exists_toInt_iff 31 j).trans (by simp only [InRange]; omega)
  · exact (exists_toNat_iff 8 j).trans (by simp only [InRange]; omega)
  · exact (exists_toNat_iff 16 j).trans (by simp only [InRange]; omega)
  · exact (exists_toNat_iff 32 j).trans (by simp only [InRange]; omega)

theorem Field.exists_slot_of_integers {f : Field} (h : (k, i) ∈ f.integers) :
    ∃ slot, f.body = .slot slot ∧ k = slot.type.kind ∧ (slot.type.kind, i) ∈ slot.integers := by
  unfold Field.integers at h
  split at h
  next slot hslot =>
    have hk : k = slot.type.kind := Kind.eq_of_mem_integers h
    exact ⟨slot, hslot, hk, hk ▸ h⟩
  next => cases h

end Schema

namespace Document

def SlotRecord.integers (r : SlotRecord) : List (Kind × Int) :=
  (Kind.ofName? r.type.kind).toList.flatMap fun k =>
    k.integers ((r.default?.map ValueRecord.int).getD 0) ((r.default?.map ValueRecord.uint).getD 0)

def FieldRecord.integers (r : FieldRecord) : List (Kind × Int) :=
  r.slot?.toList.flatMap SlotRecord.integers

def ConstRecord.integers (r : ConstRecord) : List (Kind × Int) :=
  (Kind.ofName? r.type.kind).toList.flatMap fun k => k.integers r.value.int r.value.uint

/-- Of the payloads of a node only the one of its kind counts. -/
def NodeRecord.integers (r : NodeRecord) : List (Kind × Int) :=
  match NodeKind.ofName? r.kind with
  | some .structNode =>
    r.struct?.toList.flatMap fun s => s.fields.flatMap FieldRecord.integers
  | some .constNode => r.const?.toList.flatMap ConstRecord.integers
  | _ => []

end Document

/-- The narrow integers that are written in a document, for defaults and constants. -/
def Document.integers (d : Document) : List (Kind × Int) :=
  (d.nodes?.getD []).flatMap Document.NodeRecord.integers

namespace Document

theorem SlotRecord.checked_integers {r : SlotRecord} {slot : SlotField}
    (h : r.checked = .ok slot) : slot.integers = r.integers := by
  obtain ⟨htype, hdefault⟩ := SlotRecord.checked_eq_ok h
  rw [SlotRecord.integers, TypeRecord.checked_kind htype, SlotField.integers]
  rcases hdefault with ⟨hnone, hzero⟩ | ⟨value, hsome, hvalue⟩
  · simp [hnone, hzero, Value.zero]
  · obtain ⟨-, hint, huint, -⟩ := ValueRecord.checked_eq_ok hvalue
    simp [hsome, hint, huint]

theorem FieldRecord.checked_integers {r : FieldRecord} {f : Field} (h : r.checked = .ok f) :
    f.integers = r.integers := by
  rcases FieldRecord.checked_eq_ok h with ⟨id, hslot, -, hbody⟩ | ⟨record, info, hslot, hinfo, hbody⟩
  · simp [Field.integers, FieldRecord.integers, hslot, hbody]
  · simp [Field.integers, FieldRecord.integers, hslot, hbody, SlotRecord.checked_integers hinfo]

theorem ConstRecord.checked_integers {r : ConstRecord} {c : ConstInfo} (h : r.checked = .ok c) :
    c.integers = r.integers := by
  obtain ⟨htype, hvalue⟩ := ConstRecord.checked_eq_ok h
  obtain ⟨-, hint, huint, -⟩ := ValueRecord.checked_eq_ok hvalue
  rw [ConstRecord.integers, TypeRecord.checked_kind htype, ConstInfo.integers, hint, huint]
  simp

theorem NodeRecord.checked_integers {r : NodeRecord} {n : Node} (h : r.checked = .ok n) :
    n.integers = r.integers := by
  obtain ⟨hname, hcases⟩ := NodeRecord.checked_eq_ok h
  unfold NodeRecord.integers Node.integers
  rw [hname]
  rcases hcases with ⟨hkind, hconst, info, s, hinfo, hs, hn⟩ | ⟨hkind, hstruct, info, c, hinfo, hc, hn⟩ |
    ⟨hk, hk', hstruct, hconst⟩
  · have hfields := flatMap_eq_of_forall₂ (StructRecord.checked_eq_ok hs) fun _ _ hf =>
      FieldRecord.checked_integers hf
    simp [hkind, hconst, hinfo, hn, hfields]
  · simp [hkind, hstruct, hinfo, hn, ConstRecord.checked_integers hc]
  · cases hkind : n.kind <;> simp [hkind] at hk hk' <;> simp [hstruct, hconst]

/-- A request has the narrow integers that are written in the document, in range or not. -/
theorem request_integers {d : Document} {r : Request} (h : request d = .ok r) :
    r.integers = d.integers :=
  flatMap_eq_of_forall₂ (request_nodes h) fun _ _ hn => NodeRecord.checked_integers hn

end Document

namespace Bindings

variable {k : Kind} {i : Int}

theorem sectionOf_of_integers {int : Int64} {uint : UInt64} (h : (k, i) ∈ k.integers int uint) :
    sectionOf k = .data := by
  cases k <;> simp only [Kind.integers, List.not_mem_nil] at h <;> rfl

/-- The mask of a narrow integer is the integer itself. -/
theorem defaultMask?_of_integers {v : Value} (h : (v.kind, i) ∈ v.kind.integers v.int v.uint) :
    defaultMask? v = if i = 0 then none else some (.number i) := by
  have hint : v.int = 0 ↔ v.int.toInt = 0 := by rw [← Int64.toInt_inj, Int64.toInt_zero]
  have huint : v.uint = 0 ↔ (v.uint.toNat : Int) = 0 := by
    rw [← UInt64.toNat_inj, UInt64.toNat_zero, Int.natCast_eq_zero]
  unfold defaultMask?
  cases hk : v.kind <;> simp only [hk, Kind.integers, List.mem_singleton, Prod.mk.injEq, true_and,
    List.not_mem_nil] at h
  iterate 3
    · simp only [h, hint]
  iterate 3
    · simp only [h, huint]

/-- A narrow integer constant is defined as the integer itself. -/
theorem run_constExpr_of_integers {context : FileContext} {used : UsedFiles} {n : Node}
    {c : ConstInfo} (hc : n.const? = some c) (h : (c.type.kind, i) ∈ c.integers) :
    Generation.run (constExpr n) context used =
      (.ok (some (.literal (.integer i))), used) := by
  unfold ConstInfo.integers at h
  unfold constExpr
  rw [hc]
  cases hk : c.type.kind <;> simp only [hk, Kind.integers, List.mem_singleton, Prod.mk.injEq,
    true_and, List.not_mem_nil] at h <;> simp only [hk, literal, h] <;> rfl

/-- The bindings of a narrow integer field exist in every file, and its accessors have the default
itself for their mask, or none for zero. -/
theorem run_fieldBindings_of_integers {context : FileContext} {scope : String} {used : UsedFiles}
    {nodeId : UInt64} {s : StructInfo} {f : Field} {slot : SlotField} (hf : f.body = .slot slot)
    (hkind : slot.default.kind = slot.type.kind) (h : (slot.type.kind, i) ∈ slot.integers) :
    ∃ b, Generation.run (fieldBindings scope nodeId s f) context used = (.ok b, used) ∧
      b.masks = if i = 0 then [] else [.number i, .number i] := by
  have hmask : defaultMask? slot.default = if i = 0 then none else some (.number i) :=
    defaultMask?_of_integers (hkind ▸ h)
  refine ⟨_, run_fieldBindings_data hf (sectionOf_of_integers h), ?_⟩
  rw [masks_data, hmask]
  by_cases hi : i = 0
  · simp [hi]
  · simp [hi]

/-- The defaults and constants of the narrow integer kinds are what the document has written for
them, and so are the masks and literals that are generated for them: no step compares them with the
range of their kind. They fit the width of the kind exactly when they are written in its range. -/
theorem emitted_integers_are_written (d : Document) (r : Request) (h : Document.request d = .ok r) :
    r.integers = d.integers ∧
    (∀ n ∈ r.nodes, ∀ s, n.struct? = some s → ∀ f ∈ s.fields, ∀ k i, (k, i) ∈ f.integers →
      (∀ context scope used, ∃ b,
        Generation.run (fieldBindings scope n.id s f) context used = (.ok b, used) ∧
        b.masks = if i = 0 then [] else [.number i, .number i]) ∧
      (k.Represents i ↔ k.InRange i)) ∧
    (∀ n ∈ r.nodes, ∀ c, n.const? = some c → ∀ k i, (k, i) ∈ c.integers →
      (∀ context used, Generation.run (constExpr n) context used =
        (.ok (some (.literal (.integer i))), used)) ∧
      (k.Represents i ↔ k.InRange i)) := by
  refine ⟨Document.request_integers h, ?_, ?_⟩
  · intro n hn s hs f hf k i hi
    obtain ⟨slot, hslot, hk, hmem⟩ := Field.exists_slot_of_integers hi
    subst hk
    obtain ⟨record, hrecord⟩ := Document.request_slot h hn hs hf hslot
    refine ⟨?_, Kind.represents_iff hmem i⟩
    intro context scope used
    exact run_fieldBindings_of_integers hslot (Document.SlotRecord.checked_default_kind hrecord) hmem
  · intro n _ c hc k i hi
    have hk : k = c.type.kind := Kind.eq_of_mem_integers hi
    subst hk
    refine ⟨?_, Kind.represents_iff hi i⟩
    intro context used
    exact run_constExpr_of_integers hc hi

namespace Gauge

/-- A reading has a default of one byte. -/
def readingRecord (delta : Int64) : Document.NodeRecord :=
  { (default : Document.NodeRecord) with
    id := 2
    kind := "struct"
    displayName := "gauge.capnp:Reading"
    scopeId := 1
    struct? := some ⟨1, 0, 7, false, 0, 0,
      [⟨"delta", 0, none,
        some ⟨0, .leaf "int8" 0, some { (default : Document.ValueRecord) with int := delta }, 0⟩,
        none⟩]⟩ }

def limitRecord : Document.NodeRecord :=
  { (default : Document.NodeRecord) with
    id := 3
    kind := "const"
    displayName := "gauge.capnp:limit"
    scopeId := 1
    const? := some ⟨.leaf "uint16" 0, { (default : Document.ValueRecord) with uint := 65535 }, 0⟩ }

def document (delta : Int64) : Document :=
  ⟨some [readingRecord delta, limitRecord], none⟩

def deltaField (delta : Int64) : Field :=
  ⟨"delta", 0, noDiscriminant,
    .slot ⟨0, .plain .int8 0, { (Value.zero .int8) with int := delta }, 0⟩⟩

def info (delta : Int64) : StructInfo :=
  ⟨1, 0, 7, false, 0, 0, [deltaField delta]⟩

def reading (delta : Int64) : Node :=
  { (default : Node) with
    id := 2
    kind := .structNode
    displayName := "gauge.capnp:Reading"
    scopeId := 1
    struct? := some (info delta) }

def limitInfo : ConstInfo :=
  ⟨.plain .uint16 0, { (Value.zero .uint16) with uint := 65535 }, 0⟩

def limit : Node :=
  { (default : Node) with
    id := 3
    kind := .constNode
    displayName := "gauge.capnp:limit"
    scopeId := 1
    const? := some limitInfo }

def request (delta : Int64) : Request :=
  ⟨[reading delta, limit], []⟩

theorem request_document (delta : Int64) :
    Document.request (document delta) = .ok (request delta) := by
  have hreading : (readingRecord delta).checked = .ok (reading delta) := by
    simp only [Document.NodeRecord.checked]
    rw [show (readingRecord delta).encoded = "" from rfl, Document.checkedBase64_empty]
    rfl
  have hlimit : limitRecord.checked = .ok limit := by
    simp only [Document.NodeRecord.checked]
    rw [show limitRecord.encoded = "" from rfl, Document.checkedBase64_empty]
    rfl
  exact Document.request_eq_ok_iff.2 ⟨.cons hreading (.cons hlimit .nil), rfl⟩

end Gauge

/-- A default and a constant at the ends of their ranges. -/
theorem emitted_integers_are_written_gauge :
    Document.request (Gauge.document (-128)) = .ok (Gauge.request (-128)) ∧
    (Gauge.request (-128)).integers = [(.int8, -128), (.uint16, 65535)] ∧
    (∀ context scope used, ∃ b,
      Generation.run (fieldBindings scope 2 (Gauge.info (-128)) (Gauge.deltaField (-128))) context
        used = (.ok b, used) ∧ b.masks = [.number (-128), .number (-128)]) ∧
    (∀ context used, Generation.run (constExpr Gauge.limit) context used =
      (.ok (some (.literal (.integer 65535))), used)) ∧
    Kind.int8.Represents (-128) ∧ Kind.uint16.Represents 65535 := by
  have hrequest := Gauge.request_document (-128)
  obtain ⟨-, hfields, hconsts⟩ := emitted_integers_are_written _ _ hrequest
  obtain ⟨hbindings, hdelta⟩ := hfields (Gauge.reading (-128)) (by decide) _ rfl _
    List.mem_cons_self .int8 (-128) (by decide)
  obtain ⟨hliteral, hlimit⟩ := hconsts Gauge.limit (by decide) _ rfl .uint16 65535 (by decide)
  exact ⟨hrequest, by decide, hbindings, hliteral, hdelta.2 (by simp [Kind.InRange]),
    hlimit.2 (by simp [Kind.InRange])⟩

/-- A default that no byte stands for is accepted, and is the mask of its field. -/
theorem wide_default_emitted :
    Document.request (Gauge.document 300) = .ok (Gauge.request 300) ∧
    (.int8, 300) ∈ (Gauge.request 300).integers ∧
    (∀ context scope used, ∃ b,
      Generation.run (fieldBindings scope 2 (Gauge.info 300) (Gauge.deltaField 300)) context used =
        (.ok b, used) ∧ b.masks = [.number 300, .number 300]) ∧
    ¬ Kind.int8.InRange 300 ∧ ¬ Kind.int8.Represents 300 := by
  have hmem : (Kind.int8, (300 : Int)) ∈ Kind.int8.integers 300 0 := by decide
  have hrange : ¬ Kind.int8.InRange 300 := by
    simp only [Kind.InRange]
    omega
  refine ⟨Gauge.request_document 300, by decide, ?_, hrange, ?_⟩
  · intro context scope used
    exact ⟨_, run_fieldBindings_data rfl rfl, rfl⟩
  · rw [Kind.represents_iff hmem]
    exact hrange

end Bindings
end SchemaBindings
