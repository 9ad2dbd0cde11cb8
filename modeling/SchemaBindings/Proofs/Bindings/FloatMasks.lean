import SchemaBindings.Proofs.Bindings.DefaultMasks
import SchemaBindings.Proofs.Document.Conversion
import SchemaBindings.Proofs.Number.Widening

namespace SchemaBindings

open SchemaBindings.Schema SchemaBindings.Layout SchemaBindings.Number SchemaBindings.Outcome

namespace Number.BinaryFormat

/-- A NaN whose quiet bit is clear. -/
def IsSignaling (f : BinaryFormat) (pattern : Nat) : Prop :=
  f.isNaN pattern = true ∧ pattern.testBit (f.fractionBits - 1) = false

variable {f : BinaryFormat} {pattern : Nat}

instance : Decidable (f.IsSignaling pattern) :=
  inferInstanceAs (Decidable (_ ∧ _))

theorem or_two_pow_eq_self_iff (n k : Nat) : n ||| 2 ^ k = n ↔ n.testBit k = true := by
  constructor
  · intro h
    rw [← h, Nat.testBit_or, Nat.testBit_two_pow_self, Bool.or_true]
  · intro h
    apply Nat.eq_of_testBit_eq
    intro i
    rw [Nat.testBit_or, Nat.testBit_two_pow]
    by_cases hi : k = i
    · subst hi
      simp [h]
    · simp [hi]

theorem quieted_eq_self_iff : f.quieted pattern = pattern ↔ ¬ f.IsSignaling pattern := by
  unfold quieted IsSignaling
  split
  next h =>
    rw [quietBit, twoPow_eq, or_two_pow_eq_self_iff]
    simp [h]
  next h => simp [h]

theorem quieted_eq_zero_iff : f.quieted pattern = 0 ↔ pattern = 0 := by
  unfold quieted
  split
  next h =>
    rw [Nat.or_eq_zero_iff, quietBit, twoPow_eq]
    constructor
    · intro h0
      exact h0.1
    · intro h0
      subst h0
      simp [isNaN, magnitude] at h
  next => rfl

theorem quieted_lt (hpattern : pattern < 2 ^ 32) : binary32.quieted pattern < 2 ^ 32 := by
  unfold quieted
  split
  · exact Nat.or_lt_two_pow hpattern (by decide)
  · exact hpattern

end Number.BinaryFormat

namespace Schema

/-- The pattern that is left of the bits given for a number: those of single precision pass through
a number of double precision, which makes a NaN quiet. -/
def Kind.keptBits (k : Kind) (bits : UInt64) : Nat :=
  match k with
  | .float32 => binary32.quieted bits.toNat
  | _ => bits.toNat

end Schema

namespace Document

/-- Bits are given for floating-point values only, and fit their width. -/
theorem ValueRecord.checkedFloat_eq_ok {r : ValueRecord} {kind : Kind} {x : Double} {bits : UInt64}
    (h : r.checkedFloat kind = .ok x) (hbits : r.floatBits? = some bits) :
    (kind = .float32 ∧ bits.toNat < 2 ^ 32 ∧ x = Double.widen bits.toNat) ∨
      (kind = .float64 ∧ x = ⟨bits⟩) := by
  unfold ValueRecord.checkedFloat at h
  rw [hbits] at h
  dsimp only at h
  split at h
  · split at h
    · cases h
    next hle =>
      cases h
      refine Or.inl ⟨rfl, ?_, rfl⟩
      have hlt := UInt64.not_lt.1 hle
      have htoNat : bits.toNat ≤ 0xffffffff := UInt64.le_iff_toNat_le.1 hlt
      omega
  · cases h
    exact Or.inr ⟨rfl, rfl⟩
  · cases h

end Document

/-- A default of a slot field that a document gives by its bits. -/
structure Document.BitsDefault (d : Document) where
  node : Document.NodeRecord
  payload : Document.StructRecord
  field : Document.FieldRecord
  slot : Document.SlotRecord
  value : Document.ValueRecord
  bits : UInt64
  node_mem : node ∈ d.nodes?.getD []
  node_kind : NodeKind.ofName? node.kind = some .structNode
  node_struct : node.struct? = some payload
  field_mem : field ∈ payload.fields
  field_slot : field.slot? = some slot
  slot_default : slot.default? = some value
  value_bits : value.floatBits? = some bits

namespace Bindings

/-- The mask of a floating-point value has the bits that are given for it, as far as they are kept. -/
theorem defaultMask?_of_floatBits {record : Document.ValueRecord} {kind : Kind} {v : Value}
    {bits : UInt64} (h : record.checked kind = .ok v) (hbits : record.floatBits? = some bits) :
    (kind = .float32 ∨ kind = .float64) ∧ (defaultMask? v = none ↔ bits = 0) ∧
      ∀ mask, defaultMask? v = some mask →
        mask.pattern? (bitWidth kind) = some (kind.keptBits bits) := by
  obtain ⟨hkind, -, -, hfloat⟩ := Document.ValueRecord.checked_eq_ok h
  have hzero : bits = 0 ↔ bits.toNat = 0 := by rw [← UInt64.toNat_inj, UInt64.toNat_zero]
  rcases Document.ValueRecord.checkedFloat_eq_ok hfloat hbits with ⟨rfl, hlt, hx⟩ | ⟨rfl, hx⟩
  · have hmask : defaultMask? v = if binary32.quieted bits.toNat = 0 then none
        else some (.number (binary32.quieted bits.toNat)) := by
      simp only [defaultMask?, hkind, hx, Double.narrow_widen hlt]
    refine ⟨.inl rfl, ?_, ?_⟩
    · rw [hmask, hzero]
      simp [BinaryFormat.quieted_eq_zero_iff]
    · intro mask hm
      rw [hmask, Option.ite_none_left_eq_some] at hm
      cases hm.2
      exact Scalar.pattern?_eq_some rfl (BinaryFormat.quieted_lt hlt) rfl
  · have hmask : defaultMask? v = if bits = 0 then none
        else some (.words (.ofInt bits.toNat)) := by
      simp only [defaultMask?, hkind, hx]
      rfl
    refine ⟨.inr rfl, by simp [hmask], ?_⟩
    intro mask hm
    rw [hmask, Option.ite_none_left_eq_some] at hm
    cases hm.2
    exact Scalar.pattern?_eq_some rfl bits.toNat_lt (Scalar.value_words_ofInt _)

theorem keptBits_eq_iff {kind : Kind} (bits : UInt64) :
    kind.keptBits bits = bits.toNat ↔
      ¬ (kind = .float32 ∧ binary32.IsSignaling bits.toNat) := by
  cases kind with
  | float32 => simp [Kind.keptBits, BinaryFormat.quieted_eq_self_iff]
  | _ => simp [Kind.keptBits]

/-- Where the bits of a default are given, its field is a floating-point number and has bindings in
every file. They have no mask exactly when all the bits are zero, and otherwise every mask has just
these bits, which is also what is read while nothing is stored in the field. Only a signaling NaN
of single precision does not keep them: it becomes quiet. -/
theorem float_masks_keep_bits (d : Document) (r : Request) (h : Document.request d = .ok r)
    (x : d.BitsDefault) :
    ∃ n ∈ r.nodes, x.node.checked = .ok n ∧ ∃ s, n.struct? = some s ∧
      ∃ f ∈ s.fields, x.field.checked = .ok f ∧ ∃ slot, f.body = .slot slot ∧
        Kind.ofName? x.slot.type.kind = some slot.type.kind ∧
        (slot.type.kind = .float32 ∨ slot.type.kind = .float64) ∧
        (∀ context scope used, ∃ b,
          Generation.run (fieldBindings scope n.id s f) context used = (.ok b, used) ∧
          (b.masks = [] ↔ x.bits = 0) ∧
          (∀ mask ∈ b.masks, mask.pattern? (bitWidth slot.type.kind) =
            some (slot.type.kind.keptBits x.bits)) ∧
          b.ReadsUnsetAs slot (slot.type.kind.keptBits x.bits)) ∧
        (slot.type.kind.keptBits x.bits = x.bits.toNat ↔
          ¬ (slot.type.kind = .float32 ∧ binary32.IsSignaling x.bits.toNat)) := by
  obtain ⟨n, hn, hnode, s, hs, f, hf, hfield, slot, hslot, hchecked⟩ := Document.request_of_slot h
    x.node_mem x.node_kind x.node_struct x.field_mem x.field_slot
  obtain ⟨htype, hdefault⟩ := Document.SlotRecord.checked_eq_ok hchecked
  obtain ⟨value, hvalue, hinitial⟩ : ∃ value, x.slot.default? = some value ∧
      value.checked slot.type.kind = .ok slot.default := by
    rcases hdefault with ⟨hnone, -⟩ | hsome
    · cases hnone.symm.trans x.slot_default
    · exact hsome
  cases hvalue.symm.trans x.slot_default
  obtain ⟨hfloat, hnone, hmask⟩ := defaultMask?_of_floatBits hinitial x.value_bits
  have hdata : sectionOf slot.type.kind = .data := by
    rcases hfloat with hk | hk <;> rw [hk] <;> rfl
  refine ⟨n, hn, hnode, s, hs, f, hf, hfield, slot, hslot,
    Document.TypeRecord.checked_kind htype, hfloat, ?_, keptBits_eq_iff x.bits⟩
  intro context scope used
  refine ⟨_, run_fieldBindings_data hslot hdata, ?_, ?_, readsUnsetAs_data hdata hmask ?_⟩
  · rw [masks_data, ← hnone]
    cases defaultMask? slot.default <;> simp
  · intro mask hmem
    apply hmask mask
    simpa [masks_data] using hmem
  · intro hd
    rw [hnone.1 hd]
    rcases hfloat with hk | hk <;> rw [hk] <;> rfl

namespace Meter

def valueRecord (bits : UInt64) : Document.ValueRecord :=
  { (default : Document.ValueRecord) with floatBits? := some bits }

/-- A level has a default of single precision, given by its bits. -/
def levelRecord (bits : UInt64) : Document.FieldRecord :=
  ⟨"level", 0, none, some ⟨0, .leaf "float32" 0, some (valueRecord bits), 0⟩, none⟩

def payload (bits : UInt64) : Document.StructRecord :=
  ⟨1, 0, 7, false, 0, 0, [levelRecord bits]⟩

def readingRecord (bits : UInt64) : Document.NodeRecord :=
  { (default : Document.NodeRecord) with
    id := 2
    kind := "struct"
    displayName := "meter.capnp:Reading"
    scopeId := 1
    struct? := some (payload bits) }

def document (bits : UInt64) : Document :=
  ⟨some [readingRecord bits], none⟩

def levelDefault (bits : UInt64) : (document bits).BitsDefault where
  node := readingRecord bits
  payload := payload bits
  field := levelRecord bits
  slot := _
  value := valueRecord bits
  bits := bits
  node_mem := List.mem_cons_self
  node_kind := rfl
  node_struct := rfl
  field_mem := List.mem_cons_self
  field_slot := rfl
  slot_default := rfl
  value_bits := rfl

def levelSlot (bits : UInt64) : SlotField :=
  ⟨0, .plain .float32 0, { (Value.zero .float32) with float := Double.widen bits.toNat }, 0⟩

def level (bits : UInt64) : Field :=
  ⟨"level", 0, noDiscriminant, .slot (levelSlot bits)⟩

def info (bits : UInt64) : StructInfo :=
  ⟨1, 0, 7, false, 0, 0, [level bits]⟩

def reading (bits : UInt64) : Node :=
  { (default : Node) with
    id := 2
    kind := .structNode
    displayName := "meter.capnp:Reading"
    scopeId := 1
    struct? := some (info bits) }

theorem checked_level {bits : UInt64} (h : bits ≤ 0xffffffff) :
    (levelRecord bits).checked = .ok (level bits) := by
  have hvalue : (valueRecord bits).checked .float32 = .ok (levelSlot bits).default := by
    simp only [valueRecord, Document.ValueRecord.checked, Document.ValueRecord.checkedFloat,
      if_neg (UInt64.not_lt.2 h)]
    rfl
  show (do
    let body ← Document.inside (.member "level") ((do
      let initial ← Document.inside .initial ((valueRecord bits).checked .float32)
      return (⟨0, .plain .float32 0, initial, 0⟩ : SlotField)).map FieldBody.slot)
    return (⟨"level", 0, noDiscriminant, body⟩ : Field)) = _
  rw [hvalue]
  rfl

theorem request_document (bits : UInt64) (h : bits ≤ 0xffffffff) :
    Document.request (document bits) = .ok ⟨[reading bits], []⟩ := by
  have hpayload : (payload bits).checked = .ok (info bits) := by
    simp only [Document.StructRecord.checked, payload, List.mapM_cons, List.mapM_nil,
      checked_level h]
    rfl
  have hreading : (readingRecord bits).checked = .ok (reading bits) := by
    simp only [Document.NodeRecord.checked]
    rw [show (readingRecord bits).encoded = "" from rfl, Document.checkedBase64_empty]
    show (do
      let s ← (payload bits).checked
      return ({ reading bits with struct? := some s } : Node)) = _
    rw [hpayload]
    rfl
  exact Document.request_eq_ok_iff.2 ⟨.cons hreading .nil, rfl⟩

end Meter

/-- The smallest positive number of single precision, which is subnormal. -/
theorem float_masks_keep_bits_meter :
    Document.request (Meter.document 1) = .ok ⟨[Meter.reading 1], []⟩ ∧
    (∀ context scope used, ∃ b,
      Generation.run (fieldBindings scope 2 (Meter.info 1) (Meter.level 1)) context used =
        (.ok b, used) ∧
      b.masks ≠ [] ∧ (∀ mask ∈ b.masks, mask.pattern? 32 = some 1) ∧
      b.ReadsUnsetAs (Meter.levelSlot 1) 1) := by
  have hrequest := Meter.request_document 1 (by decide)
  obtain ⟨n, hn, -, s, hs, f, hf, -, slot, hslot, -, -, hbindings, hkept⟩ :=
    float_masks_keep_bits _ _ hrequest (Meter.levelDefault 1)
  cases List.mem_singleton.1 hn
  cases hs
  cases List.mem_singleton.1 hf
  cases hslot
  have hbits : Kind.float32.keptBits 1 = 1 := hkept.2 (by decide)
  refine ⟨hrequest, ?_⟩
  intro context scope used
  obtain ⟨b, hrun, hempty, hmasks, hreads⟩ := hbindings context scope used
  refine ⟨b, hrun, fun h => absurd (hempty.1 h) (by decide), ?_, hbits ▸ hreads⟩
  intro mask hmask
  exact (hmasks mask hmask).trans (congrArg some hbits)

/-- A signaling NaN is accepted as a default, and its quiet bit is set in the masks of the field. -/
theorem signaling_default_becomes_quiet :
    Document.request (Meter.document 0x7f800001) = .ok ⟨[Meter.reading 0x7f800001], []⟩ ∧
    (∀ context scope used, ∃ b,
      Generation.run (fieldBindings scope 2 (Meter.info 0x7f800001) (Meter.level 0x7f800001))
        context used = (.ok b, used) ∧
      b.masks = [.number 0x7fc00001, .number 0x7fc00001]) ∧
    binary32.IsSignaling 0x7f800001 := by
  refine ⟨Meter.request_document _ (by decide), ?_, by decide⟩
  intro context scope used
  refine ⟨_, run_fieldBindings_data rfl rfl, ?_⟩
  have hnarrow : (Double.widen 0x7f800001).narrow = 0x7fc00001 := by
    rw [Double.narrow_widen (by decide)]
    decide
  have hmask : defaultMask? (Meter.levelSlot 0x7f800001).default = some (.number 0x7fc00001) := by
    show (if (Double.widen 0x7f800001).narrow = 0 then none
      else some (Scalar.number (Double.widen 0x7f800001).narrow)) = _
    rw [hnarrow]
    rfl
  rw [masks_data, hmask]
  rfl

end Bindings
end SchemaBindings
