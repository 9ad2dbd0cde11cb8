import SchemaBindings.Proofs.Bindings.UnionAccess

namespace SchemaBindings.Bindings

open SchemaBindings.Schema SchemaBindings.Layout

/-- The mask that an accessor combines its data with. -/
def Operation.mask? : Operation → Option Mask
  | readData _ _ mask? | writeData _ _ mask? => mask?
  | _ => none

/-- The masks of a field, one for each accessor that has one. -/
def FieldBindings.masks (b : FieldBindings) : List Mask :=
  b.accessors.filterMap fun accessor => accessor.2.mask?

namespace Scalar

/-- The pattern that a scalar stands for in a field of the given width. -/
def pattern? (width : Nat) (v : Scalar) : Option Nat :=
  (v.bits? width).map fun bits => Nat.ofBits fun i : Fin width => bits i

theorem bits?_eq_some {width : Nat} {v : Scalar} {bits : Nat → Bool}
    (h : v.bits? width = some bits) : bits = v.value.testBit := by
  simp only [bits?, Option.ite_none_right_eq_some, Option.some.injEq] at h
  exact h.2.symm

/-- A scalar that has the form for the width stands for its value, if that fits the width. -/
theorem pattern?_eq_some {width : Nat} {v : Scalar} {bits : Nat → Bool}
    (h : v.bits? width = some bits) {n : Nat} (hn : n < 2 ^ width) (hv : v.value = n) :
    v.pattern? width = some n := by
  have hbits : bits = n.testBit := by
    rw [bits?_eq_some h, hv]
    rfl
  rw [pattern?, h, Option.map_some, hbits, Nat.ofBits_testBit, Nat.mod_eq_of_lt hn]

theorem ofBits_of_pattern? {width n : Nat} {v : Scalar} (h : v.pattern? width = some n) :
    (Nat.ofBits fun i : Fin width => v.value.testBit i) = n := by
  obtain ⟨bits, hbits, hn⟩ := Option.map_eq_some_iff.1 h
  rw [bits?_eq_some hbits] at hn
  exact hn

end Scalar

/-- What the mask of an accessor adds to its data. -/
theorem maskBits?_pattern {mask? : Option Mask} {width pattern : Nat}
    (hnone : mask? = none → pattern = 0)
    (hsome : ∀ mask, mask? = some mask → mask.pattern? width = some pattern) :
    ∃ bits, maskBits? mask?.isSome (maskArguments mask?) = some bits ∧
      (Nat.ofBits fun i : Fin width => bits i) = pattern := by
  cases mask? with
  | none =>
    refine ⟨_, rfl, ?_⟩
    rw [hnone rfl]
    apply Nat.eq_of_testBit_eq
    intro i
    simp [Nat.testBit_ofBits]
  | some mask => exact ⟨_, rfl, Scalar.ofBits_of_pattern? (hsome mask rfl)⟩

variable {context : FileContext} {used : UsedFiles} {scope : String} {nodeId : UInt64}
  {s : StructInfo} {f : Field} {slot : SlotField}

/-- A data field always has bindings, the same in every file. -/
theorem run_fieldBindings_data (hf : f.body = .slot slot) (hd : sectionOf slot.type.kind = .data) :
    Generation.run (fieldBindings scope nodeId s f) context used =
      (.ok ⟨scope, f.name, UnionTag.ofField? s f, dataAccessors slot⟩, used) := by
  have hsuffix := (accessorSuffix?_isSome_iff slot.type.kind).2 hd
  have haccessors : Generation.run (slotAccessors nodeId slot) context used =
      (.ok (dataAccessors slot), used) := by
    unfold slotAccessors
    cases hk : slot.type.kind <;> simp only [hk, sectionOf, reduceCtorEq] at hd <;>
      rw [hk] at hsuffix <;> simp [hsuffix]
  rw [fieldBindings, Generation.run_within_eq_ok_iff, Generation.run_bind_eq_ok_iff]
  exact ⟨_, _, by simpa only [hf] using haccessors, rfl⟩

/-- The accessors that read and write a data field both have the mask of its default. -/
theorem masks_data (tag? : Option UnionTag) (name : String) (slot : SlotField) :
    FieldBindings.masks ⟨scope, name, tag?, dataAccessors slot⟩ =
      (defaultMask? slot.default).toList ++ (defaultMask? slot.default).toList := by
  cases h : defaultMask? slot.default with
  | none => simp [FieldBindings.masks, dataAccessors, Operation.mask?, h]
  | some mask => simp [FieldBindings.masks, dataAccessors, Operation.mask?, h]

/-- The accessor that reads a field gives the pattern as long as nothing is stored in the field. -/
def FieldBindings.ReadsUnsetAs (b : FieldBindings) (slot : SlotField) (pattern : Nat) : Prop :=
  ∀ operation, (.get, operation) ∈ b.accessors →
    ∀ (P : Type) (which? : Option Call) (input : Input P) (storage : Storage P) (view : View),
      storage.pattern (slot.offset.toNat * bitWidth slot.type.kind) (bitWidth slot.type.kind) = 0 →
      Statement.runAll which? input storage (operation.statements view) =
        .returned (.pattern pattern) storage

theorem readsUnsetAs_data {name : String} {tag? : Option UnionTag} {pattern : Nat}
    (hd : sectionOf slot.type.kind = .data)
    (hmask : ∀ mask, defaultMask? slot.default = some mask →
      mask.pattern? (bitWidth slot.type.kind) = some pattern)
    (hnone : defaultMask? slot.default = none → pattern = 0) :
    FieldBindings.ReadsUnsetAs ⟨scope, name, tag?, dataAccessors slot⟩ slot pattern := by
  intro operation hop P which? input storage view hzero
  have hread : operation = .readData slot.type.kind slot.offset (defaultMask? slot.default) := by
    simpa [dataAccessors] using hop
  subst hread
  obtain ⟨bits, hbits, hpattern⟩ := maskBits?_pattern hnone hmask
  rw [readData_run hd hbits, hzero, hpattern, Nat.zero_xor]

end SchemaBindings.Bindings
