import SchemaBindings.Proofs.Bindings.FloatMasks
import SchemaBindings.Proofs.Bindings.IntegerRanges
import SchemaBindings.Proofs.Bindings.ScalarText
import SchemaBindings.Proofs.Number.Rounding

namespace SchemaBindings

open SchemaBindings.Schema SchemaBindings.Layout SchemaBindings.Number

namespace Schema

def Kind.isSigned : Kind → Bool
  | .int8 | .int16 | .int32 | .int64 => true
  | _ => false

/-- The number that the bits of a field stand for, with or without sign as the kind has it. -/
def Kind.numberOf (k : Kind) (pattern : Nat) : Int :=
  if k.isSigned then (BitVec.ofNat (bitWidth k) pattern).toInt else pattern

/-- The number that is stored for a scalar. A floating-point number is stored by its bits, at the
width of its kind. -/
def Value.number (v : Value) : Int :=
  match v.kind with
  | .bool => v.bool.toNat
  | .int8 | .int16 | .int32 | .int64 => v.int.toInt
  | .uint8 | .uint16 | .uint32 | .uint64 => v.uint.toNat
  | .float32 => v.float.narrow
  | .float64 => v.float.pattern
  | .enum => v.enum.toNat
  | _ => 0

/-- The bits of a scalar in a field of its kind, negative numbers in two's complement. -/
def Value.pattern (v : Value) : Nat :=
  (BitVec.ofInt (bitWidth v.kind) v.number).toNat

/-- A scalar fits the width of its kind. -/
def Value.Fits (v : Value) : Prop :=
  if v.kind.isSigned then
    -(2 ^ (bitWidth v.kind - 1) : Nat) ≤ v.number ∧ v.number < (2 ^ (bitWidth v.kind - 1) : Nat)
  else 0 ≤ v.number ∧ v.number < (2 ^ bitWidth v.kind : Nat)

variable {v : Value}

/-- Only the narrow integers can be too wide, as a value has room for wider ones. -/
theorem Value.fits_of_inRange (hd : sectionOf v.kind = .data)
    (hrange : ∀ i, (v.kind, i) ∈ v.kind.integers v.int v.uint → v.kind.InRange i) : v.Fits := by
  unfold Value.Fits Value.number
  cases hk : v.kind <;> simp only [hk, sectionOf, reduceCtorEq] at hd <;>
    simp only [hk, Kind.integers, Kind.InRange, List.mem_singleton, Prod.mk.injEq, true_and,
      forall_eq, List.not_mem_nil, implies_true] at hrange <;>
    simp only [Kind.isSigned, bitWidth, if_true, if_false, Bool.false_eq_true]
  case bool => cases v.bool <;> decide
  case int64 => exact ⟨v.int.le_toInt, v.int.toInt_lt⟩
  case uint64 =>
    have hlt := v.uint.toNat_lt
    omega
  case float32 =>
    have hlt := v.float.narrow_lt
    omega
  case float64 =>
    have hlt := v.float.bits.toNat_lt
    unfold Double.pattern
    omega
  case enum =>
    have hlt := v.enum.toNat_lt
    omega
  all_goals omega

/-- The bits of a scalar stand for its number. -/
theorem Value.Fits.numberOf_pattern (h : v.Fits) : v.kind.numberOf v.pattern = v.number := by
  unfold Value.Fits at h
  unfold Kind.numberOf Value.pattern
  split at h
  next hs =>
    obtain ⟨w, hw⟩ : ∃ w, bitWidth v.kind = w + 1 := by
      cases hk : v.kind <;> simp [hk, Kind.isSigned] at hs <;> exact ⟨_, rfl⟩
    rw [hw, Nat.add_sub_cancel] at h
    rw [if_pos hs, hw, BitVec.ofNat_toNat, BitVec.setWidth_eq]
    exact toInt_ofInt_of_fits h.1 h.2
  next hs =>
    rw [if_neg hs, BitVec.toNat_ofInt, Int.emod_eq_of_lt h.1 h.2, Int.toNat_of_nonneg h.1]

theorem Value.Fits.pattern_eq_zero_iff (h : v.Fits) : v.pattern = 0 ↔ v.number = 0 := by
  constructor
  · intro h0
    rw [← h.numberOf_pattern, h0, Kind.numberOf]
    split <;> simp
  · intro h0
    rw [Value.pattern, h0]
    simp

theorem Value.Fits.pattern_eq_float (h : v.Fits) :
    (v.kind = .float32 → v.pattern = v.float.narrow) ∧
      (v.kind = .float64 → v.pattern = v.float.pattern) := by
  have hnumber := h.numberOf_pattern
  unfold Value.number Kind.numberOf at hnumber
  constructor
  · intro hk
    simp only [hk] at hnumber
    exact Int.ofNat_inj.1 hnumber
  · intro hk
    simp only [hk] at hnumber
    exact Int.ofNat_inj.1 hnumber

/-- The pattern of a default of single precision: exact for numbers that have one, and rounded for
others. -/
structure Value.IsSingle (v : Value) : Prop where
  rounded : v.float.RoundsTo v.pattern
  negativeZero : v.float.bits = 0x8000000000000000 → v.pattern = 0x80000000
  exact : ∀ bits < 2 ^ 32, ¬binary32.IsSignaling bits → v.float = Double.widen bits →
    v.pattern = bits

theorem Value.Fits.isSingle (h : v.Fits) (hk : v.kind = .float32) : v.IsSingle := by
  have hpattern := h.pattern_eq_float.1 hk
  refine ⟨hpattern ▸ v.float.roundsTo_narrow, fun hzero => ?_, fun bits hlt hquiet hwiden => ?_⟩
  · have hfloat : v.float = ⟨0x8000000000000000⟩ := congrArg Double.mk hzero
    rw [hpattern, hfloat]
    rfl
  · rw [hpattern, hwiden, Double.narrow_widen hlt]
    exact BinaryFormat.quieted_eq_self_iff.2 hquiet

end Schema

namespace Bindings

theorem ofBits_testBit_int (i : Int) (width : Nat) :
    (Nat.ofBits fun j : Fin width => i.testBit j) = (BitVec.ofInt width i).toNat := by
  apply Nat.eq_of_testBit_eq
  intro j
  rw [Nat.testBit_ofBits, BitVec.testBit_toNat]
  cases i with
  | ofNat n =>
    simp only [Int.testBit, Int.ofNat_eq_natCast, BitVec.ofInt_natCast, BitVec.getLsbD_ofNat]
    split <;> simp_all
  | negSucc n =>
    simp only [Int.testBit, BitVec.ofInt_negSucc_eq_not_ofNat, BitVec.getLsbD_not,
      BitVec.getLsbD_ofNat]
    split <;> simp_all

namespace Scalar

/-- A scalar that has the form for the width stands for its value modulo the width. -/
theorem pattern?_of_bits? {width : Nat} {v : Scalar} (h : (v.bits? width).isSome = true) :
    v.pattern? width = some (BitVec.ofInt width v.value).toNat := by
  obtain ⟨bits, hbits⟩ := Option.isSome_iff_exists.1 h
  rw [pattern?, hbits, Option.map_some, bits?_eq_some hbits, ofBits_testBit_int]

end Scalar

variable {v : Value}

/-- The mask of a default is its number, in the form for its width; zero has none. -/
theorem defaultMask?_number (hd : sectionOf v.kind = .data) :
    (defaultMask? v = none ↔ v.number = 0) ∧ ∀ mask, defaultMask? v = some mask →
      mask.value = v.number ∧ (mask.bits? (bitWidth v.kind)).isSome = true := by
  have hint : v.int = 0 ↔ v.int.toInt = 0 := by rw [← Int64.toInt_inj, Int64.toInt_zero]
  have huint : v.uint = 0 ↔ v.uint.toNat = 0 := by rw [← UInt64.toNat_inj, UInt64.toNat_zero]
  have hbits : v.float.bits = 0 ↔ v.float.pattern = 0 := by
    rw [← UInt64.toNat_inj, UInt64.toNat_zero, Double.pattern]
  have henum : v.enum = 0 ↔ v.enum.toNat = 0 := by rw [← UInt16.toNat_inj, UInt16.toNat_zero]
  unfold defaultMask? Value.number
  cases hk : v.kind <;> simp only [hk, sectionOf, reduceCtorEq] at hd <;>
    simp only [hint, huint, hbits, henum, ite_eq_left_iff, reduceCtorEq, imp_false, not_not,
      Option.ite_none_left_eq_some, Option.some.injEq, Int.natCast_eq_zero, true_and]
  case bool => cases v.bool <;> simp [Scalar.value, Scalar.bits?, bitWidth]
  all_goals
    rintro mask ⟨-, rfl⟩
    first
    | exact ⟨rfl, rfl⟩
    | exact ⟨Scalar.value_words_ofInt _, rfl⟩

/-- The mask of a default is its pattern, and only the pattern zero has none. -/
theorem defaultMask?_pattern (hd : sectionOf v.kind = .data) (hfits : v.Fits) :
    (defaultMask? v = none ↔ v.pattern = 0) ∧ ∀ mask, defaultMask? v = some mask →
      mask.pattern? (bitWidth v.kind) = some v.pattern := by
  obtain ⟨hnone, hsome⟩ := defaultMask?_number hd
  refine ⟨hnone.trans hfits.pattern_eq_zero_iff.symm, ?_⟩
  intro mask hmask
  obtain ⟨hvalue, hbits⟩ := hsome mask hmask
  rw [Scalar.pattern?_of_bits? hbits, hvalue, Value.pattern]

variable {P : Type}

/-- How the name of a storage method tells that there is a mask. -/
def maskSuffix (mask? : Option Mask) : String :=
  if mask?.isSome then "_masked" else ""

/-- A mask behind the other arguments of a storage method. -/
def maskText : Option Mask → String
  | none => ""
  | some mask => ", " ++ mask.text

theorem intercalate_maskArguments (first : String) (rest : List String) (mask? : Option Mask) :
    String.intercalate ", " (first :: (rest ++ (maskArguments mask?).map Argument.text)) =
      String.intercalate ", " (first :: rest) ++ maskText mask? := by
  induction rest generalizing first with
  | nil =>
    cases mask? with
    | none => exact String.append_empty.symm
    | some mask =>
      show String.intercalate ", " [first, mask.text] = _
      rw [String.intercalate_cons_cons, String.intercalate_singleton, String.intercalate_singleton,
        String.append_assoc]
      rfl
  | cons next rest ih =>
    rw [List.cons_append, String.intercalate_cons_cons, ih, String.intercalate_cons_cons,
      String.append_assoc, String.append_assoc, String.append_assoc]

theorem readData_text (kind : Kind) (offset : UInt32) (mask? : Option Mask) (view : View)
    (depth : Nat) :
    ((Operation.readData kind offset mask?).statements view).map (Statement.text depth) =
      ["return " ++ (view.storage ++ "." ++ ("getDataField_" ++ suffixOf kind ++ maskSuffix mask?)
        ++ "(" ++ (Text.decimal offset.toNat ++ maskText mask?) ++ ")") ++ ";"] := by
  have harguments := intercalate_maskArguments (Text.decimal offset.toNat) [] mask?
  rw [String.intercalate_singleton] at harguments
  rw [← harguments]
  rfl

theorem writeData_text (kind : Kind) (offset : UInt32) (mask? : Option Mask) (view : View)
    (depth : Nat) :
    ((Operation.writeData kind offset mask?).statements view).map (Statement.text depth) =
      [View.builder.storage ++ "." ++ ("setDataField_" ++ suffixOf kind ++ maskSuffix mask?)
        ++ "(" ++ (Text.decimal offset.toNat ++ ", " ++ "value" ++ maskText mask?) ++ ")"
        ++ ";"] := by
  have harguments := intercalate_maskArguments (Text.decimal offset.toNat) ["value"] mask?
  rw [String.intercalate_cons_cons, String.intercalate_singleton] at harguments
  rw [← harguments]
  rfl

/-- The guard of a getter lets it pass while its field is readable. -/
theorem guard_run_get {s : StructInfo} {f : Field} {which? : Option Call} {input : Input P}
    {storage : Storage P}
    (h : f.inUnion = true → activeTag? which? input storage = some f.discriminant.toNat)
    (rest : List Statement) :
    Statement.runAll which? input storage
        (((UnionTag.ofField? s f).map fun tag => tag.guard .get).toList ++ rest) =
      Statement.runAll which? input storage rest := by
  cases hu : f.inUnion with
  | false => simp [UnionTag.ofField?, hu]
  | true => simp [UnionTag.ofField?, hu, Statement.runAll, UnionTag.guard, Statement.run, h hu]

/-- The bits of a data field. -/
def Storage.patternOf (s : Storage P) (slot : SlotField) : Nat :=
  s.pattern (slot.offset.toNat * bitWidth slot.type.kind) (bitWidth slot.type.kind)

/-- A union member that can be told from the others after it has been written: there is a
discriminant, and the member takes up no bit of it. -/
def SparesTag (s : StructInfo) (slot : SlotField) : Prop :=
  s.hasUnion = true ∧ ∀ i < 16,
    ¬(⟨slot.type.kind, slot.offset⟩ : Slot).Covers (.bit (s.discriminantOffset.toNat * 16 + i))

/-- The getters of a field, one for each view, and its setter belong together: what is read is what
is stored but for the bits of the default, and what has been written is read back. -/
structure KeepsValues (s : StructInfo) (f : Field) (slot : SlotField)
    (get : View → List Statement) (set : List Statement) : Prop where
  reads : ∀ (P : Type) (body : StructBody) (view : View) (input : Input P) (storage : Storage P),
    body.info = s →
    (f.inUnion = true →
      activeTag? (body.whichCall? view) input storage = some f.discriminant.toNat) →
    Statement.runAll (body.whichCall? view) input storage (get view) =
      .returned (.pattern (storage.patternOf slot ^^^ slot.default.pattern)) storage
  reads_unset : ∀ (P : Type) (body : StructBody) (view : View) (input : Input P)
    (storage : Storage P), body.info = s →
    (f.inUnion = true →
      activeTag? (body.whichCall? view) input storage = some f.discriminant.toNat) →
    storage.patternOf slot = 0 →
    Statement.runAll (body.whichCall? view) input storage (get view) =
      .returned (.pattern slot.default.pattern) storage
  reads_written : ∀ (P : Type) (body : StructBody) (input : Input P) (before : Storage P)
    (value : Nat), body.info = s → (f.inUnion = true → SparesTag s slot) →
    value < 2 ^ bitWidth slot.type.kind →
    (∀ i < bitWidth slot.type.kind, input.bits i = value.testBit i) →
    ∃ after, Statement.runAll (body.whichCall? .builder) input before set = .next after ∧
      ∀ (view : View) (input' : Input P),
        Statement.runAll (body.whichCall? view) input' after (get view) =
          .returned (.pattern value) after

section Field

variable {s : StructInfo} {f : Field} {slot : SlotField} {mask? : Option Mask}

/-- The getter that goes with a mask. -/
def getter (s : StructInfo) (f : Field) (slot : SlotField) (mask? : Option Mask) (view : View) :
    List Statement :=
  ((UnionTag.ofField? s f).map fun tag => tag.guard .get).toList
    ++ (Operation.readData slot.type.kind slot.offset mask?).statements view

def setter (s : StructInfo) (f : Field) (slot : SlotField) (mask? : Option Mask) :
    List Statement :=
  ((UnionTag.ofField? s f).map fun tag => tag.guard .set).toList
    ++ (Operation.writeData slot.type.kind slot.offset mask?).statements .builder

theorem getter_run (hd : sectionOf slot.type.kind = .data) {bits : Nat → Bool}
    (hmask : maskBits? mask?.isSome (maskArguments mask?) = some bits)
    (hbits : (Nat.ofBits fun i : Fin (bitWidth slot.type.kind) => bits i) = slot.default.pattern)
    {which? : Option Call} {input : Input P} {storage : Storage P}
    (hactive : f.inUnion = true →
      activeTag? which? input storage = some f.discriminant.toNat) (view : View) :
    Statement.runAll which? input storage (getter s f slot mask? view) =
      .returned (.pattern (storage.patternOf slot ^^^ slot.default.pattern)) storage := by
  rw [getter, guard_run_get hactive, readData_run hd hmask, hbits]
  rfl

/-- The setter runs to its end. It leaves the value combined with the default, and the tag of a
union member that spares it. -/
theorem setter_run (hd : sectionOf slot.type.kind = .data) {bits : Nat → Bool}
    (hmask : maskBits? mask?.isSome (maskArguments mask?) = some bits)
    (hbits : (Nat.ofBits fun i : Fin (bitWidth slot.type.kind) => bits i) = slot.default.pattern)
    (which? : Option Call) (input : Input P) (before : Storage P) :
    ∃ after, Statement.runAll which? input before (setter s f slot mask?) = .next after ∧
      after.patternOf slot =
        (Nat.ofBits fun i : Fin (bitWidth slot.type.kind) => input.bits i) ^^^
          slot.default.pattern ∧
      (f.inUnion = true → SparesTag s slot → after.HoldsTag s f.discriminant) := by
  obtain ⟨tagged, htagged, htag, -⟩ := guard_run_writing s f .set rfl which? input before
    ((Operation.writeData slot.type.kind slot.offset mask?).statements .builder)
  refine ⟨_, by rw [setter, htagged, writeData_run hd hmask], ?_, ?_⟩
  · rw [Storage.patternOf, Storage.pattern_store, ofBits_xor, hbits]
  · intro hu hspares i hi
    rw [← htag hu i hi]
    exact if_neg fun hin => hspares.2 i hi ⟨hd, hin⟩

theorem keepsValues (hd : sectionOf slot.type.kind = .data) {bits : Nat → Bool}
    (hmask : maskBits? mask?.isSome (maskArguments mask?) = some bits)
    (hbits : (Nat.ofBits fun i : Fin (bitWidth slot.type.kind) => bits i) = slot.default.pattern) :
    KeepsValues s f slot (getter s f slot mask?) (setter s f slot mask?) where
  reads _ _ view _ _ _ hactive := getter_run hd hmask hbits hactive view
  reads_unset := by
    intro P body view input storage _ hactive hzero
    rw [getter_run hd hmask hbits hactive, hzero, Nat.zero_xor]
  reads_written := by
    intro P body input before value hbody hspares hlt hinput
    obtain ⟨after, hafter, hstored, htag⟩ := setter_run hd hmask hbits (body.whichCall? .builder)
      input before (s := s) (f := f)
    refine ⟨after, hafter, ?_⟩
    intro view input'
    have hactive : f.inUnion = true →
        activeTag? (body.whichCall? view) input' after = some f.discriminant.toNat := by
      intro hu
      subst hbody
      exact activeTag?_of_holdsTag (hspares hu).1 (htag hu (hspares hu)) view input'
    have hvalue : (Nat.ofBits fun i : Fin (bitWidth slot.type.kind) => input.bits i) = value := by
      have heq : (fun i : Fin (bitWidth slot.type.kind) => input.bits i) =
          fun i : Fin (bitWidth slot.type.kind) => value.testBit i := by
        funext i
        exact hinput i i.isLt
      rw [heq, Nat.ofBits_testBit, Nat.mod_eq_of_lt hlt]
    rw [getter_run hd hmask hbits hactive, hstored, Nat.xor_xor_cancel_right, hvalue]

end Field

/-- A data field whose default lies in the range of its kind has bindings in every file. Its getters
and its setter have the same mask, which is the bits of the default, or none of them has one, if
these bits are all zero. So an unset field reads as its default, and what has been written is read
back. -/
theorem masked_access_keeps_values (s : StructInfo) (f : Field) (slot : SlotField)
    (hf : f.body = .slot slot) (hd : sectionOf slot.type.kind = .data)
    (hkind : slot.default.kind = slot.type.kind)
    (hrange : ∀ i, (slot.type.kind, i) ∈ slot.integers → slot.type.kind.InRange i) :
    slot.type.kind.numberOf slot.default.pattern = slot.default.number ∧
    (slot.type.kind = .float32 → slot.default.IsSingle) ∧
    (slot.type.kind = .float64 → slot.default.pattern = slot.default.float.bits.toNat) ∧
    (∀ p : WordPair, (Scalar.words p).pattern? 64 =
      some ((p.high * 2 ^ 32 + p.low) % 2 ^ 64).toNat) ∧
    ∃ mask? : Option Mask,
      (mask? = none ↔ slot.default.pattern = 0) ∧
      (∀ mask, mask? = some mask → Scalar.read? mask.text = some mask ∧
        mask.pattern? (bitWidth slot.type.kind) = some slot.default.pattern) ∧
      ∀ (context : FileContext) (scope : String) (nodeId : UInt64) (used : UsedFiles),
        ∃ (b : FieldBindings) (get : View → List Statement) (set : List Statement),
          Generation.run (fieldBindings scope nodeId s f) context used = (.ok b, used) ∧
          (∀ view, b.method? view .get = some (get view) ∧ ∀ depth,
            Defines (b.text view depth) (depth + 1) ("get" ++ titleCase f.name) (get view) ∧
            (get view).getLast?.map (Statement.text depth) =
              some ("return " ++ (view.storage ++ "."
                ++ ("getDataField_" ++ suffixOf slot.type.kind ++ maskSuffix mask?) ++ "("
                ++ (Text.decimal slot.offset.toNat ++ maskText mask?) ++ ")") ++ ";")) ∧
          (b.method? .builder .set = some set ∧ ∀ depth,
            Defines (b.text .builder depth) (depth + 1) ("set" ++ titleCase f.name) set ∧
            set.getLast?.map (Statement.text depth) =
              some (View.builder.storage ++ "."
                ++ ("setDataField_" ++ suffixOf slot.type.kind ++ maskSuffix mask?) ++ "("
                ++ (Text.decimal slot.offset.toNat ++ ", " ++ "value" ++ maskText mask?) ++ ")"
                ++ ";")) ∧
          KeepsValues s f slot get set := by
  have hfits : slot.default.Fits :=
    Value.fits_of_inRange (hkind ▸ hd) (hkind ▸ hrange)
  obtain ⟨hnone, hsome⟩ := defaultMask?_pattern (hkind ▸ hd) hfits
  obtain ⟨bits, hmask, hbits⟩ := maskBits?_pattern hnone.1 hsome
  rw [hkind] at hsome hbits
  refine ⟨hkind ▸ hfits.numberOf_pattern, fun hk => hfits.isSingle (hkind.trans hk),
    fun hk => hfits.pattern_eq_float.2 (hkind.trans hk), ?_, defaultMask? slot.default, hnone,
    fun mask hm => ⟨mask.read?_text, hsome mask hm⟩, ?_⟩
  · intro p
    rw [Scalar.pattern?_of_bits? rfl, BitVec.toNat_ofInt]
    rfl
  intro context scope nodeId used
  refine ⟨_, getter s f slot (defaultMask? slot.default),
    setter s f slot (defaultMask? slot.default), run_fieldBindings_data hf hd, fun view => ?_, ?_, keepsValues hd hmask hbits⟩
  · have hget : FieldBindings.method? ⟨scope, f.name, UnionTag.ofField? s f, dataAccessors slot⟩
        view .get = some (getter s f slot (defaultMask? slot.default) view) := by
      cases view <;> rfl
    refine ⟨hget, fun depth => ⟨FieldBindings.text_defines hget depth, ?_⟩⟩
    rw [getter, ← List.getLast?_map, List.map_append, readData_text, List.getLast?_concat]
  · have hset : FieldBindings.method? ⟨scope, f.name, UnionTag.ofField? s f, dataAccessors slot⟩
        .builder .set = some (setter s f slot (defaultMask? slot.default)) := rfl
    refine ⟨hset, fun depth => ⟨FieldBindings.text_defines hset depth, ?_⟩⟩
    rw [setter, ← List.getLast?_map, List.map_append, writeData_text, List.getLast?_concat]

namespace Sample

/-- A level is the second member of a union and is minus two if it is not set. -/
def levelSlot : SlotField :=
  ⟨1, .plain .int16 0, { (Value.zero .int16) with int := -2 }, 0⟩

def level : Field :=
  ⟨"level", 0, 1, .slot levelSlot⟩

def info : StructInfo :=
  ⟨1, 0, 7, false, 2, 0, [level]⟩

def body : StructBody :=
  ⟨"Sample", info, []⟩

/-- Only the tag of the level is set. -/
def storage : Storage Unit :=
  ⟨fun i => i == 0, fun _ => none⟩

def input (value : Nat) : Input Unit :=
  ⟨value.testBit, fun _ pointers => pointers⟩

theorem level_inRange (i : Int) (h : (Kind.int16, i) ∈ levelSlot.integers) :
    Kind.int16.InRange i := by
  rw [show levelSlot.integers = [(Kind.int16, -2)] from rfl, List.mem_singleton] at h
  cases h
  exact ⟨by decide, by decide⟩

theorem sparesTag : SparesTag info levelSlot := by
  refine ⟨rfl, ?_⟩
  rintro i hi ⟨-, hl, -⟩
  have hl' : 1 * 16 ≤ 0 * 16 + i := hl
  omega

end Sample

theorem masked_access_keeps_values_sample :
    (∀ i, (Kind.int16, i) ∈ Sample.levelSlot.integers → Kind.int16.InRange i) ∧
    ∃ mask? : Option Mask, mask? ≠ none ∧
      (∀ mask, mask? = some mask → mask.pattern? 16 = some 65534) ∧
      ∀ (context : FileContext) (scope : String) (nodeId : UInt64) (used : UsedFiles),
        ∃ (b : FieldBindings) (get : View → List Statement) (set : List Statement),
          Generation.run (fieldBindings scope nodeId Sample.info Sample.level) context used =
            (.ok b, used) ∧
          (∀ view, b.method? view .get = some (get view)) ∧ b.method? .builder .set = some set ∧
          (∀ view, Statement.runAll (Sample.body.whichCall? view) (Sample.input 0) Sample.storage
            (get view) = .returned (.pattern 65534) Sample.storage) ∧
          ∃ after, Statement.runAll (Sample.body.whichCall? .builder) (Sample.input 32768)
              Sample.storage set = .next after ∧
            ∀ view input', Statement.runAll (Sample.body.whichCall? view) input' after (get view) =
              .returned (.pattern 32768) after := by
  obtain ⟨-, -, -, -, mask?, hnone, hsome, hbindings⟩ := masked_access_keeps_values Sample.info
    Sample.level Sample.levelSlot rfl rfl rfl Sample.level_inRange
  have hpattern : Sample.levelSlot.default.pattern = 65534 := by decide
  rw [hpattern] at hnone hsome
  refine ⟨Sample.level_inRange, mask?, fun h => absurd (hnone.1 h) (by decide),
    fun mask h => (hsome mask h).2, ?_⟩
  intro context scope nodeId used
  obtain ⟨b, get, set, hrun, hget, hset, hkeeps⟩ := hbindings context scope nodeId used
  refine ⟨b, get, set, hrun, fun view => (hget view).1, hset.1, ?_, ?_⟩
  · intro view
    rw [← hpattern]
    refine hkeeps.reads_unset Unit Sample.body view _ _ rfl (fun _ => ?_) (by decide)
    cases view <;> decide
  · exact hkeeps.reads_written Unit Sample.body _ _ 32768 rfl (fun _ => Sample.sparesTag)
      (by decide) fun _ _ => rfl

end Bindings
end SchemaBindings
