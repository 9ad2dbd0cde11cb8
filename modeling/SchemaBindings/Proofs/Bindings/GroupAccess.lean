import SchemaBindings.Bindings.Field
import SchemaBindings.Proofs.Bindings.Execution
import SchemaBindings.Proofs.Bindings.Generation
import SchemaBindings.Proofs.Layout.Occupancy

namespace SchemaBindings.Bindings

open SchemaBindings.Schema SchemaBindings.Layout

variable {P : Type}

theorem zeroScalar_bits (k : Kind) (h : sectionOf k = .data) :
    (zeroScalar k).bits? (bitWidth k) = some fun _ => false := by
  have hz : (0 : Int).testBit = fun _ => false := by
    funext i
    exact Nat.zero_testBit i
  cases k <;> simp [sectionOf] at h <;>
    simp [zeroScalar, bitWidth, Scalar.bits?, Scalar.value, hz]

/-- Clearing a slot zeroes what the slot covers and leaves the rest. -/
theorem slotClear_run (slot : Slot) (hp : slot.place ≠ .none) (which? : Option Call)
    (input : Input P) (s : Storage P) :
    ∃ t, (slotClear slot).run which? input s = .next t ∧
      (∀ c, slot.Covers c → t.ZeroAt c) ∧ ∀ c, ¬slot.Covers c → t.SameAt s c := by
  cases h : slot.place with
  | data =>
    have hw := dataWidth?_suffixOf slot.kind h
    have hz := zeroScalar_bits slot.kind h
    refine ⟨s.store slot.start slot.bits fun _ => false, ?_, ?_, ?_⟩
    · simp [slotClear, h, Statement.run, Call.run, hw, Argument.bits?, hz, maskBits?,
        Slot.start, Slot.bits]
    · rintro (i | i) hc
      · have hin : slot.start ≤ i ∧ i < slot.start + slot.bits := hc.2
        exact if_pos hin
      · cases h.symm.trans hc.1
    · rintro (i | i) hc
      · have hout : ¬(slot.start ≤ i ∧ i < slot.start + slot.bits) := fun hin => hc ⟨h, hin⟩
        exact if_neg hout
      · rfl
  | pointers =>
    refine ⟨s.clearPointer slot.offset.toNat, ?_, ?_, ?_⟩
    · simp [slotClear, h, Statement.run, Call.run]
    · rintro (i | i) hc
      · cases h.symm.trans hc.1
      · exact if_pos hc.2.symm
    · rintro (i | i) hc
      · rfl
      · exact if_neg fun he => hc ⟨h, he.symm⟩
  | none => exact absurd h hp

theorem slotClears_run (slots : List Slot) (hp : ∀ slot ∈ slots, slot.place ≠ .none)
    (which? : Option Call) (input : Input P) (s : Storage P) (rest : List Statement) :
    ∃ t, Statement.runAll which? input s (slots.map slotClear ++ rest) =
        Statement.runAll which? input t rest ∧
      (∀ c, (∃ slot ∈ slots, slot.Covers c) → t.ZeroAt c) ∧
      ∀ c, (¬∃ slot ∈ slots, slot.Covers c) → t.SameAt s c := by
  induction slots generalizing s with
  | nil => exact ⟨s, rfl, by simp, fun c _ => .refl s c⟩
  | cons slot slots ih =>
    obtain ⟨u, hu, hzero, hsame⟩ := slotClear_run slot (hp slot List.mem_cons_self) which? input s
    obtain ⟨t, ht, hzero', hsame'⟩ :=
      ih (fun o ho => hp o (List.mem_cons_of_mem _ ho)) u
    refine ⟨t, ?_, ?_, ?_⟩
    · rw [List.map_cons, List.cons_append, Statement.runAll, hu]
      exact ht
    · rintro c ⟨o, ho, hc⟩
      by_cases hr : ∃ o ∈ slots, o.Covers c
      · exact hzero' c hr
      · rcases List.mem_cons.1 ho with rfl | ho
        · exact (hsame' c hr).zeroAt (hzero c hc)
        · exact absurd ⟨o, ho, hc⟩ hr
    · intro c hc
      have hr : ¬∃ o ∈ slots, o.Covers c :=
        fun ⟨o, ho, hoc⟩ => hc ⟨o, List.mem_cons_of_mem _ ho, hoc⟩
      have hs : ¬slot.Covers c := fun h => hc ⟨slot, List.mem_cons_self, h⟩
      exact (hsame' c hr).trans (hsame c hs)

/-- The presence test of a slot tells whether something it covers is not zero. -/
theorem slotTest_run (view : View) (slot : Slot) (hp : slot.place ≠ .none) (input : Input P)
    (s : Storage P) :
    ∃ b, (slotTest view slot).run input s = some b ∧
      (b = true ↔ ∃ c, slot.Covers c ∧ ¬s.ZeroAt c) := by
  cases h : slot.place with
  | data =>
    have hw := dataWidth?_suffixOf slot.kind h
    refine ⟨s.pattern slot.start slot.bits != 0, ?_, ?_⟩
    · simp [slotTest, h, Test.run, Call.run, hw, Slot.start, Slot.bits]
    · rw [bne_iff_ne, ne_eq, Storage.pattern_eq_zero_iff]
      constructor
      · intro hn
        push Not at hn
        obtain ⟨i, hl, hr, hi⟩ := hn
        exact ⟨.bit i, ⟨h, hl, hr⟩, hi⟩
      · rintro ⟨i | i, hc, hi⟩ hz
        · exact hi (hz i hc.2.1 hc.2.2)
        · cases h.symm.trans hc.1
  | pointers =>
    refine ⟨(s.pointer slot.offset.toNat).isSome, ?_, ?_⟩
    · simp [slotTest, h, Test.run, Call.run]
    · rw [Option.isSome_iff_ne_none]
      constructor
      · intro hn
        exact ⟨.pointer slot.offset.toNat, ⟨h, rfl⟩, hn⟩
      · rintro ⟨i | i, hc, hi⟩
        · cases h.symm.trans hc.1
        · rw [show slot.offset.toNat = i from hc.2]
          exact hi
  | none => exact absurd h hp

theorem anyOf_run_cons {input : Input P} {s : Storage P} {test : Test} {tests : List Test}
    {b b' : Bool} (h : test.run input s = some b)
    (h' : (Answer.anyOf tests).run input s = some (.truth b', s)) :
    (Answer.anyOf (test :: tests)).run input s = some (.truth (b || b'), s) := by
  simp only [Answer.run] at h' ⊢
  cases hr : tests.mapM (Test.run input s) with
  | none => simp [hr] at h'
  | some results =>
    have hb : results.any id = b' := by simpa [hr] using h'
    simp [List.mapM_cons, h, hr, hb]

theorem slotTests_run (view : View) (slots : List Slot) (hp : ∀ slot ∈ slots, slot.place ≠ .none)
    (input : Input P) (s : Storage P) :
    ∃ b, (Answer.anyOf (slots.map (slotTest view))).run input s = some (.truth b, s) ∧
      (b = true ↔ ∃ c, (∃ slot ∈ slots, slot.Covers c) ∧ ¬s.ZeroAt c) := by
  induction slots with
  | nil => exact ⟨false, rfl, by simp⟩
  | cons slot slots ih =>
    obtain ⟨b, hb, hiff⟩ := slotTest_run view slot (hp slot List.mem_cons_self) input s
    obtain ⟨b', hb', hiff'⟩ := ih fun o ho => hp o (List.mem_cons_of_mem _ ho)
    refine ⟨b || b', anyOf_run_cons hb hb', ?_⟩
    rw [Bool.or_eq_true, hiff, hiff', ← exists_or]
    refine exists_congr fun c => ?_
    simp only [List.mem_cons, or_and_right, exists_or, exists_eq_left]

/-- The storage after a union member has been made the active one. -/
def Storage.retag (s : Storage P) (t : UnionTag) : Storage P :=
  s.store (t.offset.toNat * 16) 16 t.value.toNat.testBit

theorem Storage.retag_bit (s : Storage P) (t : UnionTag) {i : Nat} (h : i < 16) :
    (s.retag t).bit (t.offset.toNat * 16 + i) = t.value.toNat.testBit i := by
  have hin : t.offset.toNat * 16 ≤ t.offset.toNat * 16 + i ∧
      t.offset.toNat * 16 + i < t.offset.toNat * 16 + 16 := by omega
  simp [retag, store, hin]

theorem Storage.retag_sameAt (s : Storage P) (t : UnionTag) {c : Cell}
    (h : ∀ i < 16, c ≠ .bit (t.offset.toNat * 16 + i)) : (s.retag t).SameAt s c := by
  cases c with
  | pointer i => rfl
  | bit i =>
    refine if_neg fun hin => h (i - t.offset.toNat * 16) (by omega) ?_
    rw [Nat.add_sub_cancel' hin.1]

/-- The accessors that write. -/
def Verb.isWriting : Verb → Bool
  | set | init | adopt => true
  | _ => false

theorem UnionTag.guard_run_writing (t : UnionTag) (verb : Verb) (hv : verb.isWriting = true)
    (which? : Option Call) (input : Input P) (s : Storage P) :
    (t.guard verb).run which? input s = .next (s.retag t) := by
  have hg : t.guard verb = .perform (.storage .builder (.setData "uint16" false) t.offset.toNat
      [.scalar (.number t.value.toNat)]) := by
    cases verb <;> simp [Verb.isWriting] at hv <;> rfl
  have hbits : Scalar.bits? 16 (.number t.value.toNat) = some t.value.toNat.testBit := rfl
  rw [hg]
  simp [Statement.run, Call.run, dataWidth?, Argument.bits?, hbits, maskBits?, Storage.retag]

/-- What the bindings of a field are made of: the accessors of its slot, or those of its group. -/
theorem fieldBindings_eq_ok {context : FileContext} {used used' : UsedFiles} {scope : String}
    {nodeId : UInt64} {s : StructInfo} {f : Field} {b : FieldBindings}
    (h : Generation.run (fieldBindings scope nodeId s f) context used = (.ok b, used')) :
    ∃ accessors, b = ⟨scope, f.name, UnionTag.ofField? s f, accessors⟩ ∧
      ((∃ slot u u', f.body = .slot slot ∧
        Generation.run (slotAccessors nodeId slot) context u = (.ok accessors, u')) ∨
      ∃ id group slots, f.body = .group id ∧ context.graph.find? id = some group ∧
        occupied context.graph group = .ok slots ∧
        accessors = groupAccessors (scope ++ "." ++ titleCase f.name) slots) := by
  rw [fieldBindings, Generation.run_within_eq_ok_iff] at h
  obtain ⟨accessors, mid, h, hb⟩ := Generation.run_bind_eq_ok_iff.1 h
  refine ⟨accessors, Generation.run_pure_eq_ok hb, ?_⟩
  cases hf : f.body with
  | slot slot =>
    simp only [hf] at h
    exact Or.inl ⟨slot, used, mid, rfl, h⟩
  | group id =>
    simp only [hf] at h
    obtain ⟨group, _, hgroup, h⟩ := Generation.run_bind_eq_ok_iff.1 h
    obtain ⟨context', _, hcontext, h⟩ := Generation.run_bind_eq_ok_iff.1 h
    obtain ⟨slots, _, hslots, hacc⟩ := Generation.run_bind_eq_ok_iff.1 h
    simp only [Generation.run_find, Generation.run_read, Generation.run_ofExcept,
      Generation.run_pure, Prod.mk.injEq, Except.ok.injEq] at hgroup hcontext hslots hacc
    obtain ⟨rfl, -⟩ := hcontext
    exact Or.inr ⟨id, group, slots, rfl, Graph.find_eq_ok_iff.1 hgroup.1, hslots.1, hacc.1.symm⟩

/-- The accessors generated for a group: its slots are cleared one by one, and tested one by one. -/
theorem fieldBindings_group_methods {context : FileContext} {used used' : UsedFiles}
    {scope : String} {nodeId : UInt64} {s : StructInfo} {f : Field} {id : UInt64}
    {b : FieldBindings} (hf : f.body = .group id)
    (h : Generation.run (fieldBindings scope nodeId s f) context used = (.ok b, used')) :
    ∃ group slots type, context.graph.find? id = some group ∧
      occupied context.graph group = .ok slots ∧ b.name = f.name ∧
      b.method? .builder .init = some
        (((UnionTag.ofField? s f).map fun tag => tag.guard .init).toList
        ++ (slots.map slotClear ++ [.answer (.groupView type .builder)])) ∧
      ∀ view, b.method? view .has = some
        (((UnionTag.ofField? s f).map fun tag => tag.guard .has).toList
        ++ [.answer (.anyOf (slots.map (slotTest view)))]) := by
  obtain ⟨accessors, rfl, hslot | ⟨id', group, slots, hf', hgroup, hslots, rfl⟩⟩ :=
    fieldBindings_eq_ok h
  · obtain ⟨slot, -, -, hf', -⟩ := hslot
    cases hf.symm.trans hf'
  cases hf.symm.trans hf'
  refine ⟨group, slots, _, hgroup, hslots, rfl, rfl, ?_⟩
  intro view
  cases view <;> rfl

theorem occupied_place {g : Graph} {n : Node} {slots : List Slot} (h : occupied g n = .ok slots) :
    ∀ slot ∈ slots, slot.place ≠ .none :=
  fun _ hs => (candidate_of_mem_occupied h hs).place_ne_none

/-- What the guard of a writing accessor leaves: the tag of a union member, and nothing for other
fields. -/
theorem guard_run_writing (s : StructInfo) (f : Field) (verb : Verb) (hv : verb.isWriting = true)
    (which? : Option Call) (input : Input P) (before : Storage P) (rest : List Statement) :
    ∃ tagged, Statement.runAll which? input before
        (((UnionTag.ofField? s f).map fun tag => tag.guard verb).toList ++ rest) =
        Statement.runAll which? input tagged rest ∧
      (f.inUnion = true → ∀ i < 16, tagged.bit (s.discriminantOffset.toNat * 16 + i) =
        f.discriminant.toNat.testBit i) ∧
      ∀ c, ¬(f.inUnion = true ∧ ∃ i < 16, c = .bit (s.discriminantOffset.toNat * 16 + i)) →
        tagged.SameAt before c := by
  cases hu : f.inUnion with
  | false =>
    refine ⟨before, ?_, by simp, fun c _ => .refl before c⟩
    simp [UnionTag.ofField?, hu]
  | true =>
    let tag : UnionTag := ⟨f.discriminant, s.discriminantOffset⟩
    refine ⟨before.retag tag, ?_, fun _ i hi => before.retag_bit tag hi, ?_⟩
    · have ht : UnionTag.ofField? s f = some tag := by simp [UnionTag.ofField?, hu, tag]
      rw [ht, Option.map_some, Option.toList_some, List.singleton_append, Statement.runAll,
        tag.guard_run_writing verb hv]
    · intro c hc
      exact before.retag_sameAt tag fun i hi he => hc ⟨rfl, i, hi, he⟩

/-- The initialiser of a group clears the group and, in a union, makes it the active member; all
else stays. The presence test of a group tells whether anything of the group is set. -/
theorem group_init_and_presence (context : FileContext) (used used' : UsedFiles) (scope : String)
    (nodeId : UInt64) (s : StructInfo) (f : Field) (id : UInt64) (b : FieldBindings)
    (hf : f.body = .group id)
    (h : Generation.run (fieldBindings scope nodeId s f) context used = (.ok b, used')) :
    ∃ group, context.graph.find? id = some group ∧
      (∃ init, b.method? .builder .init = some init ∧
        (∀ depth, Defines (b.text .builder depth) (depth + 1) ("init" ++ titleCase f.name) init) ∧
        ∀ (which? : Option Call) (input : Input P) (before : Storage P), ∃ after,
          Statement.runAll which? input before init = .returned .object after ∧
          (∀ c, Occupies context.graph group c → after.ZeroAt c) ∧
          (f.inUnion = true → ∀ i < 16,
            ¬Occupies context.graph group (.bit (s.discriminantOffset.toNat * 16 + i)) →
            after.bit (s.discriminantOffset.toNat * 16 + i) = f.discriminant.toNat.testBit i) ∧
          ∀ c, ¬Occupies context.graph group c →
            ¬(f.inUnion = true ∧ ∃ i < 16, c = .bit (s.discriminantOffset.toNat * 16 + i)) →
            after.SameAt before c) ∧
      ∀ view, ∃ guard tests,
        guard = ((UnionTag.ofField? s f).map fun tag => tag.guard .has).toList ∧
        b.method? view .has = some (guard ++ [.answer (.anyOf tests)]) ∧
        (∀ depth, Defines (b.text view depth) (depth + 1) ("has" ++ titleCase f.name)
          (guard ++ [.answer (.anyOf tests)])) ∧
        ∀ (input : Input P) (storage : Storage P), ∃ value,
          (Answer.anyOf tests).run input storage = some (.truth value, storage) ∧
          (value = true ↔ ∃ c, Occupies context.graph group c ∧ ¬storage.ZeroAt c) := by
  obtain ⟨group, slots, type, hgroup, hslots, hname, hinit, hhas⟩ :=
    fieldBindings_group_methods hf h
  have hplace := occupied_place hslots
  refine ⟨group, hgroup, ⟨_, hinit, ?_, ?_⟩, ?_⟩
  · intro depth
    have hd := FieldBindings.text_defines hinit depth
    rwa [hname] at hd
  · intro which? input before
    obtain ⟨tagged, htagged, htag, hsame⟩ := guard_run_writing s f .init rfl which? input before
      (slots.map slotClear ++ [.answer (.groupView type .builder)])
    obtain ⟨after, hafter, hzero, hrest⟩ := slotClears_run slots hplace which? input tagged
      [.answer (.groupView type .builder)]
    simp only [occupied_covers_iff hslots] at hzero hrest
    refine ⟨after, ?_, hzero, ?_, ?_⟩
    · rw [htagged, hafter]
      rfl
    · intro hu i hi hout
      have hb : after.bit _ = tagged.bit _ := hrest _ hout
      rw [hb, htag hu i hi]
    · intro c hout hc
      exact (hrest c hout).trans (hsame c hc)
  · intro view
    refine ⟨_, slots.map (slotTest view), rfl, hhas view, ?_, ?_⟩
    · intro depth
      have hd := FieldBindings.text_defines (hhas view) depth
      rwa [hname] at hd
    · intro input storage
      obtain ⟨value, hv, hiff⟩ := slotTests_run view slots hplace input storage
      simp only [occupied_covers_iff hslots] at hiff
      exact ⟨value, hv, hiff⟩

namespace Shapes

open SchemaBindings.Layout.Shapes

def shapeInfo : StructInfo :=
  shape.struct?.get rfl

def context : FileContext :=
  ⟨graph, default⟩

def boxField : Field :=
  ⟨"box", 1, 1, .group 2⟩

def boxBindings : FieldBindings :=
  ⟨"module.Shape", "box", some ⟨1, 1⟩, groupAccessors "module.Shape.Box" boxSlots⟩

/-- Storage in which every bit and every pointer is set. -/
def full : Storage Unit :=
  ⟨fun _ => true, fun _ => some ()⟩

def unchanged : Input Unit :=
  ⟨fun _ => true, fun _ pointers => pointers⟩

theorem run_fieldBindings_box :
    Generation.run (fieldBindings "module.Shape" 1 shapeInfo boxField) context [] =
      (.ok boxBindings, []) := by
  have hfind : context.graph.find 2 = .ok box := rfl
  have hslots : occupied context.graph box = .ok boxSlots := occupied_box
  simp only [fieldBindings, boxField, Generation.run_within, Generation.run_bind,
    Generation.run_find, hfind, Generation.run_read, Generation.run_ofExcept, hslots,
    Generation.run_pure]
  rfl

theorem occupies_box (c : Cell) : Occupies graph box c ↔ ∃ s ∈ boxSlots, s.Covers c :=
  (occupied_covers_iff occupied_box c).symm

end Shapes

/-- A box is cleared in full storage: its flag and its label go, the tag becomes one, and the bits
behind it stay. -/
theorem group_init_and_presence_box :
    Generation.run (fieldBindings "module.Shape" 1 Shapes.shapeInfo Shapes.boxField)
        Shapes.context [] = (.ok Shapes.boxBindings, []) ∧
    ∃ init, Shapes.boxBindings.method? .builder .init = some init ∧
      ∃ after, Statement.runAll none Shapes.unchanged Shapes.full init = .returned .object after ∧
        after.bit 40 = false ∧ after.pointer 0 = none ∧ after.bit 16 = true ∧
        after.bit 17 = false ∧ after.bit 90 = true ∧ after.pointer 1 = some () := by
  refine ⟨Shapes.run_fieldBindings_box, ?_⟩
  obtain ⟨group, hgroup, ⟨init, hinit, -, hrun⟩, -⟩ := group_init_and_presence _ _ _ _ _ _ _ 2 _ rfl
    Shapes.run_fieldBindings_box
  obtain rfl : Layout.Shapes.box = group := Option.some.inj hgroup
  obtain ⟨after, hafter, hzero, htag, hsame⟩ := hrun none Shapes.unchanged Shapes.full
  have hin : ∀ c, (∃ s ∈ Layout.Shapes.boxSlots, s.Covers c) → after.ZeroAt c :=
    fun c hc => hzero c ((Shapes.occupies_box c).2 hc)
  have hout : ∀ c, (¬∃ s ∈ Layout.Shapes.boxSlots, s.Covers c) →
      ¬Occupies Shapes.context.graph Layout.Shapes.box c :=
    fun c hc h => hc ((Shapes.occupies_box c).1 h)
  refine ⟨init, hinit, after, hafter, hin (.bit 40) (by decide), hin (.pointer 0) (by decide),
    htag rfl 0 (by decide) (hout _ (by decide)), htag rfl 1 (by decide) (hout _ (by decide)),
    hsame (.bit 90) (hout _ (by decide)) (by decide), hsame (.pointer 1) (hout _ (by decide)) ?_⟩
  rintro ⟨-, i, -, hi⟩
  cases hi

end SchemaBindings.Bindings
