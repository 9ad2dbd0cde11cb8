import SchemaBindings.Bindings.Generate
import SchemaBindings.Proofs.Bindings.GroupAccess

namespace SchemaBindings.Bindings

open SchemaBindings.Schema SchemaBindings.Layout

variable {P : Type}

theorem accessorSuffix?_isSome_iff (k : Kind) :
    (accessorSuffix? k).isSome = true ↔ sectionOf k = .data := by
  cases k <;> simp [accessorSuffix?, sectionOf]

/-- How values of a type are accessed behind a pointer; structs and lists have classes of their
own. -/
inductive AccessedAs (context : FileContext) (t : TypeRef) : PointerShape → Prop where
  | text (h : t.kind = .text) : AccessedAs context t .text
  | data (h : t.kind = .data) : AccessedAs context t .data
  | struct {type : TypeExpr} {used used' : UsedFiles} (h : t.kind = .struct)
      (htype : Generation.run (typeExpr t) context used = (.ok type, used')) :
      AccessedAs context t (.struct type)
  | list {type : TypeExpr} {used used' : UsedFiles} (h : t.kind = .list)
      (htype : Generation.run (typeExpr t) context used = (.ok type, used')) :
      AccessedAs context t (.list type)
  | any (h : t.kind = .anyPointer) : AccessedAs context t .any

section Slot

variable {context : FileContext} {used used' : UsedFiles} {nodeId : UInt64} {slot : SlotField}
  {accessors : List (Verb × Operation)}

/-- The accessors of a slot, by the section that its kind belongs to. -/
theorem slotAccessors_shapes
    (h : Generation.run (slotAccessors nodeId slot) context used = (.ok accessors, used')) :
    (slot.type.kind = .void ∧ accessors = voidAccessors) ∨
    (sectionOf slot.type.kind = .data ∧ accessors = dataAccessors slot) ∨
    (slot.type.kind = .interface ∧ accessors = []) ∨
    ∃ shape default?, AccessedAs context slot.type shape ∧
      accessors = pointerAccessors shape slot.offset default? := by
  unfold slotAccessors at h
  split at h
  · next hk => exact Or.inl ⟨hk, Generation.run_pure_eq_ok h⟩
  · next hk => exact Or.inr (Or.inr (Or.inr ⟨_, _, .text hk, Generation.run_pure_eq_ok h⟩))
  · next hk => exact Or.inr (Or.inr (Or.inr ⟨_, _, .data hk, Generation.run_pure_eq_ok h⟩))
  · next hk =>
    obtain ⟨type, htype, hacc⟩ := Generation.run_map_eq_ok_iff.1 h
    exact Or.inr (Or.inr (Or.inr ⟨_, _, .struct hk htype, hacc.symm⟩))
  · next hk =>
    obtain ⟨type, htype, hacc⟩ := Generation.run_map_eq_ok_iff.1 h
    exact Or.inr (Or.inr (Or.inr ⟨_, _, .list hk htype, hacc.symm⟩))
  · next hk => exact Or.inr (Or.inr (Or.inl ⟨hk, Generation.run_pure_eq_ok h⟩))
  · next hk => exact Or.inr (Or.inr (Or.inr ⟨_, _, .any hk, Generation.run_pure_eq_ok h⟩))
  · split_ifs at h with hdata
    · exact Or.inr (Or.inl ⟨(accessorSuffix?_isSome_iff _).1 hdata, Generation.run_pure_eq_ok h⟩)
    · simp at h

theorem slotAccessors_cases
    (h : Generation.run (slotAccessors nodeId slot) context used = (.ok accessors, used')) :
    accessors = voidAccessors ∨
    (sectionOf slot.type.kind = .data ∧ accessors = dataAccessors slot) ∨
    (slot.type.kind = .interface ∧ accessors = []) ∨
    ∃ shape default?, accessors = pointerAccessors shape slot.offset default? :=
  (slotAccessors_shapes h).imp And.right <| Or.imp_right <| Or.imp_right
    fun ⟨shape, default?, _, hacc⟩ => ⟨shape, default?, hacc⟩

end Slot

/-- How a run can end in which nothing goes wrong. -/
def Outcome.finished? : Outcome P → Option (Storage P)
  | next s | returned _ s => some s
  | thrown .. | stuck => none

/-- An operation of a builder runs to its end and writes, of the data section, only some bits. -/
def Operation.WritesOnly (P : Type) (bits : Nat → Prop) (operation : Operation) : Prop :=
  ∀ (which? : Option Call) (input : Input P) (before : Storage P), ∃ after,
    (Statement.runAll which? input before (operation.statements .builder)).finished? = some after ∧
    ∀ i, ¬bits i → after.bit i = before.bit i

theorem ofBits_xor {width : Nat} (a b : Fin width → Bool) :
    (Nat.ofBits fun i => a i ^^ b i) = Nat.ofBits a ^^^ Nat.ofBits b := by
  apply Nat.eq_of_testBit_eq
  intro i
  rw [Nat.testBit_xor, Nat.testBit_ofBits, Nat.testBit_ofBits, Nat.testBit_ofBits]
  split <;> rfl

section Operation

variable {kind : Kind} {offset : UInt32} {mask? : Option Mask} {bits : Nat → Bool}

theorem readData_run (hd : sectionOf kind = .data)
    (hmask : maskBits? mask?.isSome (maskArguments mask?) = some bits) (which? : Option Call)
    (input : Input P) (s : Storage P) (view : View) :
    Statement.runAll which? input s ((Operation.readData kind offset mask?).statements view) =
      .returned (.pattern (s.pattern (offset.toNat * bitWidth kind) (bitWidth kind) ^^^
        Nat.ofBits fun i : Fin (bitWidth kind) => bits i)) s := by
  rw [Storage.pattern, ← ofBits_xor]
  simp [Operation.statements, Statement.runAll, Statement.run, Answer.run, Call.run,
    dataWidth?_suffixOf _ hd, hmask]

theorem writeData_run (hd : sectionOf kind = .data)
    (hmask : maskBits? mask?.isSome (maskArguments mask?) = some bits) (which? : Option Call)
    (input : Input P) (s : Storage P) (view : View) :
    Statement.runAll which? input s ((Operation.writeData kind offset mask?).statements view) =
      .next (s.store (offset.toNat * bitWidth kind) (bitWidth kind)
        fun i => input.bits i ^^ bits i) := by
  simp [Operation.statements, Statement.runAll, Statement.run, Call.run,
    dataWidth?_suffixOf _ hd, Argument.bits?, hmask]

end Operation

theorem writeData_writesOnly (kind : Kind) (offset : UInt32) (mask? : Option Mask)
    (h : sectionOf kind = .data) :
    (Operation.writeData kind offset mask?).WritesOnly P fun i =>
      (⟨kind, offset⟩ : Slot).Covers (.bit i) := by
  intro which? input before
  have hmask : ∃ mask, maskBits? mask?.isSome (maskArguments mask?) = some mask := by
    cases mask? with
    | none => exact ⟨_, rfl⟩
    | some mask => exact ⟨_, rfl⟩
  obtain ⟨mask, hmask⟩ := hmask
  refine ⟨before.store (offset.toNat * bitWidth kind) (bitWidth kind)
    fun i => input.bits i ^^ mask i, ?_, ?_⟩
  · rw [writeData_run h hmask]
    rfl
  · intro i hi
    exact if_neg fun hin => hi ⟨h, hin⟩

theorem pointer_writesOnly (shape : PointerShape) (index : UInt32) (operation : Operation)
    (h : operation = .writePointer shape index ∨ operation = .initPointer shape index ∨
      operation = .adoptPointer shape index) :
    operation.WritesOnly P fun _ => False := by
  intro which? input before
  rcases h with rfl | rfl | rfl
  · exact ⟨_, rfl, fun _ _ => rfl⟩
  · cases shape <;> exact ⟨_, rfl, fun _ _ => rfl⟩
  · cases shape <;> exact ⟨_, rfl, fun _ _ => rfl⟩

theorem clearSlots_writesOnly (slots : List Slot) (type : String)
    (hp : ∀ slot ∈ slots, slot.place ≠ .none) :
    (Operation.clearSlots slots type).WritesOnly P fun i =>
      ∃ slot ∈ slots, slot.Covers (.bit i) := by
  intro which? input before
  obtain ⟨after, hafter, -, hsame⟩ := slotClears_run slots hp which? input before
    [.answer (.groupView type .builder)]
  refine ⟨after, ?_, fun i hi => hsame (.bit i) hi⟩
  rw [Operation.statements, hafter]
  rfl

theorem Operation.WritesOnly.mono {bits bits' : Nat → Prop} {operation : Operation}
    (h : operation.WritesOnly P bits) (hb : ∀ i, bits i → bits' i) :
    operation.WritesOnly P bits' := by
  intro which? input before
  obtain ⟨after, hafter, hsame⟩ := h which? input before
  exact ⟨after, hafter, fun i hi => hsame i fun h => hi (hb i h)⟩

/-- The discriminant of a struct holds a tag. -/
def Storage.HoldsTag (storage : Storage P) (s : StructInfo) (tag : UInt16) : Prop :=
  ∀ i < 16, storage.bit (s.discriminantOffset.toNat * 16 + i) = tag.toNat.testBit i

/-- No field of a struct takes up a bit of the discriminant. -/
def DiscriminantFree (g : Graph) (s : StructInfo) : Prop :=
  ∀ f ∈ s.fields, ∀ slot, FieldSlot g f slot →
    ∀ i < 16, ¬slot.Covers (.bit (s.discriminantOffset.toNat * 16 + i))

section Field

variable {context : FileContext} {used used' : UsedFiles} {scope : String} {nodeId : UInt64}
  {s : StructInfo} {f : Field} {b : FieldBindings} {view : View} {verb : Verb}

/-- Of the data section, the writing accessors of a field write only what the field takes up. -/
theorem writing_operation
    (h : Generation.run (fieldBindings scope nodeId s f) context used = (.ok b, used'))
    (hv : verb.isWriting = true) {operation : Operation}
    (hop : (b.accessorsOf .builder).lookup verb = some operation) :
    operation.WritesOnly P fun i =>
      ∃ slot, FieldSlot context.graph f slot ∧ slot.Covers (.bit i) := by
  obtain ⟨accessors, rfl, ⟨slot, u, u', hf, hacc⟩ | ⟨id, group, slots, hf, hgroup, hslots, rfl⟩⟩ :=
    fieldBindings_eq_ok h
  · rcases slotAccessors_cases hacc with rfl | ⟨hdata, rfl⟩ | ⟨-, rfl⟩ | ⟨shape, default?, rfl⟩
    · cases verb <;> simp [Verb.isWriting] at hv <;> cases hop
      exact fun _ _ before => ⟨before, rfl, fun _ _ => rfl⟩
    · cases verb <;> simp [Verb.isWriting] at hv <;> cases hop
      refine (writeData_writesOnly _ _ _ hdata).mono fun i hi => ⟨_, .slot slot hf ?_, hi⟩
      intro hvoid
      simp [hvoid, sectionOf] at hdata
    · cases hop
    · have hno : operation.WritesOnly P fun _ => False := by
        cases verb <;> simp [Verb.isWriting] at hv <;> cases hop
        · exact pointer_writesOnly shape slot.offset _ (Or.inl rfl)
        · exact pointer_writesOnly shape slot.offset _ (Or.inr (Or.inl rfl))
        · exact pointer_writesOnly shape slot.offset _ (Or.inr (Or.inr rfl))
      exact hno.mono fun i hi => hi.elim
  · cases verb <;> simp [Verb.isWriting] at hv <;> cases hop
    refine (clearSlots_writesOnly slots _ (occupied_place hslots)).mono ?_
    rintro i ⟨slot, hs, hc⟩
    exact ⟨slot, .group id group hf hgroup slot (candidate_of_mem_occupied hslots hs), hc⟩

theorem method?_eq_some
    (h : Generation.run (fieldBindings scope nodeId s f) context used = (.ok b, used'))
    {statements : List Statement} (hm : b.method? view verb = some statements) :
    ∃ operation, (b.accessorsOf view).lookup verb = some operation ∧
      statements = ((UnionTag.ofField? s f).map fun tag => tag.guard verb).toList
        ++ operation.statements view := by
  obtain ⟨accessors, rfl, -⟩ := fieldBindings_eq_ok h
  obtain ⟨operation, hop, rfl⟩ := Option.map_eq_some_iff.1 hm
  exact ⟨operation, hop, rfl⟩

/-- Every field but a capability has the reading accessors in both views. -/
theorem reading_methods
    (h : Generation.run (fieldBindings scope nodeId s f) context used = (.ok b, used'))
    (ha : hasAccessors f = true) (view : View) :
    (∃ statements, b.method? view .has = some statements) ∧
      ∃ statements, b.method? view .get = some statements := by
  obtain ⟨accessors, rfl, ⟨slot, u, u', hf, hacc⟩ | ⟨id, group, slots, hf, hgroup, hslots, rfl⟩⟩ :=
    fieldBindings_eq_ok h
  · rcases slotAccessors_cases hacc with rfl | ⟨-, rfl⟩ | ⟨hk, rfl⟩ | ⟨shape, default?, rfl⟩
    · cases view <;> exact ⟨⟨_, rfl⟩, _, rfl⟩
    · cases view <;> exact ⟨⟨_, rfl⟩, _, rfl⟩
    · simp [hasAccessors, hf, hk] at ha
    · cases view <;> exact ⟨⟨_, rfl⟩, _, rfl⟩
  · cases view <;> exact ⟨⟨_, rfl⟩, _, rfl⟩

/-- Writing a union member leaves its tag in the discriminant, if the member takes up no bit of it:
what follows the guard does not undo it. -/
theorem write_retags
    (h : Generation.run (fieldBindings scope nodeId s f) context used = (.ok b, used'))
    (hu : f.inUnion = true) (hv : verb.isWriting = true) {statements : List Statement}
    (hm : b.method? .builder verb = some statements)
    (hf : f ∈ s.fields) (hfree : DiscriminantFree context.graph s)
    (which? : Option Call) (input : Input P) (before : Storage P) :
    ∃ after, (Statement.runAll which? input before statements).finished? = some after ∧
      after.HoldsTag s f.discriminant := by
  obtain ⟨operation, hop, rfl⟩ := method?_eq_some h hm
  obtain ⟨tagged, htagged, htag, -⟩ := guard_run_writing s f verb hv which? input before
    (operation.statements .builder)
  obtain ⟨after, hafter, hsame⟩ := writing_operation h hv hop which? input tagged
  refine ⟨after, by rw [htagged, hafter], fun i hi => ?_⟩
  have hout : ¬∃ slot, FieldSlot context.graph f slot ∧
      slot.Covers (.bit (s.discriminantOffset.toNat * 16 + i)) :=
    fun ⟨slot, hslot, hc⟩ => hfree f hf slot hslot i hi hc
  rw [hsame _ hout, htag hu i hi]

end Field

/-- A call of an accessor of the builder: the field, what has been generated for it, and what the
caller hands over. -/
structure Write (P : Type) where
  field : Field
  bindings : FieldBindings
  verb : Verb
  input : Input P

/-- The storage after a call, if the accessor exists and nothing goes wrong in it. -/
def Write.run (which? : Option Call) (s : Storage P) (w : Write P) : Option (Storage P) := do
  let statements ← w.bindings.method? .builder w.verb
  (Statement.runAll which? w.input s statements).finished?

def runWrites (which? : Option Call) (s : Storage P) (writes : List (Write P)) :
    Option (Storage P) :=
  writes.foldlM (Write.run which?) s

/-- The bindings are those generated for the field. -/
def StructBody.Binds (body : StructBody) (f : Field) (b : FieldBindings) : Prop :=
  (f, b) ∈ body.info.fields.zip body.bindings

/-- A call of a writing accessor that the builder offers for a union member. -/
structure Write.ToMember (body : StructBody) (w : Write P) : Prop where
  binds : body.Binds w.field w.bindings
  inUnion : w.field.inUnion = true
  isWriting : w.verb.isWriting = true
  offered : (w.bindings.method? .builder w.verb).isSome = true

section Struct

variable {context : FileContext} {used used' : UsedFiles} {path : String} {n : Node}
  {s : StructInfo} {body : StructBody}

theorem structBody_eq_ok (hs : n.struct? = some s)
    (h : Generation.run (structBody path n) context used = (.ok body, used')) :
    body.info = s ∧ ∀ f b, body.Binds f b → f ∈ s.fields ∧ ∃ u u',
      Generation.run (fieldBindings ("module." ++ path) n.id s f) context u = (.ok b, u') := by
  simp only [structBody, hs] at h
  obtain ⟨bindings, _, hmap, h⟩ := Generation.run_bind_eq_ok_iff.1 h
  obtain rfl := Generation.run_pure_eq_ok h
  refine ⟨rfl, fun f b hb => ⟨(List.of_mem_zip hb).1, ?_⟩⟩
  exact (List.forall₂_iff_zip.1 (Generation.run_mapM_eq_ok hmap)).2 hb

theorem activeTag?_of_holdsTag (hu : body.info.hasUnion = true) {tag : UInt16}
    {storage : Storage P} (h : storage.HoldsTag body.info tag) (view : View) (input : Input P) :
    activeTag? (body.whichCall? view) input storage = some tag.toNat := by
  have hbits : (fun i : Fin 16 => storage.bit (body.info.discriminantOffset.toNat * 16 + i)) =
      fun i : Fin 16 => tag.toNat.testBit i := by
    funext i
    exact h i i.isLt
  simp [activeTag?, StructBody.whichCall?, hu, Call.run, dataWidth?, maskBits?, hbits,
    Nat.ofBits_testBit]

/-- One write of a union member runs to its end and leaves the member's tag. -/
theorem Write.run_holdsTag (hs : n.struct? = some s)
    (h : Generation.run (structBody path n) context used = (.ok body, used'))
    (hfree : DiscriminantFree context.graph s) (w : Write P) (hw : w.ToMember body)
    (which? : Option Call) (before : Storage P) :
    ∃ after, w.run which? before = some after ∧ after.HoldsTag s w.field.discriminant := by
  obtain ⟨hf, u, u', hb⟩ := (structBody_eq_ok hs h).2 _ _ hw.binds
  obtain ⟨statements, hm⟩ := Option.isSome_iff_exists.1 hw.offered
  obtain ⟨after, hafter, htag⟩ := write_retags hb hw.inUnion hw.isWriting hm hf hfree which?
    w.input before
  refine ⟨after, ?_, htag⟩
  rw [Write.run, hm]
  exact hafter

theorem runWrites_holdsTag (hs : n.struct? = some s)
    (h : Generation.run (structBody path n) context used = (.ok body, used'))
    (hfree : DiscriminantFree context.graph s) (writes : List (Write P)) (last : Write P)
    (hw : ∀ w ∈ writes ++ [last], w.ToMember body) (which? : Option Call) (before : Storage P) :
    ∃ after, runWrites which? before (writes ++ [last]) = some after ∧
      after.HoldsTag s last.field.discriminant := by
  induction writes generalizing before with
  | nil =>
    obtain ⟨after, hafter, htag⟩ := last.run_holdsTag hs h hfree (hw last (by simp)) which? before
    exact ⟨after, by simp [runWrites, hafter], htag⟩
  | cons w writes ih =>
    obtain ⟨mid, hmid, -⟩ := w.run_holdsTag hs h hfree (hw w (by simp)) which? before
    obtain ⟨after, hafter, htag⟩ := ih (fun v hv => hw v (by simp_all)) mid
    refine ⟨after, ?_, htag⟩
    rw [List.cons_append, runWrites, List.foldlM_cons, hmid]
    exact hafter

/-- What an accessor of a union member that does not write makes of the active tag: it goes on
behind its guard if the tag is the member's, and otherwise answers false or throws. -/
theorem reading_run {f : Field} {b : FieldBindings} {scope : String} {nodeId : UInt64} {view : View}
    {verb : Verb} {statements : List Statement} {which? : Option Call} {input : Input P}
    {storage : Storage P} {active : Nat}
    (h : Generation.run (fieldBindings scope nodeId s f) context used = (.ok b, used'))
    (hu : f.inUnion = true) (hv : verb.isWriting = false)
    (hm : b.method? view verb = some statements)
    (hactive : activeTag? which? input storage = some active) :
    (active = f.discriminant.toNat → ∃ rest,
      statements = UnionTag.guard ⟨f.discriminant, s.discriminantOffset⟩ verb :: rest ∧
      Statement.runAll which? input storage statements =
        Statement.runAll which? input storage rest) ∧
    (active ≠ f.discriminant.toNat → Statement.runAll which? input storage statements =
      if verb = .has then .returned (.truth false) storage
      else .thrown UnionTag.inactiveMemberError storage) := by
  obtain ⟨operation, -, rfl⟩ := method?_eq_some h hm
  have htag : UnionTag.ofField? s f = some ⟨f.discriminant, s.discriminantOffset⟩ := by
    simp [UnionTag.ofField?, hu]
  rw [htag]
  constructor
  · intro heq
    refine ⟨_, rfl, ?_⟩
    cases verb <;> simp [Verb.isWriting] at hv <;>
      simp [Statement.runAll, UnionTag.guard, Statement.run, hactive, heq]
  · intro hne
    cases verb <;> simp [Verb.isWriting] at hv <;>
      simp [Statement.runAll, UnionTag.guard, Statement.run, hactive, hne]

end Struct

/-- After any writes of union members, the active tag is that of the member written last, in both
views: its other accessors get past their guards, and those of members with another tag do not. -/
theorem union_follows_last_write (context : FileContext) (used used' : UsedFiles) (path : String)
    (n : Node) (s : StructInfo) (body : StructBody) (hs : n.struct? = some s)
    (h : Generation.run (structBody path n) context used = (.ok body, used'))
    (hcount : 0 < s.discriminantCount) (hfree : DiscriminantFree context.graph s)
    (writes : List (Write P)) (last : Write P) (hw : ∀ w ∈ writes ++ [last], w.ToMember body)
    (before : Storage P) :
    ∃ after, runWrites (body.whichCall? .builder) before (writes ++ [last]) = some after ∧
      ∀ (view : View) (input : Input P),
        activeTag? (body.whichCall? view) input after = some last.field.discriminant.toNat ∧
        ∀ f b, body.Binds f b → f.inUnion = true →
          (hasAccessors f = true → ∀ verb, verb = .has ∨ verb = .get →
            (b.method? view verb).isSome = true) ∧
          ∀ verb statements, b.method? view verb = some statements →
            (∀ depth, Defines (b.text view depth) (depth + 1) (verb.text ++ titleCase f.name)
              statements) ∧
            (f.discriminant = last.field.discriminant → verb.isWriting = false → ∃ rest,
              statements = UnionTag.guard ⟨f.discriminant, s.discriminantOffset⟩ verb :: rest ∧
              Statement.runAll (body.whichCall? view) input after statements =
                Statement.runAll (body.whichCall? view) input after rest) ∧
            (f.discriminant ≠ last.field.discriminant →
              (verb = .has → Statement.runAll (body.whichCall? view) input after statements =
                .returned (.truth false) after) ∧
              (verb = .get ∨ verb = .disown →
                Statement.runAll (body.whichCall? view) input after statements =
                  .thrown UnionTag.inactiveMemberError after)) := by
  obtain ⟨hinfo, hbinds⟩ := structBody_eq_ok hs h
  have hu : body.info.hasUnion = true := by
    rw [hinfo, StructInfo.hasUnion, bne_iff_ne]
    rintro h0
    simp [h0] at hcount
  obtain ⟨after, hafter, htag⟩ := runWrites_holdsTag hs h hfree writes last hw
    (body.whichCall? .builder) before
  rw [← hinfo] at htag
  refine ⟨after, hafter, fun view input => ?_⟩
  have hactive := activeTag?_of_holdsTag hu htag view input
  refine ⟨hactive, fun f b hb hmember => ?_⟩
  obtain ⟨-, u, u', hgen⟩ := hbinds f b hb
  refine ⟨?_, fun verb statements hm => ⟨?_, ?_, fun hne => ?_⟩⟩
  · intro ha verb hverb
    obtain ⟨⟨_, hhas⟩, _, hget⟩ := reading_methods hgen ha view
    rcases hverb with rfl | rfl
    · rw [hhas, Option.isSome_some]
    · rw [hget, Option.isSome_some]
  · intro depth
    obtain ⟨_, rfl, -⟩ := fieldBindings_eq_ok hgen
    exact FieldBindings.text_defines hm depth
  · intro heq hv
    exact (reading_run hgen hmember hv hm hactive).1 (by rw [heq])
  · have hne' : last.field.discriminant.toNat ≠ f.discriminant.toNat :=
      fun heq => hne (UInt16.toNat_inj.1 heq).symm
    constructor
    · rintro rfl
      exact (reading_run hgen hmember rfl hm hactive).2 hne'
    · rintro (rfl | rfl)
      · exact (reading_run hgen hmember rfl hm hactive).2 hne'
      · exact (reading_run hgen hmember rfl hm hactive).2 hne'

namespace Shapes

open SchemaBindings.Layout.Shapes

def radiusField : Field :=
  { plainField "radius" .float32 1 with discriminant := 0 }

def radiusBindings : FieldBindings :=
  ⟨"module.Shape", "radius", some ⟨0, 1⟩, dataAccessors ⟨1, .plain .float32 0, .zero .float32, 0⟩⟩

def shapeBody : StructBody :=
  ⟨"Shape", shapeInfo, [radiusBindings, boxBindings]⟩

def setRadius : Write Unit :=
  ⟨radiusField, radiusBindings, .set, unchanged⟩

def initBox : Write Unit :=
  ⟨boxField, boxBindings, .init, unchanged⟩

theorem run_fieldBindings_radius :
    Generation.run (fieldBindings "module.Shape" 1 shapeInfo radiusField) context [] =
      (.ok radiusBindings, []) :=
  rfl

theorem run_structBody_shape :
    Generation.run (structBody "Shape" shape) context [] = (.ok shapeBody, []) := by
  have hs : structBody "Shape" shape = do
      let bindings ← [radiusField, boxField].mapM (fieldBindings "module.Shape" 1 shapeInfo)
      return ⟨"Shape", shapeInfo, bindings⟩ := rfl
  rw [hs, List.mapM_cons, List.mapM_cons, List.mapM_nil]
  simp only [Generation.run_bind, run_fieldBindings_radius, run_fieldBindings_box,
    Generation.run_pure, shapeBody]

theorem discriminantFree_shape : DiscriminantFree graph shapeInfo := by
  intro f hf slot hslot i hi hc
  have hf : f = radiusField ∨ f = boxField := by
    rcases hf with _ | ⟨_, _ | ⟨_, ⟨⟩⟩⟩
    · exact Or.inl rfl
    · exact Or.inr rfl
  rcases hf with rfl | rfl <;> cases hslot
  case inl.slot p hb hv =>
    cases hb
    have hout : ∀ i < 16, ¬(⟨.float32, 1⟩ : Slot).Covers (.bit (1 * 16 + i)) := by decide
    exact hout i hi hc
  case inr.group id m hb hm hcand =>
    cases hb
    obtain rfl : box = m := Option.some.inj hm
    have hout : ∀ i < 16, ¬∃ s ∈ boxSlots, s.Covers (.bit (1 * 16 + i)) := by decide
    exact hout i hi ((occupies_box _).1 ⟨slot, hcand, hc⟩)
  all_goals simp_all [radiusField, boxField, plainField]

end Shapes

/-- A radius is set and then a box initialised: in the reader, the radius is neither present nor
readable. -/
theorem union_follows_last_write_shape :
    Generation.run (structBody "Shape" Layout.Shapes.shape) Shapes.context [] =
      (.ok Shapes.shapeBody, []) ∧
    ∃ after, runWrites (Shapes.shapeBody.whichCall? .builder) Shapes.full
        ([Shapes.setRadius] ++ [Shapes.initBox]) = some after ∧
      activeTag? (Shapes.shapeBody.whichCall? .reader) Shapes.unchanged after = some 1 ∧
      ∃ has get, Shapes.radiusBindings.method? .reader .has = some has ∧
        Statement.runAll (Shapes.shapeBody.whichCall? .reader) Shapes.unchanged after has =
          .returned (.truth false) after ∧
        Shapes.radiusBindings.method? .reader .get = some get ∧
        Statement.runAll (Shapes.shapeBody.whichCall? .reader) Shapes.unchanged after get =
          .thrown UnionTag.inactiveMemberError after := by
  have hw : ∀ w ∈ [Shapes.setRadius] ++ [Shapes.initBox], w.ToMember Shapes.shapeBody := by
    intro w hw
    have hw : w = Shapes.setRadius ∨ w = Shapes.initBox := by simpa using hw
    rcases hw with rfl | rfl
    · exact ⟨List.mem_cons_self, rfl, rfl, rfl⟩
    · exact ⟨List.mem_cons_of_mem _ List.mem_cons_self, rfl, rfl, rfl⟩
  obtain ⟨after, hafter, hviews⟩ := union_follows_last_write _ _ _ _ _ _ _ rfl
    Shapes.run_structBody_shape (by decide) Shapes.discriminantFree_shape _ _ hw Shapes.full
  obtain ⟨hactive, hmembers⟩ := hviews .reader Shapes.unchanged
  obtain ⟨-, hradius⟩ := hmembers Shapes.radiusField Shapes.radiusBindings List.mem_cons_self rfl
  have hne : Shapes.radiusField.discriminant ≠ Shapes.initBox.field.discriminant := by decide
  exact ⟨Shapes.run_structBody_shape, after, hafter, hactive, _, _, rfl,
    ((hradius .has _ rfl).2.2 hne).1 rfl, rfl, ((hradius .get _ rfl).2.2 hne).2 (Or.inl rfl)⟩

end SchemaBindings.Bindings
