import SchemaBindings.Document.Decode
import SchemaBindings.Document.Encode
import SchemaBindings.Proofs.Number.RoundTrip

namespace SchemaBindings.Document

open SchemaBindings.Number

def ValueRecord.unsigned (r : ValueRecord) : ValueRecord :=
  { r with float := if r.float.isZero then ⟨0⟩ else r.float }

def SlotRecord.unsigned (r : SlotRecord) : SlotRecord :=
  { r with default? := r.default?.map ValueRecord.unsigned }

def FieldRecord.unsigned (r : FieldRecord) : FieldRecord :=
  { r with slot? := r.slot?.map SlotRecord.unsigned }

def StructRecord.unsigned (r : StructRecord) : StructRecord :=
  { r with fields := r.fields.map FieldRecord.unsigned }

def ConstRecord.unsigned (r : ConstRecord) : ConstRecord :=
  { r with value := r.value.unsigned }

def NodeRecord.unsigned (r : NodeRecord) : NodeRecord :=
  { r with
    struct? := r.struct?.map StructRecord.unsigned
    const? := r.const?.map ConstRecord.unsigned }

/-- The document with all its zeros positive. -/
def unsigned (d : Document) : Document :=
  { d with nodes? := d.nodes?.map fun nodes => nodes.map NodeRecord.unsigned }

theorem toInt_ofInt (i : Int) : (Numeral.ofInt i).toInt = i := by
  unfold Numeral.ofInt Numeral.toInt
  by_cases h : i < 0
  · simp only [h, decide_true, if_true]
    omega
  · simp only [h, decide_false, Bool.false_eq_true, if_false]
    omega

theorem natural_ofNat {bound n : Nat} (h : n < bound) (old : Nat) :
    Dialect.json.natural bound old (ofNat n) = some n := by
  have hinteger : Dialect.json.integer (twoPow 64) (.number (.ofInt n) (Text.signedDecimal n)) =
      some (n : Int) := congrArg some (toInt_ofInt n)
  have hplain : Dialect.isPlain (.number (.ofInt n) (Text.signedDecimal n)) = true := rfl
  have hminus : Dialect.natural.hasMinus (.number (.ofInt n) (Text.signedDecimal n)) = false := by
    have hnot : ¬ (n : Int) < 0 := by omega
    exact decide_eq_false hnot
  simp only [ofNat, Tree.ofInt, Dialect.natural, hinteger, hplain, hminus]
  simp [h]

theorem uint16_ofNat (x old : UInt16) : Dialect.json.uint16 old (ofNat x.toNat) = some x := by
  have hlt : x.toNat < twoPow 16 := x.toNat_lt
  rw [Dialect.uint16, natural_ofNat hlt]
  simp

theorem uint32_ofNat (x old : UInt32) : Dialect.json.uint32 old (ofNat x.toNat) = some x := by
  have hlt : x.toNat < twoPow 32 := x.toNat_lt
  rw [Dialect.uint32, natural_ofNat hlt]
  simp

theorem uint64_ofNat (x old : UInt64) : Dialect.json.uint64 old (ofNat x.toNat) = some x := by
  have hlt : x.toNat < twoPow 64 := x.toNat_lt
  rw [Dialect.uint64, natural_ofNat hlt]
  simp

theorem int64_ofInt (x old : Int64) : Dialect.json.int64 old (.ofInt x.toInt) = some x := by
  have hinteger : Dialect.json.integer (twoPow 63)
      (.number (.ofInt x.toInt) (Text.signedDecimal x.toInt)) = some x.toInt :=
    congrArg some (toInt_ofInt _)
  have hplain : Dialect.isPlain (.number (.ofInt x.toInt) (Text.signedDecimal x.toInt)) = true := rfl
  have hrange : -(twoPow 63 : Int) ≤ x.toInt ∧ x.toInt < (twoPow 63 : Int) :=
    ⟨x.le_toInt, x.toInt_lt⟩
  simp only [Tree.ofInt, Dialect.int64, hinteger, hplain]
  simp [hrange]

/-- Any numeral of the size of its shortest decimal is read as the number. -/
theorem double_of_shortest {x : Double} (hx : x.isFinite = true) (hz : x.isZero = false)
    {n : Numeral} (hsign : n.negative = x.isNegative)
    (hsize : n.size = (binary64.shortest (binary64.magnitude x.pattern)).digits *
      10 ^ (binary64.shortest (binary64.magnitude x.pattern)).exponent)
    (source : String) (old : Double) : double old (.scalar (.number n source)) = some x := by
  have hi : binary64.magnitude x.pattern < binary64.infinity := of_decide_eq_true hx
  have hpos : 0 < binary64.magnitude x.pattern := Nat.pos_of_ne_zero (ne_of_beq_false hz)
  obtain ⟨-, hnearest, -⟩ := BinaryFormat.shortest_spec BinaryFormat.scanned_binary64 hpos hi
  have hdouble : n.toDouble = x := by
    rw [Numeral.toDouble_of_isNearest (hsize ▸ hnearest), hsign]
    exact x.ofPattern_withSign
  simp [double, Numeral.toFinite?, hdouble, hx]

/-- Another spelling of what trees say: numbers that are no integers may change as long as they are
read as the same numbers, and nothing else does. -/
structure Respelling where
  tree : Tree → Tree
  record : ∀ ms, tree (.record ms) = .record (ms.map fun m => (m.1, tree m.2))
  list : ∀ ts, tree (.list ts) = .list (ts.map tree)
  null : tree .null = .null
  text : ∀ s, tree (.ofText s) = .ofText s
  flag : ∀ b, tree (.ofFlag b) = .ofFlag b
  int : ∀ i, tree (.ofInt i) = .ofInt i
  double : ∀ x : Double, x.isFinite = true → x.isZero = false → ∀ old,
    double old (tree (ofDouble x)) = some x

def foldedName (name : String) : List Char :=
  name.toList.map Char.toLower

theorem sameName_json (name key : String) :
    Dialect.json.sameName name key = (foldedName name == foldedName key) := by
  have hfold (s : String) : s.toLower.toList = foldedName s := String.toList_map
  simp only [Dialect.sameName, Dialect.json, if_true]
  rw [Bool.eq_iff_iff, beq_iff_eq, beq_iff_eq, ← hfold, ← hfold, String.toList_inj]

/-- The reader of a member, whatever the case of the letters of its name is. -/
def readerOf? {α : Type} (readers : List (String × Reader α)) (name : String) :
    Option (String × Reader α) :=
  readers.find? fun r => foldedName name == foldedName r.1

section Filling

variable (φ : Respelling) {α β γ : Type} {readers : List (String × Reader α)} {old mid new : α}
  {ms ms' : Members} {name key : String} {tree : Tree} {read : Reader β} {get : α → β}
  {set : α → β → α} {b : β}

/-- Members that are read over a value make another of it. -/
def Fills (readers : List (String × Reader α)) (old : α) (ms : Members) (new : α) : Prop :=
  Dialect.json.members readers old (ms.map fun m => (m.1, φ.tree m.2)) = some new

variable {φ}

theorem Fills.nil : Fills φ readers old [] old :=
  rfl

theorem Fills.append (h : Fills φ readers old ms mid) (h' : Fills φ readers mid ms' new) :
    Fills φ readers old (ms ++ ms') new := by
  unfold Fills at *
  induction ms generalizing old with
  | nil =>
    cases h
    exact h'
  | cons m ms ih =>
    rw [List.cons_append, List.map_cons, Dialect.members]
    rw [List.map_cons, Dialect.members] at h
    obtain ⟨reader, hreader, h⟩ := Option.bind_eq_some_iff.1 h
    obtain ⟨next, hnext, h⟩ := Option.bind_eq_some_iff.1 h
    exact Option.bind_eq_some_iff.2 ⟨reader, hreader,
      Option.bind_eq_some_iff.2 ⟨next, hnext, ih h⟩⟩

theorem Fills.last (h : Fills φ readers old ms mid) (he : mid = new) : Fills φ readers old ms new :=
  he ▸ h

theorem fills_entry_of {whole : Reader α} (hr : readerOf? readers name = some (key, whole))
    (h : whole old (φ.tree tree) = some new) : Fills φ readers old (entry name tree) new := by
  have hfind : (readers.find? fun r => Dialect.json.sameName name r.1) = some (key, whole) := by
    simp only [sameName_json]
    exact hr
  simp [Fills, entry, Dialect.members, hfind, h]

theorem fills_entry (hr : readerOf? readers name = some (key, focus read get set))
    (h : read (get old) (φ.tree tree) = some b) :
    Fills φ readers old (entry name tree) (set old b) := by
  apply fills_entry_of hr
  rw [focus, h]
  rfl

/-- A member that is left out has the value that is there before. -/
theorem fills_entryIf {condition : Bool}
    (hr : readerOf? readers name = some (key, focus read get set))
    (hset : ∀ a, set a (get a) = a)
    (h : condition = true → read (get old) (φ.tree tree) = some b)
    (hskip : condition = false → b = get old) :
    Fills φ readers old (entryIf condition name tree) (set old b) := by
  cases hc : condition with
  | true => exact fills_entry hr (h hc)
  | false =>
    rw [hskip hc, hset]
    exact .nil

theorem fills_unless [BEq β] [LawfulBEq β] {zero : β}
    (hr : readerOf? readers name = some (key, focus read get set))
    (hset : ∀ a, set a (get a) = a) (hold : get old = zero)
    (h : ∀ old, read old (φ.tree tree) = some b) :
    Fills φ readers old (entryIf (b != zero) name tree) (set old b) := by
  apply fills_entryIf hr hset
  · exact fun _ => h _
  · intro hb
    rw [hold]
    exact bne_eq_false_iff_eq.1 hb

theorem fills_flag {b : Bool} {get : α → Bool} {set : α → Bool → α} {read : Reader Bool}
    (hr : readerOf? readers name = some (key, focus read get set))
    (hset : ∀ a, set a (get a) = a) (hold : get old = false)
    (h : ∀ old, read old (φ.tree tree) = some b) :
    Fills φ readers old (entryIf b name tree) (set old b) := by
  apply fills_entryIf hr hset
  · exact fun _ => h _
  · intro hb
    rw [hold, hb]

/-- A member that may be absent is read as what it holds. -/
theorem fills_entryOf? {encode : γ → Tree} {restore : γ → β} {c? : Option γ} {whole : Reader β}
    {empty : β} {get : α → Option β} {set : α → Option β → α}
    (hr : readerOf? readers name = some (key, focus (optional empty whole) get set))
    (hset : ∀ a, set a (get a) = a) (hold : get old = none)
    (h : ∀ c, c? = some c → (φ.tree (encode c)).isNull = false ∧
      whole empty (φ.tree (encode c)) = some (restore c)) :
    Fills φ readers old (entryOf? name encode c?) (set old (c?.map restore)) := by
  cases hc : c? with
  | some c =>
    obtain ⟨hnull, hread⟩ := h c hc
    apply fills_entry hr
    rw [hold, optional, hnull, Option.getD_none, hread]
    rfl
  | none =>
    rw [Option.map_none, ← hold, hset]
    exact .nil

/-- So it is where reading gives back what is written. -/
theorem fills_entryOf?_self {encode : β → Tree} {b? : Option β} {whole : Reader β} {empty : β}
    {get : α → Option β} {set : α → Option β → α}
    (hr : readerOf? readers name = some (key, focus (optional empty whole) get set))
    (hset : ∀ a, set a (get a) = a) (hold : get old = none)
    (h : ∀ b, (φ.tree (encode b)).isNull = false ∧ whole empty (φ.tree (encode b)) = some b) :
    Fills φ readers old (entryOf? name encode b?) (set old b?) := by
  have hfills : Fills φ readers old (entryOf? name encode b?) (set old (b?.map id)) :=
    fills_entryOf? hr hset hold fun b _ => h b
  rwa [Option.map_id] at hfills

theorem readItems_map {encode : γ → Tree} {restore : γ → β} {empty : β} {cs : List γ}
    (h : ∀ c ∈ cs, read empty (φ.tree (encode c)) = some (restore c)) :
    readItems empty read [] ((cs.map encode).map φ.tree) = some (cs.map restore) := by
  induction cs with
  | nil => rfl
  | cons c cs ih =>
    rw [List.forall_mem_cons] at h
    rw [List.map_cons, List.map_cons, readItems, h.1, ih h.2]
    rfl

theorem list_restored {encode : γ → Tree} {restore : γ → β} {empty : β} {cs : List γ}
    (h : ∀ c ∈ cs, read empty (φ.tree (encode c)) = some (restore c)) {old : Option (List β)}
    (hold : old.getD [] = []) :
    Dialect.json.list empty read old (φ.tree (.list (cs.map encode))) =
      some (some (cs.map restore)) := by
  rw [φ.list, Dialect.list, hold]
  simp only [Dialect.json, if_true]
  rw [readItems_map h]
  rfl

theorem listOrNull_restored {encode : γ → Tree} {restore : γ → β} {empty : β}
    {cs? : Option (List γ)}
    (h : ∀ c ∈ cs?.getD [], read empty (φ.tree (encode c)) = some (restore c)) :
    Dialect.json.list empty read none (φ.tree (listOrNull encode cs?)) =
      some (cs?.map (List.map restore)) := by
  cases cs? with
  | some cs => exact list_restored h rfl
  | none =>
    rw [listOrNull, φ.null]
    rfl

theorem fills_listEntry {encode : γ → Tree} {restore : γ → β} {empty : β} {cs : List γ}
    {get : α → List β} {set : α → List β → α}
    (hr : readerOf? readers name = some (key, focus (Dialect.json.items empty read) get set))
    (hset : ∀ a, set a (get a) = a) (hold : get old = [])
    (h : ∀ c ∈ cs, read empty (φ.tree (encode c)) = some (restore c)) :
    Fills φ readers old (listEntry name encode cs) (set old (cs.map restore)) := by
  apply fills_entryIf hr hset
  · intro _
    rw [hold, Dialect.items, list_restored h rfl]
    rfl
  · intro hempty
    rw [hold]
    cases cs with
    | nil => rfl
    | cons c cs => cases hempty

theorem fills_listEntry_self {encode : β → Tree} {empty : β} {bs : List β} {get : α → List β}
    {set : α → List β → α}
    (hr : readerOf? readers name = some (key, focus (Dialect.json.items empty read) get set))
    (hset : ∀ a, set a (get a) = a) (hold : get old = [])
    (h : ∀ b, read empty (φ.tree (encode b)) = some b) :
    Fills φ readers old (listEntry name encode bs) (set old bs) := by
  have hfills : Fills φ readers old (listEntry name encode bs) (set old (bs.map id)) :=
    fills_listEntry hr hset hold fun b _ => h b
  rwa [List.map_id] at hfills

theorem record_restored (h : Fills φ readers old ms new) :
    Dialect.json.record readers old (φ.tree (.record ms)) = some new := by
  rw [φ.record]
  exact h

theorem isNull_record (ms : Members) : (φ.tree (.record ms)).isNull = false := by
  rw [φ.record]
  rfl

end Filling

section Records

variable (φ : Respelling)

theorem text_restored (s old : String) :
    Dialect.json.text old (φ.tree (.ofText s)) = some s := by
  rw [φ.text]
  rfl

theorem flag_restored (b old : Bool) : Dialect.json.flag old (φ.tree (.ofFlag b)) = some b := by
  rw [φ.flag]
  rfl

theorem uint16_restored (x old : UInt16) :
    Dialect.json.uint16 old (φ.tree (ofNat x.toNat)) = some x := by
  rw [ofNat, φ.int]
  exact uint16_ofNat x old

theorem uint32_restored (x old : UInt32) :
    Dialect.json.uint32 old (φ.tree (ofNat x.toNat)) = some x := by
  rw [ofNat, φ.int]
  exact uint32_ofNat x old

theorem uint64_restored (x old : UInt64) :
    Dialect.json.uint64 old (φ.tree (ofNat x.toNat)) = some x := by
  rw [ofNat, φ.int]
  exact uint64_ofNat x old

theorem int64_restored (x old : Int64) :
    Dialect.json.int64 old (φ.tree (.ofInt x.toInt)) = some x := by
  rw [φ.int]
  exact int64_ofInt x old

theorem isNull_ofNat (n : Nat) : (φ.tree (ofNat n)).isNull = false := by
  rw [ofNat, φ.int]
  rfl

/-- The id of a type is its last member. -/
theorem typeMembers_typeId (t : TypeRecord) (ht : t.typeId = 0) (typeId : UInt64) :
    Dialect.json.typeMembers t
        ((entryIf (typeId != 0) "typeId" (ofNat typeId.toNat)).map fun m => (m.1, φ.tree m.2)) =
      some (.make t.kind typeId t.element?) := by
  have hkind : Dialect.json.sameName "typeId" "kind" = false := sameName_json _ _
  have helement : Dialect.json.sameName "typeId" "elementType" = false := sameName_json _ _
  have hid : Dialect.json.sameName "typeId" "typeId" = true := sameName_json _ _
  by_cases hzero : typeId = 0
  · subst hzero
    cases t with
    | leaf kind typeId =>
      cases ht
      rfl
    | containing kind typeId element =>
      cases ht
      rfl
  · have hentry : entryIf (typeId != 0) "typeId" (ofNat typeId.toNat) =
        [("typeId", ofNat typeId.toNat)] := by
      simp [entryIf, hzero]
    rw [hentry]
    simp [Dialect.typeMembers, hkind, helement, hid, uint64_restored]

theorem type_restored (t : TypeRecord) : Dialect.json.type .empty (φ.tree t.encode) = some t := by
  have hkind : Dialect.json.sameName "kind" "kind" = true := sameName_json _ _
  have hother : Dialect.json.sameName "elementType" "kind" = false := sameName_json _ _
  have helement : Dialect.json.sameName "elementType" "elementType" = true := sameName_json _ _
  induction t with
  | leaf kind typeId =>
    have hid := typeMembers_typeId φ (.leaf kind 0) rfl typeId
    rw [TypeRecord.encode, φ.record, Dialect.type, entry, List.singleton_append, List.map_cons,
      Dialect.typeMembers]
    simp only [hkind, if_true, text_restored]
    exact hid
  | containing kind typeId element ih =>
    have hid := typeMembers_typeId φ (.containing kind 0 element) rfl typeId
    have hnull : (φ.tree element.encode).isNull = false := by
      cases element <;> exact isNull_record _
    rw [TypeRecord.encode, φ.record, Dialect.type, entry, entry, List.append_assoc,
      List.singleton_append, List.singleton_append, List.map_cons, List.map_cons,
      Dialect.typeMembers]
    simp only [hkind, if_true, text_restored]
    change Dialect.json.typeMembers (.leaf kind 0) _ = _
    rw [Dialect.typeMembers]
    simp only [hother, helement, hnull, if_true, if_false, Bool.false_eq_true]
    change ((Dialect.json.type .empty (φ.tree element.encode)).map _ >>= _) = _
    rw [ih]
    exact hid

theorem value_restored {r : ValueRecord} (hr : r.float.isFinite = true) :
    Dialect.json.value default (φ.tree r.encode) = some r.unsigned := by
  apply record_restored
  simp only [List.append_assoc]
  refine .append (fills_unless rfl (fun _ => rfl) rfl (text_restored φ _)) ?_
  refine .append (fills_flag rfl (fun _ => rfl) rfl (flag_restored φ _)) ?_
  refine .append (fills_unless rfl (fun _ => rfl) rfl (int64_restored φ _)) ?_
  refine .append (fills_unless rfl (fun _ => rfl) rfl (uint64_restored φ _)) ?_
  have hfloat : r.float.isZero = false → r.unsigned.float = r.float := fun hz => by
    simp [ValueRecord.unsigned, hz]
  refine .append (fills_entryIf (b := r.unsigned.float) rfl (fun _ => rfl) (fun hz => ?_)
    (fun hz => ?_)) ?_
  · have hz : r.float.isZero = false := by simpa using hz
    rw [hfloat hz]
    exact φ.double _ hr hz _
  · have hz : r.float.isZero = true := by simpa using hz
    simp [ValueRecord.unsigned, hz]
    rfl
  refine .append (fills_entryOf?_self rfl (fun _ => rfl) rfl fun bits =>
    ⟨isNull_ofNat φ _, uint64_restored φ bits _⟩) ?_
  refine .append (fills_unless rfl (fun _ => rfl) rfl (uint16_restored φ _)) ?_
  refine .append (fills_unless rfl (fun _ => rfl) rfl (text_restored φ _)) ?_
  refine .append (fills_unless rfl (fun _ => rfl) rfl (text_restored φ _)) ?_
  exact .last (fills_flag rfl (fun _ => rfl) rfl (flag_restored φ _)) rfl

theorem slot_restored {r : SlotRecord} (hr : ∀ v, r.default? = some v → v.float.isFinite = true) :
    Dialect.json.slot default (φ.tree r.encode) = some r.unsigned := by
  apply record_restored
  simp only [List.append_assoc]
  refine .append (fills_entry rfl (uint32_restored φ _ _)) ?_
  refine .append (fills_entry rfl (type_restored φ _)) ?_
  refine .append (fills_entryOf? rfl (fun _ => rfl) rfl fun v hv =>
    ⟨isNull_record _, value_restored φ (hr v hv)⟩) ?_
  exact .last (fills_unless rfl (fun _ => rfl) rfl (uint32_restored φ _)) rfl

theorem group_restored (id : UInt64) :
    Dialect.json.group 0 (φ.tree (encodeGroup id)) = some id := by
  apply record_restored
  exact fills_entry_of rfl (uint64_restored φ _ _)

theorem field_restored {r : FieldRecord} (hr : r.isFinite = true) :
    Dialect.json.field default (φ.tree r.encode) = some r.unsigned := by
  apply record_restored
  simp only [List.append_assoc]
  refine .append (fills_entry rfl (text_restored φ _ _)) ?_
  refine .append (fills_entry rfl (uint16_restored φ _ _)) ?_
  refine .append (fills_entryOf?_self rfl (fun _ => rfl) rfl fun tag =>
    ⟨isNull_ofNat φ _, uint16_restored φ tag _⟩) ?_
  refine .append (fills_entryOf? rfl (fun _ => rfl) rfl fun slot hslot =>
    ⟨isNull_record _, slot_restored φ fun v hv => ?_⟩) ?_
  · simpa [FieldRecord.isFinite, hslot, hv] using hr
  exact .last (fills_entryOf?_self rfl (fun _ => rfl) rfl fun id =>
    ⟨isNull_record _, group_restored φ id⟩) rfl

theorem struct_restored {r : StructRecord} (hr : ∀ f ∈ r.fields, f.isFinite = true) :
    Dialect.json.struct default (φ.tree r.encode) = some r.unsigned := by
  apply record_restored
  simp only [List.append_assoc]
  refine .append (fills_entry rfl (uint16_restored φ _ _)) ?_
  refine .append (fills_entry rfl (uint16_restored φ _ _)) ?_
  refine .append (fills_entry rfl (uint16_restored φ _ _)) ?_
  refine .append (fills_flag rfl (fun _ => rfl) rfl (flag_restored φ _)) ?_
  refine .append (fills_unless rfl (fun _ => rfl) rfl (uint16_restored φ _)) ?_
  refine .append (fills_unless rfl (fun _ => rfl) rfl (uint32_restored φ _)) ?_
  exact .last (fills_listEntry rfl (fun _ => rfl) rfl fun f hf => field_restored φ (hr f hf)) rfl

theorem member_restored (r : MemberRecord) :
    Dialect.json.member default (φ.tree r.encode) = some r := by
  apply record_restored
  refine .append (fills_entry rfl (text_restored φ _ _)) ?_
  exact .last (fills_entry rfl (uint16_restored φ _ _)) rfl

theorem enum_restored (enumerants? : Option (List MemberRecord)) :
    Dialect.json.enum none (φ.tree (encodeEnum enumerants?)) = some enumerants? := by
  apply record_restored
  apply fills_entry_of rfl
  rw [listOrNull_restored fun r _ => member_restored φ r]
  simp

theorem interface_restored (methods : List MemberRecord) :
    Dialect.json.interface [] (φ.tree (encodeInterface methods)) = some methods := by
  apply record_restored
  cases methods with
  | nil => exact .nil
  | cons m methods =>
    apply fills_entry_of rfl
    rw [Dialect.items, list_restored (fun r _ => member_restored φ r) rfl]
    simp

theorem const_restored {r : ConstRecord} (hr : r.value.float.isFinite = true) :
    Dialect.json.const default (φ.tree r.encode) = some r.unsigned := by
  apply record_restored
  simp only [List.append_assoc]
  refine .append (fills_entry rfl (type_restored φ _)) ?_
  refine .append (fills_entry rfl (value_restored φ hr)) ?_
  exact .last (fills_unless rfl (fun _ => rfl) rfl (uint32_restored φ _)) rfl

theorem named_restored (r : NamedRecord) :
    Dialect.json.named default (φ.tree r.encode) = some r := by
  apply record_restored
  refine .append (fills_entry rfl (text_restored φ _ _)) ?_
  exact .last (fills_entry rfl (uint64_restored φ _ _)) rfl

theorem annotated_restored (r : AnnotationRecord) :
    Dialect.json.annotated default (φ.tree r.encode) = some r := by
  apply record_restored
  refine .append (fills_entry rfl (uint64_restored φ _ _)) ?_
  exact .last (fills_unless rfl (fun _ => rfl) rfl (text_restored φ _)) rfl

theorem node_restored {r : NodeRecord} (hr : r.isFinite = true) :
    Dialect.json.node default (φ.tree r.encode) = some r.unsigned := by
  obtain ⟨hstruct, hconst⟩ : (∀ s, r.struct? = some s → ∀ f ∈ s.fields, f.isFinite = true) ∧
      ∀ c, r.const? = some c → c.value.float.isFinite = true := by
    rw [NodeRecord.isFinite, Bool.and_eq_true] at hr
    constructor
    · intro s hs
      simpa [hs] using hr.1
    · intro c hc
      simpa [hc] using hr.2
  apply record_restored
  simp only [List.append_assoc]
  refine .append (fills_entry rfl (uint64_restored φ _ _)) ?_
  refine .append (fills_entry rfl (text_restored φ _ _)) ?_
  refine .append (fills_entry rfl (text_restored φ _ _)) ?_
  refine .append (fills_unless rfl (fun _ => rfl) rfl (int64_restored φ _)) ?_
  refine .append (fills_unless rfl (fun _ => rfl) rfl (uint64_restored φ _)) ?_
  refine .append (fills_unless rfl (fun _ => rfl) rfl (text_restored φ _)) ?_
  refine .append (fills_listEntry_self rfl (fun _ => rfl) rfl (named_restored φ)) ?_
  refine .append (fills_listEntry_self rfl (fun _ => rfl) rfl (annotated_restored φ)) ?_
  refine .append (fills_entryOf? rfl (fun _ => rfl) rfl fun s hs =>
    ⟨isNull_record _, struct_restored φ (hstruct s hs)⟩) ?_
  refine .append (fills_entryOf?_self rfl (fun _ => rfl) rfl fun enumerants? =>
    ⟨isNull_record _, enum_restored φ enumerants?⟩) ?_
  refine .append (fills_entryOf?_self rfl (fun _ => rfl) rfl fun methods =>
    ⟨isNull_record _, interface_restored φ methods⟩) ?_
  exact .last (fills_entryOf? rfl (fun _ => rfl) rfl fun c hc =>
    ⟨isNull_record _, const_restored φ (hconst c hc)⟩) rfl

theorem file_restored (r : FileRecord) :
    Dialect.json.file default (φ.tree r.encode) = some r := by
  apply record_restored
  simp only [List.append_assoc]
  refine .append (fills_entry rfl (uint64_restored φ _ _)) ?_
  refine .append (fills_entry rfl (text_restored φ _ _)) ?_
  exact .last (fills_listEntry_self rfl (fun _ => rfl) rfl (named_restored φ)) rfl

/-- However its numbers are spelled, the tree of a document is read as the document, its zeros
without their signs. -/
theorem decode?_encode {d : Document} (hd : isFinite d = true) :
    decode? .json (φ.tree (encode d)) = some (unsigned d) := by
  have hnodes : ∀ r ∈ d.nodes?.getD [],
      Dialect.json.node default (φ.tree r.encode) = some r.unsigned := by
    intro r hr
    exact node_restored φ (List.all_eq_true.1 hd r hr)
  apply record_restored
  refine .append (fills_entry rfl (listOrNull_restored hnodes)) ?_
  refine .last (fills_entry rfl (listOrNull_restored fun r _ => file_restored φ r)) ?_
  simp [unsigned]

end Records

end SchemaBindings.Document
