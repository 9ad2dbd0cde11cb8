import SchemaBindings.Document.Read
import SchemaBindings.Proofs.Contract.Admission
import SchemaBindings.Proofs.Document.JsonText
import SchemaBindings.Proofs.Document.Restoring
import SchemaBindings.Proofs.Text.Utf8

namespace SchemaBindings.Document

open SchemaBindings.Number SchemaBindings.Document.Json

/-- What a record says under a name. -/
def Tree.under (name : String) : Tree → List Tree
  | .record ms => (ms.filter fun m => m.1 == name).map Prod.snd
  | _ => []

/-- A record has each of these members exactly when there is something for it to hold. -/
def Tree.Holds (tree : Tree) (members : List (String × Option Tree)) : Prop :=
  ∀ m ∈ members, tree.under m.1 = m.2.toList

def TypeRecord.optionalMembers (r : TypeRecord) : List (String × Option Tree) :=
  [("elementType", r.element?.map TypeRecord.encode)]

def ValueRecord.optionalMembers (r : ValueRecord) : List (String × Option Tree) :=
  [("floatBits", r.floatBits?.map fun bits => ofNat bits.toNat)]

def SlotRecord.optionalMembers (r : SlotRecord) : List (String × Option Tree) :=
  [("default", r.default?.map ValueRecord.encode)]

def FieldRecord.optionalMembers (r : FieldRecord) : List (String × Option Tree) :=
  [("discriminantValue", r.discriminant?.map fun n => ofNat n.toNat),
    ("slot", r.slot?.map SlotRecord.encode), ("group", r.groupId?.map encodeGroup)]

def NodeRecord.optionalMembers (r : NodeRecord) : List (String × Option Tree) :=
  [("struct", r.struct?.map StructRecord.encode), ("enum", r.enum?.map encodeEnum),
    ("interface", r.interface?.map encodeInterface), ("const", r.const?.map ConstRecord.encode)]

section Optional

variable {α : Type} {name key : String}

theorem under_record (ms : Members) :
    Tree.under name (.record ms) = (ms.filter fun m => m.1 == name).map Prod.snd :=
  rfl

theorem filter_entry (h : (key == name) = false) (tree : Tree) :
    (entry key tree).filter (fun m => m.1 == name) = [] := by
  simp [entry, h]

theorem filter_entryIf (h : (key == name) = false) (condition : Bool) (tree : Tree) :
    (entryIf condition key tree).filter (fun m => m.1 == name) = [] := by
  cases condition <;> simp [entryIf, h]

theorem filter_listEntry (h : (key == name) = false) (encode : α → Tree) (xs : List α) :
    (listEntry key encode xs).filter (fun m => m.1 == name) = [] :=
  filter_entryIf h _ _

theorem filter_entryOf? (h : (key == name) = false) (encode : α → Tree) (a? : Option α) :
    (entryOf? key encode a?).filter (fun m => m.1 == name) = [] := by
  cases a? <;> simp [entryOf?, h]

theorem under_entryOf? (encode : α → Tree) (a? : Option α) :
    ((entryOf? name encode a?).filter fun m => m.1 == name).map Prod.snd =
      (a?.map encode).toList := by
  cases a? <;> simp [entryOf?]

end Optional

theorem TypeRecord.encode_holds (r : TypeRecord) : r.encode.Holds r.optionalMembers := by
  cases r with
  | leaf kind typeId =>
    simp (disch := decide) [Tree.Holds, optionalMembers, encode, element?, under_record,
      filter_entry, filter_entryIf]
  | containing kind typeId element =>
    simp (disch := decide) [Tree.Holds, optionalMembers, encode, element?, under_record,
      filter_entry, filter_entryIf]
    simp [entry]

theorem ValueRecord.encode_holds (r : ValueRecord) : r.encode.Holds r.optionalMembers := by
  simp (disch := decide) [Tree.Holds, optionalMembers, encode, under_record, filter_entryIf,
    under_entryOf?]

theorem SlotRecord.encode_holds (r : SlotRecord) : r.encode.Holds r.optionalMembers := by
  simp (disch := decide) [Tree.Holds, optionalMembers, encode, under_record, filter_entry,
    filter_entryIf, under_entryOf?]

theorem FieldRecord.encode_holds (r : FieldRecord) : r.encode.Holds r.optionalMembers := by
  simp (disch := decide) [Tree.Holds, optionalMembers, encode, under_record, filter_entry,
    filter_entryOf?, under_entryOf?]

theorem NodeRecord.encode_holds (r : NodeRecord) : r.encode.Holds r.optionalMembers := by
  simp (disch := decide) [Tree.Holds, optionalMembers, encode, under_record, filter_entry,
    filter_entryIf, filter_listEntry, filter_entryOf?, under_entryOf?]

/-- Reading what a lettering writes changes nothing but the spelling of numbers. -/
def Json.Lettering.respelling (w : Lettering) : Respelling where
  tree := w.reread
  record ms := by rw [Lettering.reread, Lettering.rereadMembers_eq_map]
  list ts := by rw [Lettering.reread, Lettering.rereadItems_eq_map]
  null := by rw [Tree.null, Lettering.reread, Lettering.readScalar]
  text s := by rw [Tree.ofText, Lettering.reread, Lettering.readScalar]
  flag := Lettering.reread_ofFlag
  int := Lettering.reread_ofInt
  double x hx hz old := by
    obtain ⟨n, source, hread, hsign, hsize⟩ := Lettering.reread_number (w := w)
      (n := ⟨x.isNegative, (binary64.shortest (binary64.magnitude x.pattern)).digits,
        (binary64.shortest (binary64.magnitude x.pattern)).exponent, false⟩) rfl
      (binary64.text x.pattern)
    have htree : w.reread (ofDouble x) = .scalar (.number n source) := hread
    rw [htree]
    exact double_of_shortest hx hz hsign hsize source old

/-- What begins with a brace is read as JSON unless another format is asked for. -/
theorem read_brace {format : Format} (hf : format ≠ .yaml) (bytes : List UInt8) :
    read format (0x7b :: bytes) = readJson (0x7b :: bytes) := by
  cases format with
  | auto | json => rfl
  | yaml => exact absurd rfl hf

/-- Every text of a document is read back as the document. -/
theorem decode?_written (w : Lettering) {d : Document} (hd : isFinite d = true) :
    (Json.read? (w.write (encode d))).bind (decode? .json) = some d.unsigned := by
  rw [w.read?_write, Option.bind_some]
  exact decode?_encode w.respelling hd

/-- The written form of a document begins with a brace. -/
theorem utf8_write_encode (w : Lettering) (d : Document) :
    ∃ bytes, Text.utf8 (w.write (encode d)) = 0x7b :: bytes := by
  rw [encode, entry, List.cons_append, Lettering.write]
  exact ⟨_, rfl⟩

/-- The bytes of a written document are read back as the document. -/
theorem read_written (w : Lettering) {format : Format} (hf : format ≠ .yaml) {d : Document}
    (hd : isFinite d = true) :
    read format (Text.utf8 (w.write (encode d))) = .ok d.unsigned := by
  have hdecoded := decode?_written w hd
  have hchars := Text.lossyChars_utf8 (w.write (encode d))
  obtain ⟨tree, htree, hdecode⟩ := Option.bind_eq_some_iff.1 hdecoded
  obtain ⟨bytes, hbytes⟩ := utf8_write_encode w d
  rw [← hchars] at htree
  rw [hbytes] at htree ⊢
  rw [read_brace hf, readJson, htree]
  simp only [hdecode]

/-- A finite document has a written form, with a member for everything that is present and for
nothing that is absent. However its characters are spelled, they and their bytes are read back as
the document, up to the signs of zeros. -/
theorem written_document_read_back (w : Lettering) (d : Document)
    (hfinite : ∀ v ∈ d.values, v.float.isFinite = true) :
    encode? d = some (encode d) ∧
      (Json.read? (w.write (encode d))).bind (decode? .json) = some d.unsigned ∧
      (∀ format ≠ Format.yaml, read format (Text.utf8 (w.write (encode d))) = .ok d.unsigned) ∧
      (∀ r : TypeRecord, r.encode.Holds r.optionalMembers) ∧
      (∀ r : ValueRecord, r.encode.Holds r.optionalMembers) ∧
      (∀ r : SlotRecord, r.encode.Holds r.optionalMembers) ∧
      (∀ r : FieldRecord, r.encode.Holds r.optionalMembers) ∧
      ∀ r : NodeRecord, r.encode.Holds r.optionalMembers := by
  have hd : isFinite d = true := (Contract.document_isFinite d).2 hfinite
  exact ⟨if_pos hd, decode?_written w hd, fun format hf => read_written w hf hd,
    TypeRecord.encode_holds, ValueRecord.encode_holds, SlotRecord.encode_holds,
    FieldRecord.encode_holds, NodeRecord.encode_holds⟩

/-- A struct whose name ends with a replacement character and whose field has a negative zero for
its default, an enum without enumerants, an interface without methods, and a constant of a tenth. -/
def sparseDocument : Document where
  nodes? := some
    [{ (default : NodeRecord) with
        id := 1, kind := "struct", displayName := "café\n\ufffd"
        struct? := some { (default : StructRecord) with
          fields := [{ (default : FieldRecord) with
            name := "ratio", discriminant? := some 0
            slot? := some ⟨0, .leaf "float64" 0,
              some { (default : ValueRecord) with float := ⟨0x8000000000000000⟩ }, 0⟩ }] } },
      { (default : NodeRecord) with id := 2, kind := "enum", enum? := some none },
      { (default : NodeRecord) with id := 3, kind := "interface", interface? := some [] },
      { (default : NodeRecord) with
        id := 4, kind := "const"
        const? := some ⟨.leaf "float64" 0,
          { (default : ValueRecord) with float := ⟨0x3fb999999999999a⟩ }, 0⟩ }]
  files? := some []

theorem sparse_document_read_back :
    (∀ v ∈ sparseDocument.values, v.float.isFinite = true) ∧
      sparseDocument.unsigned ≠ sparseDocument ∧
      ∀ format ≠ Format.yaml,
        read format (Text.utf8 (Lettering.standard.write (encode sparseDocument))) =
          .ok sparseDocument.unsigned := by
  have hfinite : ∀ v ∈ sparseDocument.values, v.float.isFinite = true :=
    List.all_eq_true.1 rfl
  obtain ⟨-, -, hread, -⟩ := written_document_read_back .standard sparseDocument hfinite
  exact ⟨hfinite, by decide, hread⟩

end SchemaBindings.Document
