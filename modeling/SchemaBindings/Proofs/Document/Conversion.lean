import SchemaBindings.Document.Request
import SchemaBindings.Proofs.Outcome

namespace SchemaBindings.Document

open SchemaBindings.Schema SchemaBindings.Outcome

theorem inside_eq_ok_iff {α : Type} {part : Part} {checked : Checked α} {a : α} :
    inside part checked = .ok a ↔ checked = .ok a :=
  mapError_eq_ok_iff

theorem checkedBase64_empty : checkedBase64 "" = .ok [] := by
  decide +kernel

theorem checkedKind_eq_ok {name : String} {kind : Kind} (h : checkedKind name = .ok kind) :
    Kind.ofName? name = some kind := by
  unfold checkedKind at h
  split at h
  next k hk =>
    cases h
    exact hk
  next => cases h

theorem checkedLeaf_kind {kind : Kind} {typeId : UInt64} {t : TypeRef}
    (h : checkedLeaf kind typeId = .ok t) : t.kind = kind := by
  unfold checkedLeaf at h
  split at h
  · cases h
  iterate 3
    · split at h
      · cases h
      · cases h
        rfl
  · cases h
    rfl

/-- A type keeps the kind that it names. -/
theorem TypeRecord.checked_kind {r : TypeRecord} {t : TypeRef} (h : r.checked = .ok t) :
    Kind.ofName? r.kind = some t.kind := by
  cases r with
  | leaf name typeId =>
    obtain ⟨kind, hk, h⟩ := bind_eq_ok_iff.1 h
    rw [checkedLeaf_kind h]
    exact checkedKind_eq_ok hk
  | containing name typeId element =>
    obtain ⟨kind, hk, h⟩ := bind_eq_ok_iff.1 h
    have hname := checkedKind_eq_ok hk
    split at h
    · obtain ⟨type, -, h⟩ := bind_eq_ok_iff.1 h
      cases h
      exact hname
    · rw [checkedLeaf_kind h]
      exact hname

/-- A value has the kind of its type and the numbers that are written for it. -/
theorem ValueRecord.checked_eq_ok {r : ValueRecord} {kind : Kind} {v : Value}
    (h : r.checked kind = .ok v) :
    v.kind = kind ∧ v.int = r.int ∧ v.uint = r.uint ∧ r.checkedFloat kind = .ok v.float := by
  have hnumbers : ∃ float data present, r.checkedFloat kind = .ok float ∧
      v = ⟨kind, r.bool, r.int, r.uint, float, r.enum, r.text, data, present⟩ := by
    unfold ValueRecord.checked at h
    dsimp only at h
    split at h
    · obtain ⟨given, -, h⟩ := bind_eq_ok_iff.1 h
      split at h
      · obtain ⟨_, hfail, -⟩ := bind_eq_ok_iff.1 h
        cases hfail
      · obtain ⟨float, hfloat, h⟩ := bind_eq_ok_iff.1 h
        split at h <;> obtain ⟨data, -, h⟩ := bind_eq_ok_iff.1 h <;> cases h <;>
          exact ⟨float, _, _, hfloat, rfl⟩
    · obtain ⟨float, hfloat, h⟩ := bind_eq_ok_iff.1 h
      split at h <;> obtain ⟨data, -, h⟩ := bind_eq_ok_iff.1 h <;> cases h <;>
        exact ⟨float, _, _, hfloat, rfl⟩
  obtain ⟨float, data, present, hfloat, rfl⟩ := hnumbers
  exact ⟨rfl, rfl, rfl, hfloat⟩

/-- The default of a slot is the value that is written for its kind, or the zero of that kind. -/
theorem SlotRecord.checked_eq_ok {r : SlotRecord} {slot : SlotField} (h : r.checked = .ok slot) :
    r.type.checked = .ok slot.type ∧
      ((r.default? = none ∧ slot.default = .zero slot.type.kind) ∨
        ∃ value, r.default? = some value ∧ value.checked slot.type.kind = .ok slot.default) := by
  obtain ⟨type, htype, h⟩ := bind_eq_ok_iff.1 h
  dsimp only at h
  split at h
  next value hvalue =>
    obtain ⟨initial, hinitial, h⟩ := bind_eq_ok_iff.1 h
    cases h
    exact ⟨htype, Or.inr ⟨value, hvalue, inside_eq_ok_iff.1 hinitial⟩⟩
  next hnone =>
    cases h
    exact ⟨htype, Or.inl ⟨hnone, rfl⟩⟩

theorem SlotRecord.checked_default_kind {r : SlotRecord} {slot : SlotField}
    (h : r.checked = .ok slot) : slot.default.kind = slot.type.kind := by
  rcases (SlotRecord.checked_eq_ok h).2 with ⟨-, hzero⟩ | ⟨value, -, hvalue⟩
  · rw [hzero]
    rfl
  · exact (ValueRecord.checked_eq_ok hvalue).1

/-- A field is a slot or a group, as the record says. -/
theorem FieldRecord.checked_eq_ok {r : FieldRecord} {f : Field} (h : r.checked = .ok f) :
    (∃ id, r.slot? = none ∧ r.groupId? = some id ∧ f.body = .group id) ∨
      ∃ slot info, r.slot? = some slot ∧ slot.checked = .ok info ∧ f.body = .slot info := by
  obtain ⟨body, hbody, h⟩ := bind_eq_ok_iff.1 h
  cases h
  rw [inside_eq_ok_iff] at hbody
  unfold FieldRecord.checkedBody at hbody
  split at hbody
  · cases hbody
  next id hslot hgroup =>
    cases hbody
    exact Or.inl ⟨id, hslot, hgroup, rfl⟩
  next slot hslot _ =>
    cases hinfo : slot.checked with
    | error e =>
      rw [hinfo] at hbody
      cases hbody
    | ok info =>
      rw [hinfo] at hbody
      cases hbody
      exact Or.inr ⟨slot, info, hslot, hinfo, rfl⟩
  · cases hbody

theorem StructRecord.checked_eq_ok {r : StructRecord} {s : StructInfo} (h : r.checked = .ok s) :
    List.Forall₂ (fun field f => field.checked = .ok f) r.fields s.fields := by
  obtain ⟨fields, hfields, h⟩ := bind_eq_ok_iff.1 h
  cases h
  exact mapM_eq_ok_iff.1 hfields

theorem ConstRecord.checked_eq_ok {r : ConstRecord} {c : ConstInfo} (h : r.checked = .ok c) :
    r.type.checked = .ok c.type ∧ r.value.checked c.type.kind = .ok c.value := by
  obtain ⟨type, htype, h⟩ := bind_eq_ok_iff.1 h
  obtain ⟨value, hvalue, h⟩ := bind_eq_ok_iff.1 h
  cases h
  exact ⟨htype, inside_eq_ok_iff.1 hvalue⟩

/-- A node has the kind that it names, and of the payloads for structs and constants it has only
that of its kind. -/
theorem NodeRecord.checked_eq_ok {r : NodeRecord} {n : Node} (h : r.checked = .ok n) :
    NodeKind.ofName? r.kind = some n.kind ∧
      ((n.kind = .structNode ∧ n.const? = none ∧
          ∃ info s, r.struct? = some info ∧ info.checked = .ok s ∧ n.struct? = some s) ∨
        (n.kind = .constNode ∧ n.struct? = none ∧
          ∃ info c, r.const? = some info ∧ info.checked = .ok c ∧ n.const? = some c) ∨
        (n.kind ≠ .structNode ∧ n.kind ≠ .constNode ∧ n.struct? = none ∧ n.const? = none)) := by
  unfold NodeRecord.checked at h
  split at h
  next kind hkind =>
    obtain ⟨encoded, -, h⟩ := bind_eq_ok_iff.1 h
    cases kind with
    | structNode =>
      dsimp only at h
      split at h
      next info hinfo =>
        obtain ⟨s, hs, h⟩ := bind_eq_ok_iff.1 h
        cases h
        exact ⟨hkind, Or.inl ⟨rfl, rfl, info, s, hinfo, hs, rfl⟩⟩
      next => cases h
    | constNode =>
      dsimp only at h
      split at h
      next info hinfo =>
        obtain ⟨c, hc, h⟩ := bind_eq_ok_iff.1 h
        cases h
        exact ⟨hkind, Or.inr (Or.inl ⟨rfl, rfl, info, c, hinfo, hc, rfl⟩)⟩
      next => cases h
    | enumNode =>
      dsimp only at h
      split at h
      next =>
        cases h
        exact ⟨hkind, Or.inr (Or.inr ⟨nofun, nofun, rfl, rfl⟩)⟩
      next => cases h
    | _ =>
      cases h
      exact ⟨hkind, Or.inr (Or.inr ⟨nofun, nofun, rfl, rfl⟩)⟩
  next => cases h

theorem checkedNodes_eq_ok_iff {index : Nat} {rs : List NodeRecord} {nodes : List Node} :
    checkedNodes index rs = .ok nodes ↔ List.Forall₂ (fun r n => r.checked = .ok n) rs nodes := by
  induction rs generalizing index nodes with
  | nil =>
    rw [checkedNodes, List.forall₂_nil_left_iff]
    exact ⟨fun h => (Except.ok.inj h).symm, fun h => congrArg Except.ok h.symm⟩
  | cons r rs ih =>
    rw [checkedNodes, List.forall₂_cons_left_iff, bind_eq_ok_iff]
    refine exists_congr fun node => ?_
    simp only [bind_eq_ok_iff, mapError_eq_ok_iff, ih]
    constructor
    · rintro ⟨hnode, rest, hrest, h⟩
      exact ⟨rest, hnode, hrest, (Except.ok.inj h).symm⟩
    · rintro ⟨rest, hnode, hrest, rfl⟩
      exact ⟨hnode, rest, hrest, rfl⟩

/-- The nodes and files of a request are those of the document, in order. -/
theorem request_eq_ok_iff {d : Document} {r : Request} :
    request d = .ok r ↔
      List.Forall₂ (fun record n => record.checked = .ok n) (d.nodes?.getD []) r.nodes ∧
        r.files = (d.files?.getD []).map FileRecord.requested := by
  rw [request, bind_eq_ok_iff]
  constructor
  · rintro ⟨nodes, hnodes, h⟩
    cases h
    exact ⟨checkedNodes_eq_ok_iff.1 hnodes, rfl⟩
  · rintro ⟨hnodes, hfiles⟩
    obtain ⟨nodes, files⟩ := r
    cases hfiles
    exact ⟨nodes, checkedNodes_eq_ok_iff.2 hnodes, rfl⟩

theorem request_nodes {d : Document} {r : Request} (h : request d = .ok r) :
    List.Forall₂ (fun record n => record.checked = .ok n) (d.nodes?.getD []) r.nodes :=
  (request_eq_ok_iff.1 h).1

section

variable {d : Document} {r : Request} {n : Node}

/-- The slots of a request come from the document. -/
theorem request_slot {s : StructInfo} {f : Field} {slot : SlotField} (h : request d = .ok r)
    (hn : n ∈ r.nodes) (hs : n.struct? = some s) (hf : f ∈ s.fields) (hslot : f.body = .slot slot) :
    ∃ record : SlotRecord, record.checked = .ok slot := by
  obtain ⟨record, -, hrecord⟩ := exists_of_forall₂_right (request_nodes h) hn
  rcases (NodeRecord.checked_eq_ok hrecord).2 with ⟨-, -, info, s', -, hinfo, hs'⟩ |
    ⟨-, hnone, -⟩ | ⟨-, -, hnone, -⟩
  · cases hs.symm.trans hs'
    obtain ⟨field, -, hfield⟩ := exists_of_forall₂_right (StructRecord.checked_eq_ok hinfo) hf
    rcases FieldRecord.checked_eq_ok hfield with ⟨id, -, -, hbody⟩ | ⟨slot', info', -, hinfo', hbody⟩
    · cases hslot.symm.trans hbody
    · cases hslot.symm.trans hbody
      exact ⟨slot', hinfo'⟩
  · cases hs.symm.trans hnone
  · cases hs.symm.trans hnone

/-- The slots of a document are in the request. -/
theorem request_of_slot {record : NodeRecord} {payload : StructRecord} {field : FieldRecord}
    {slotRecord : SlotRecord} (h : request d = .ok r) (hmem : record ∈ d.nodes?.getD [])
    (hkind : NodeKind.ofName? record.kind = some .structNode)
    (hpayload : record.struct? = some payload) (hfield : field ∈ payload.fields)
    (hslot : field.slot? = some slotRecord) :
    ∃ n ∈ r.nodes, record.checked = .ok n ∧ ∃ s, n.struct? = some s ∧
      ∃ f ∈ s.fields, field.checked = .ok f ∧ ∃ slot, f.body = .slot slot ∧
        slotRecord.checked = .ok slot := by
  obtain ⟨n, hn, hrecord⟩ := exists_of_forall₂_left (request_nodes h) hmem
  obtain ⟨hname, hcases⟩ := NodeRecord.checked_eq_ok hrecord
  have hnkind : n.kind = .structNode := Option.some.inj (hname.symm.trans hkind)
  rcases hcases with ⟨-, -, info, s, hinfo, hchecked, hs⟩ | ⟨hconst, -⟩ | ⟨hne, -⟩
  · cases hpayload.symm.trans hinfo
    obtain ⟨f, hf, hchecked⟩ := exists_of_forall₂_left (StructRecord.checked_eq_ok hchecked) hfield
    rcases FieldRecord.checked_eq_ok hchecked with ⟨id, hnone, -⟩ | ⟨slot, info, hsome, hinfo, hbody⟩
    · cases hslot.symm.trans hnone
    · cases hslot.symm.trans hsome
      exact ⟨n, hn, hrecord, s, hs, f, hf, hchecked, info, hbody, hinfo⟩
  · cases hnkind.symm.trans hconst
  · exact absurd hnkind hne

end

end SchemaBindings.Document
