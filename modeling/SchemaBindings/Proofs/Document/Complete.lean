import SchemaBindings.Proofs.Document.Conversion
import SchemaBindings.Proofs.Schema.References

namespace SchemaBindings.Document

open SchemaBindings.Schema SchemaBindings.Outcome

theorem checkedKind_listed {name : String} {kind : Kind} (h : checkedKind name = .ok kind) :
    kind ∈ Kind.listed := by
  have hname := checkedKind_eq_ok h
  unfold Kind.ofName? at hname
  split_ifs at hname
  · cases hname
    decide
  · exact List.mem_of_find?_eq_some hname

theorem checkedLeaf_isProper {kind : Kind} {typeId : UInt64} {t : TypeRef}
    (hk : kind ∈ Kind.listed) (h : checkedLeaf kind typeId = .ok t) : t.IsProper := by
  unfold checkedLeaf at h
  split at h
  · cases h
  iterate 3
    · split_ifs at h
      · cases h
      · cases h
        exact ⟨hk, by decide⟩
  · next hlist _ _ _ =>
    cases h
    exact ⟨hk, hlist⟩

theorem TypeRecord.checked_isProper {r : TypeRecord} {t : TypeRef} (h : r.checked = .ok t) :
    t.IsProper := by
  induction r generalizing t with
  | leaf name typeId =>
    obtain ⟨kind, hk, h⟩ := bind_eq_ok_iff.1 h
    exact checkedLeaf_isProper (checkedKind_listed hk) h
  | containing name typeId element ih =>
    obtain ⟨kind, hk, h⟩ := bind_eq_ok_iff.1 h
    split at h
    · obtain ⟨type, htype, h⟩ := bind_eq_ok_iff.1 h
      cases h
      have hproper := ih (inside_eq_ok_iff.1 htype)
      exact hproper
    · exact checkedLeaf_isProper (checkedKind_listed hk) h

theorem FieldRecord.checked_isProper {r : FieldRecord} {f : Field} (h : r.checked = .ok f)
    {slot : SlotField} (hf : f.body = .slot slot) : slot.type.IsProper := by
  rcases FieldRecord.checked_eq_ok h with ⟨id, -, -, hbody⟩ | ⟨record, info, -, hinfo, hbody⟩
  · cases hbody.symm.trans hf
  · cases hbody.symm.trans hf
    exact TypeRecord.checked_isProper (SlotRecord.checked_eq_ok hinfo).1

theorem StructRecord.checked_isProper {r : StructRecord} {s : StructInfo} (h : r.checked = .ok s) :
    ∀ f ∈ s.fields, ∀ slot, f.body = .slot slot → slot.type.IsProper := by
  intro f hf slot hb
  obtain ⟨record, -, hr⟩ := exists_of_forall₂_right (StructRecord.checked_eq_ok h) hf
  exact FieldRecord.checked_isProper hr hb

theorem NodeRecord.checked_complete {r : NodeRecord} {n : Node} (h : r.checked = .ok n) :
    n.Complete := by
  obtain ⟨-, hcases⟩ := NodeRecord.checked_eq_ok h
  rcases hcases with ⟨hkind, -, info, s, -, hs, hn⟩ | ⟨hkind, -, info, c, -, hc, hn⟩ |
    ⟨hstruct, hconst, -⟩
  · exact ⟨fun _ => ⟨s, hn, StructRecord.checked_isProper hs⟩, by simp [hkind]⟩
  · have hproper := TypeRecord.checked_isProper (ConstRecord.checked_eq_ok hc).1
    exact ⟨by simp [hkind], fun _ => ⟨c, hn, hproper⟩⟩
  · exact ⟨fun hk => absurd hk hstruct, fun hk => absurd hk hconst⟩

/-- Every node of a request has the payload that its kind asks for. -/
theorem request_complete {d : Document} {r : Request} (h : request d = .ok r) :
    ∀ n ∈ r.nodes, n.Complete := by
  intro n hn
  obtain ⟨record, -, hr⟩ := exists_of_forall₂_right (request_nodes h) hn
  exact NodeRecord.checked_complete hr

end SchemaBindings.Document
