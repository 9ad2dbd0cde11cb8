import Mathlib.Data.List.Perm.Basic
import SchemaBindings.Proofs.Layout.Occupancy

namespace SchemaBindings

open SchemaBindings.Schema SchemaBindings.Outcome

namespace Schema

/-- The same struct, its fields listed in another order. -/
structure StructInfo.Reordered (s s' : StructInfo) : Prop where
  fields : s.fields.Perm s'.fields
  rest : { s with fields := [] } = { s' with fields := [] }

structure Node.Reordered (n n' : Node) : Prop where
  struct : Option.Rel StructInfo.Reordered n.struct? n'.struct?
  rest : { n with struct? := none } = { n' with struct? := none }

/-- The same graph, the fields of each struct listed in some other order. -/
def Graph.Reordered (g g' : Graph) : Prop :=
  List.Forall₂ Node.Reordered g.nodes g'.nodes

theorem StructInfo.Reordered.symm {s s' : StructInfo} (h : s.Reordered s') : s'.Reordered s :=
  ⟨h.fields.symm, h.rest.symm⟩

namespace Node.Reordered

variable {n n' : Node}

theorem symm (h : n.Reordered n') : n'.Reordered n := by
  refine ⟨?_, h.rest.symm⟩
  have hrel := h.struct
  generalize n.struct? = s? at hrel
  generalize n'.struct? = s'? at hrel
  cases hrel with
  | some hs => exact .some hs.symm
  | none => exact .none

theorem id_eq (h : n.Reordered n') : n.id = n'.id := by
  have hid := congrArg Node.id h.rest
  exact hid

theorem kind_eq (h : n.Reordered n') : n.kind = n'.kind := by
  have hkind := congrArg Node.kind h.rest
  exact hkind

theorem exists_struct {s : StructInfo} (h : n.Reordered n') (hs : n.struct? = some s) :
    ∃ s', n'.struct? = some s' ∧ s.Reordered s' := by
  have hrel := h.struct
  rw [hs] at hrel
  cases hs' : n'.struct? with
  | none =>
    rw [hs'] at hrel
    cases hrel
  | some s' =>
    rw [hs'] at hrel
    cases hrel with
    | some hr => exact ⟨s', rfl, hr⟩

end Node.Reordered

namespace Graph.Reordered

variable {g g' : Graph}

theorem symm (h : g.Reordered g') : g'.Reordered g :=
  h.flip.imp fun _ _ hn => hn.symm

theorem depthBound_eq (h : g.Reordered g') : g.depthBound = g'.depthBound := by
  unfold depthBound size
  rw [h.length_eq]

theorem exists_find? {id : UInt64} {m : Node} (h : g.Reordered g') (hm : g.find? id = some m) :
    ∃ m', g'.find? id = some m' ∧ m.Reordered m' := by
  unfold Graph.Reordered at h
  unfold find? at hm ⊢
  generalize g.nodes = nodes at h hm
  generalize g'.nodes = nodes' at h
  induction h with
  | nil => cases hm
  | @cons n n' ns ns' hn _ ih =>
    rw [List.find?_cons] at hm ⊢
    rw [← hn.id_eq]
    by_cases hid : n.id = id
    · simp only [hid, beq_self_eq_true, Option.some.injEq] at hm ⊢
      subst hm
      exact ⟨n', rfl, hn⟩
    · have hne : (n.id == id) = false := by simpa using hid
      simp only [hne] at hm ⊢
      exact ih hm

end Graph.Reordered

theorem Kind.ofCode_code (k : Kind) : ofCode k.code = k := by
  cases k with
  | unlisted code outside => exact dif_pos outside
  | _ => rfl

theorem Kind.code_injective {k l : Kind} (h : k.code = l.code) : k = l := by
  rw [← ofCode_code k, ← ofCode_code l, h]

end Schema

namespace Layout

theorem discriminantSlots_reordered {s s' : StructInfo} (h : s.Reordered s') :
    discriminantSlots s = discriminantSlots s' := by
  have hcount := congrArg StructInfo.discriminantCount h.rest
  have hoffset := congrArg StructInfo.discriminantOffset h.rest
  simp only at hcount hoffset
  simp [discriminantSlots, StructInfo.hasUnion, hcount, hoffset]

/-- Slots that occupy something are told apart by their place in the order. -/
theorem Slot.eq_of_key_eq {s o : Slot} (hs : s.place ≠ .none) (h : s.key = o.key) : s = o := by
  simp only [key, EmbeddingLike.apply_eq_iff_eq, Prod.mk.injEq] at h
  obtain ⟨-, hposition, -, hcode⟩ := h
  have hkind := Kind.code_injective hcode
  have hplace : o.place = s.place := by simp only [place, hkind]
  have hbits : o.bits = s.bits := by simp only [bits, hkind]
  have hoffset : s.offset = o.offset := by
    cases hp : s.place with
    | none => exact absurd hp hs
    | data =>
      have hpos := bits_pos s hp
      simp only [position, hplace, hp, start, hbits] at hposition
      exact UInt32.toNat_inj.1 (Nat.eq_of_mul_eq_mul_right hpos hposition)
    | pointers =>
      simp only [position, hplace, hp] at hposition
      exact UInt32.toNat_inj.1 hposition
  cases s
  cases o
  simp_all

/-- Sorting forgets the order in which slots were collected. -/
theorem sort_eq_of_perm {l l' : List Slot} (h : l.Perm l') (hl : ∀ s ∈ l, s.place ≠ .none) :
    (l.mergeSort fun s o => !o.before s) = l'.mergeSort fun s o => !o.before s := by
  have hsorted : (l.mergeSort fun s o => !o.before s).Perm
      (l'.mergeSort fun s o => !o.before s) :=
    (List.mergeSort_perm l _).trans (h.trans (List.mergeSort_perm l' _).symm)
  refine hsorted.eq_of_pairwise (fun s o hs _ hso hos => ?_) (Slot.sorted_by_key l)
    (Slot.sorted_by_key l')
  exact Slot.eq_of_key_eq (hl s (List.mem_mergeSort.1 hs)) (le_antisymm hso hos)

section Reordered

variable {g g' : Graph} (hg : g.Reordered g')
include hg

theorem fieldCandidates_reordered {depth : Nat} {n : Node} (n' : Node) {f : Field}
    {part : List Slot}
    (ih : ∀ m m' all, m.Reordered m' → candidates g depth m = .ok all →
      ∃ all', candidates g' depth m' = .ok all' ∧ all.Perm all')
    (h : fieldCandidates g n (candidates g depth) f = .ok part) :
    ∃ part', fieldCandidates g' n' (candidates g' depth) f = .ok part' ∧ part.Perm part' := by
  rcases fieldCandidates_eq_ok_iff.1 h with ⟨p, hb, rfl⟩ | ⟨id, m, hb, hm, hrec⟩
  · exact ⟨fieldSlots p, fieldCandidates_eq_ok_iff.2 (Or.inl ⟨p, hb, rfl⟩), .refl _⟩
  · obtain ⟨m', hm', hmm⟩ := hg.exists_find? hm
    obtain ⟨part', hrec', hperm⟩ := ih m m' part hmm hrec
    exact ⟨part', fieldCandidates_eq_ok_iff.2 (Or.inr ⟨id, m', hb, hm', hrec'⟩), hperm⟩

/-- Another order of the fields, in a struct and in its groups, gives the same slots in another
order. -/
theorem candidates_reordered {depth : Nat} {n n' : Node} {all : List Slot} (hn : n.Reordered n')
    (h : candidates g depth n = .ok all) :
    ∃ all', candidates g' depth n' = .ok all' ∧ all.Perm all' := by
  induction depth generalizing n n' all with
  | zero => cases h
  | succ depth ih =>
    obtain ⟨hk, s, hs, parts, hparts, rfl⟩ := candidates_succ_eq_ok_iff.1 h
    obtain ⟨s', hs', hss⟩ := hn.exists_struct hs
    -- first each field in place, then the fields in their other order
    obtain ⟨same, hsame, hperms⟩ := exists_forall₂ hparts fun f _ part hf =>
      fieldCandidates_reordered hg n' (fun _ _ _ hm hc => ih hm hc) hf
    obtain ⟨parts', hparts', hmoved⟩ := List.perm_comp_forall₂ hss.fields.symm hsame
    have hflat : parts.flatten.Perm parts'.flatten :=
      (List.Perm.flatten_congr hperms).trans hmoved.symm.flatten
    refine ⟨discriminantSlots s' ++ parts'.flatten, ?_, ?_⟩
    · exact candidates_succ_eq_ok_iff.2 ⟨hn.kind_eq.symm.trans hk, s', hs', parts', hparts', rfl⟩
    · rw [discriminantSlots_reordered hss]
      exact hflat.append_left _

theorem occupied_eq_ok_of_reordered {n n' : Node} {slots : List Slot} (hn : n.Reordered n')
    (h : occupied g n = .ok slots) : occupied g' n' = .ok slots := by
  obtain ⟨all, hall, rfl⟩ := occupied_eq_ok h
  obtain ⟨all', hall', hperm⟩ := candidates_reordered hg hn hall
  have hplaces : ∀ s ∈ all, s.place ≠ .none := fun s hs =>
    ((mem_candidates hall s).1 hs).place_ne_none
  rw [hg.depthBound_eq] at hall'
  rw [occupied, hall', sort_eq_of_perm hperm hplaces]
  rfl

end Reordered

/-- The slots of a struct do not depend on the order in which its fields, or those of its groups,
are listed: they are found in both orders or in neither, and are the same. -/
theorem occupied_ignores_field_order (g g' : Graph) (n n' : Node) (hg : g.Reordered g')
    (hn : n.Reordered n') (slots : List Slot) :
    occupied g n = .ok slots ↔ occupied g' n' = .ok slots :=
  ⟨occupied_eq_ok_of_reordered hg hn, occupied_eq_ok_of_reordered hg.symm hn.symm⟩

namespace Shapes

/-- A number that is read raw or as a real, and a group with a tag. -/
def reading : Node :=
  structNode 4 "reading" 0 0
    [plainField "raw" .uint32 0, plainField "value" .float32 0,
      ⟨"edge", 0, noDiscriminant, .group 3⟩]

def reversed (n : Node) : Node :=
  { n with struct? := n.struct?.map fun s => { s with fields := s.fields.reverse } }

def readings : Graph :=
  ⟨[reading, edge], by decide⟩

def reversedReadings : Graph :=
  ⟨[reversed reading, reversed edge], by decide⟩

theorem reordered_reversed (n : Node) : n.Reordered (reversed n) := by
  refine ⟨?_, rfl⟩
  unfold reversed
  cases n.struct? with
  | none => exact .none
  | some s => exact .some ⟨s.fields.reverse_perm.symm, rfl⟩

theorem occupied_reading : occupied readings reading = .ok [⟨.uint32, 0⟩, ⟨.uint16, 4⟩] := by
  have hall : candidates readings readings.depthBound reading =
      .ok [⟨.uint32, 0⟩, ⟨.float32, 0⟩, ⟨.uint16, 4⟩, ⟨.uint8, 0⟩] := rfl
  have hsort : [(⟨.uint32, 0⟩ : Slot), ⟨.float32, 0⟩, ⟨.uint16, 4⟩, ⟨.uint8, 0⟩].mergeSort
      (fun s o => !o.before s) = [⟨.uint32, 0⟩, ⟨.float32, 0⟩, ⟨.uint8, 0⟩, ⟨.uint16, 4⟩] := by
    simp [List.mergeSort, List.MergeSort.Internal.splitInTwo, Slot.before, Slot.place, Slot.start,
      Slot.bits, sectionOf, bitWidth, Kind.code]
  rw [occupied, hall]
  exact congrArg (fun sorted => Except.ok (dropContained none sorted)) hsort

end Shapes

/-- The real comes first in one order and the raw number in the other; both keep the raw one. -/
theorem occupied_ignores_field_order_reading :
    Shapes.readings.Reordered Shapes.reversedReadings ∧
    candidates Shapes.reversedReadings 3 (Shapes.reversed Shapes.reading) ≠
      candidates Shapes.readings 3 Shapes.reading ∧
    occupied Shapes.reversedReadings (Shapes.reversed Shapes.reading) =
      .ok [⟨.uint32, 0⟩, ⟨.uint16, 4⟩] := by
  have hg : Shapes.readings.Reordered Shapes.reversedReadings :=
    .cons (Shapes.reordered_reversed _) (.cons (Shapes.reordered_reversed _) .nil)
  refine ⟨hg, by decide, ?_⟩
  exact (occupied_ignores_field_order _ _ _ _ hg (Shapes.reordered_reversed _) _).1
    Shapes.occupied_reading

end Layout
end SchemaBindings
