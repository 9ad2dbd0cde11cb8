import Mathlib.Order.Fin.Basic
import SchemaBindings.Layout.Occupancy
import SchemaBindings.Proofs.Layout.SlotOrder
import SchemaBindings.Proofs.Outcome
import SchemaBindings.Proofs.Schema.Links

namespace SchemaBindings.Layout

open Relation
open SchemaBindings.Schema SchemaBindings.Outcome

/-- The slots that a struct occupies by itself, its groups left out. -/
inductive OwnSlot (s : StructInfo) : Slot → Prop where
  | discriminant (h : 0 < s.discriminantCount) : OwnSlot s ⟨.uint16, s.discriminantOffset⟩
  | field (f : Field) (hf : f ∈ s.fields) (p : SlotField) (hb : f.body = .slot p)
      (hv : p.type.kind ≠ .void) : OwnSlot s ⟨p.type.kind, p.offset⟩

/-- The slots of a struct and of all groups that group fields lead to from it. -/
def Candidate (g : Graph) (n : Node) (slot : Slot) : Prop :=
  ∃ m s, ReflTransGen g.GroupOf n m ∧ m.kind = .structNode ∧ m.struct? = some s ∧ OwnSlot s slot

/-- A struct, with all its groups, takes up a cell. -/
def Occupies (g : Graph) (n : Node) (c : Cell) : Prop :=
  ∃ slot, Candidate g n slot ∧ slot.Covers c

/-- The slots that one field brings into its struct. -/
inductive FieldSlot (g : Graph) (f : Field) : Slot → Prop where
  | slot (p : SlotField) (hb : f.body = .slot p) (hv : p.type.kind ≠ .void) :
      FieldSlot g f ⟨p.type.kind, p.offset⟩
  | group (id : UInt64) (m : Node) (hb : f.body = .group id) (hm : g.find? id = some m)
      (slot : Slot) (hc : Candidate g m slot) : FieldSlot g f slot

theorem mem_discriminantSlots {s : StructInfo} {slot : Slot} :
    slot ∈ discriminantSlots s ↔
      0 < s.discriminantCount ∧ slot = ⟨.uint16, s.discriminantOffset⟩ := by
  have hz : s.hasUnion = true ↔ 0 < s.discriminantCount := by
    rw [StructInfo.hasUnion, bne_iff_ne, UInt16.pos_iff_ne_zero]
  unfold discriminantSlots
  split_ifs with h
  · simp [hz.1 h]
  · simp [← hz, h]

theorem mem_fieldSlots {p : SlotField} {slot : Slot} :
    slot ∈ fieldSlots p ↔ p.type.kind ≠ .void ∧ slot = ⟨p.type.kind, p.offset⟩ := by
  unfold fieldSlots
  simp only [sectionOf_eq_none_iff]
  split_ifs with h <;> simp [h]

theorem candidate_iff {g : Graph} {n : Node} {s : StructInfo} {slot : Slot}
    (hk : n.kind = .structNode) (hs : n.struct? = some s) :
    Candidate g n slot ↔ slot ∈ discriminantSlots s ∨ ∃ f ∈ s.fields, FieldSlot g f slot := by
  constructor
  · rintro ⟨m, s', hr, hk', hs', hown⟩
    rcases ReflTransGen.cases_head hr with rfl | ⟨k, ⟨group, hg, hfind⟩, hr⟩
    · cases hs.symm.trans hs'
      cases hown with
      | discriminant h => exact Or.inl (mem_discriminantSlots.2 ⟨h, rfl⟩)
      | field f hf p hb hv => exact Or.inr ⟨f, hf, .slot p hb hv⟩
    · obtain ⟨-, s'', hs'', f, hf, -, hb⟩ := Node.mem_groups.1 hg
      cases hs.symm.trans hs''
      exact Or.inr ⟨f, hf, .group group.2 k hb hfind slot ⟨m, s', hr, hk', hs', hown⟩⟩
  · rintro (h | ⟨f, hf, h⟩)
    · obtain ⟨hpos, rfl⟩ := mem_discriminantSlots.1 h
      exact ⟨n, s, .refl, hk, hs, .discriminant hpos⟩
    · cases h with
      | slot p hb hv => exact ⟨n, s, .refl, hk, hs, .field f hf p hb hv⟩
      | group id m hb hm slot hc =>
        obtain ⟨m', s', hr, hk', hs', hown⟩ := hc
        have hg : g.GroupOf n m :=
          ⟨(f.name, id), Node.mem_groups.2 ⟨hk, s, hs, f, hf, rfl, hb⟩, hm⟩
        exact ⟨m', s', .head hg hr, hk', hs', hown⟩

theorem fieldCandidates_eq_ok_iff {g : Graph} {owner : Node} {f : Field} {part : List Slot}
    {ofGroup : Node → Except Failure (List Slot)} :
    fieldCandidates g owner ofGroup f = .ok part ↔
      (∃ p, f.body = .slot p ∧ part = fieldSlots p) ∨
      ∃ id m, f.body = .group id ∧ g.find? id = some m ∧ ofGroup m = .ok part := by
  unfold fieldCandidates
  cases f.body with
  | slot p => simp [eq_comm]
  | group id => simp [bind_eq_ok_iff, mapError_eq_ok_iff, Graph.find_eq_ok_iff]

theorem candidates_succ_eq_ok_iff {g : Graph} {depth : Nat} {n : Node} {all : List Slot} :
    candidates g (depth + 1) n = .ok all ↔ n.kind = .structNode ∧ ∃ s, n.struct? = some s ∧
      ∃ parts, List.Forall₂ (fun f part => fieldCandidates g n (candidates g depth) f = .ok part)
        s.fields parts ∧ all = discriminantSlots s ++ parts.flatten := by
  rw [candidates]
  split
  next s hk hs =>
    simp only [bind_eq_ok_iff, mapM_eq_ok_iff, hk, hs, true_and, Option.some.injEq,
      exists_eq_left']
    refine exists_congr fun parts => and_congr_right fun _ => ?_
    exact ⟨fun h => (Except.ok.inj h).symm, fun h => by rw [h]; rfl⟩
  next hn =>
    simp only [reduceCtorEq, false_iff]
    rintro ⟨hk, s, hs, -⟩
    exact hn s hk hs

/-- Collecting finds the candidates, and nothing else. -/
theorem mem_candidates {g : Graph} {depth : Nat} {n : Node} {all : List Slot}
    (h : candidates g depth n = .ok all) (slot : Slot) : slot ∈ all ↔ Candidate g n slot := by
  induction depth generalizing n all slot with
  | zero => cases h
  | succ depth ih =>
    obtain ⟨hk, s, hs, parts, hparts, rfl⟩ := candidates_succ_eq_ok_iff.1 h
    rw [candidate_iff hk hs, List.mem_append]
    refine or_congr_right ?_
    simp only [List.mem_flatten]
    constructor
    · rintro ⟨part, hp, hslot⟩
      obtain ⟨f, hf, hfp⟩ := exists_of_forall₂_right hparts hp
      rcases fieldCandidates_eq_ok_iff.1 hfp with ⟨p, hb, rfl⟩ | ⟨id, m, hb, hm, hrec⟩
      · obtain ⟨hv, rfl⟩ := mem_fieldSlots.1 hslot
        exact ⟨f, hf, .slot p hb hv⟩
      · exact ⟨f, hf, .group id m hb hm slot ((ih hrec slot).1 hslot)⟩
    · rintro ⟨f, hf, hfs⟩
      obtain ⟨part, hp, hfp⟩ := exists_of_forall₂_left hparts hf
      refine ⟨part, hp, ?_⟩
      rcases fieldCandidates_eq_ok_iff.1 hfp with ⟨p, hb, rfl⟩ | ⟨id, m, hb, hm, hrec⟩
      · cases hfs with
        | slot p' hb' hv =>
          cases hb.symm.trans hb'
          exact mem_fieldSlots.2 ⟨hv, rfl⟩
        | group id m hb' => cases hb.symm.trans hb'
      · cases hfs with
        | slot p' hb' => cases hb.symm.trans hb'
        | group id' m' hb' hm' slot hc =>
          cases hb.symm.trans hb'
          cases hm.symm.trans hm'
          exact (ih hrec slot).2 hc

theorem Candidate.place_ne_none {g : Graph} {n : Node} {slot : Slot} (h : Candidate g n slot) :
    slot.place ≠ .none := by
  obtain ⟨m, s, -, -, -, hown⟩ := h
  cases hown with
  | discriminant => simp [Slot.place, sectionOf]
  | field f hf p hb hv => simpa [Slot.place, sectionOf_eq_none_iff] using hv

theorem dropContained_sublist (last : Option Slot) (l : List Slot) :
    (dropContained last l).Sublist l := by
  induction l generalizing last with
  | nil => exact List.Sublist.refl _
  | cons s rest ih =>
    rw [dropContained]
    split_ifs with h
    · exact (ih last).cons s
    · exact (ih (some s)).cons_cons s

/-- Every slot lies in one that is kept, or in the one kept before. -/
theorem dropContained_covers (last : Option Slot) (l : List Slot) (s : Slot) (hs : s ∈ l) :
    ∃ k ∈ last.toList ++ dropContained last l, k.contains s = true := by
  induction l generalizing last with
  | nil => cases hs
  | cons o rest ih =>
    have hself : o.contains o = true := by
      unfold Slot.contains
      cases o.place <;> simp
    rw [dropContained]
    split_ifs with h
    · rcases List.mem_cons.1 hs with rfl | hs
      · cases last with
        | none => simp at h
        | some k => exact ⟨k, by simp, by simpa using h⟩
      · exact ih last hs
    · rcases List.mem_cons.1 hs with rfl | hs
      · exact ⟨s, by simp, hself⟩
      · obtain ⟨k, hk, hc⟩ := ih (some o) hs
        exact ⟨k, List.mem_append_right _ (by simpa using hk), hc⟩

/-- The slots kept of an ordered list lie one behind the other. It is enough to look at the slot
kept last: all that were kept before it end where it starts or earlier. -/
theorem dropContained_pairwise (last : Slot) (l : List Slot)
    (h : (last :: l).Pairwise fun s o => s.key ≤ o.key) :
    (last :: dropContained (some last) l).Pairwise Slot.Precedes := by
  induction l generalizing last with
  | nil => simp [dropContained]
  | cons s rest ih =>
    obtain ⟨hlast, hs⟩ := List.pairwise_cons.1 h
    rw [dropContained]
    split_ifs with hc
    · have hskip : (last :: rest).Pairwise fun s o => s.key ≤ o.key :=
        List.pairwise_cons.2 ⟨fun o ho => hlast o (List.mem_cons_of_mem s ho),
          (List.pairwise_cons.1 hs).2⟩
      exact ih last hskip
    · have hn : last.contains s = false := by simpa using hc
      have hfirst := Slot.precedes_of_not_contains (hlast s List.mem_cons_self) hn
      have hrest := ih s hs
      refine List.pairwise_cons.2 ⟨fun o ho => ?_, hrest⟩
      rcases List.mem_cons.1 ho with rfl | ho
      · exact hfirst
      · have hle := (List.pairwise_cons.1 hs).1 o ((dropContained_sublist _ _).subset ho)
        exact hfirst.of_key_le hle

theorem dropContained_none_pairwise (l : List Slot)
    (h : l.Pairwise fun s o => s.key ≤ o.key) :
    (dropContained none l).Pairwise Slot.Precedes := by
  cases l with
  | nil => exact List.Pairwise.nil
  | cons s rest =>
    have hs := dropContained_pairwise s rest h
    simpa [dropContained] using hs

section Occupied

variable {g : Graph} {n : Node} {slots : List Slot}

theorem occupied_eq_ok (h : occupied g n = .ok slots) :
    ∃ all, candidates g g.depthBound n = .ok all ∧
      slots = dropContained none (all.mergeSort fun s o => !o.before s) := by
  unfold occupied at h
  obtain ⟨all, hall, hslots⟩ := bind_eq_ok_iff.1 h
  exact ⟨all, hall, (Except.ok.inj hslots).symm⟩

theorem candidate_of_mem_occupied (h : occupied g n = .ok slots) {s : Slot} (hs : s ∈ slots) :
    Candidate g n s := by
  obtain ⟨all, hall, rfl⟩ := occupied_eq_ok h
  have hm := (dropContained_sublist _ _).subset hs
  exact (mem_candidates hall s).1 (List.mem_mergeSort.1 hm)

theorem contained_in_occupied (h : occupied g n = .ok slots) {s : Slot} (hs : Candidate g n s) :
    ∃ k ∈ slots, k.contains s = true := by
  obtain ⟨all, hall, rfl⟩ := occupied_eq_ok h
  have hm : s ∈ all.mergeSort fun s o => !o.before s :=
    List.mem_mergeSort.2 ((mem_candidates hall s).2 hs)
  simpa using dropContained_covers none _ s hm

theorem occupied_pairwise (h : occupied g n = .ok slots) : slots.Pairwise Slot.Precedes := by
  obtain ⟨all, hall, rfl⟩ := occupied_eq_ok h
  exact dropContained_none_pairwise _ (Slot.sorted_by_key all)

theorem occupied_covers_iff (h : occupied g n = .ok slots) (c : Cell) :
    (∃ s ∈ slots, s.Covers c) ↔ Occupies g n c := by
  constructor
  · rintro ⟨s, hs, hc⟩
    exact ⟨s, candidate_of_mem_occupied h hs, hc⟩
  · rintro ⟨s, hs, hc⟩
    obtain ⟨k, hk, hks⟩ := contained_in_occupied h hs
    exact ⟨k, hk, Slot.covers_of_contains hks c hc⟩

end Occupied

/-- The slots of a struct are some of its candidates, and together they cover each bit and each
pointer of the candidates exactly once: none of them meets or contains another. -/
theorem occupied_covers_once (g : Graph) (n : Node) (slots : List Slot)
    (h : occupied g n = .ok slots) :
    (∀ s ∈ slots, Candidate g n s) ∧
    (∀ c, Occupies g n c → ∃! i : Fin slots.length, (slots.get i).Covers c) ∧
    slots.Pairwise fun s o =>
      (∀ c, ¬(s.Covers c ∧ o.Covers c)) ∧ s.contains o = false ∧ o.contains s = false := by
  have hp := occupied_pairwise h
  have hapart : ∀ {i j : Fin slots.length}, i < j → ∀ c, (slots.get i).Covers c →
      ¬(slots.get j).Covers c :=
    fun hij c hi => (List.pairwise_iff_get.1 hp _ _ hij).not_covers hi
  refine ⟨fun s hs => candidate_of_mem_occupied h hs, ?_, ?_⟩
  · intro c hc
    obtain ⟨s, hs, hsc⟩ := (occupied_covers_iff h c).2 hc
    obtain ⟨i, rfl⟩ := List.mem_iff_get.1 hs
    refine ⟨i, hsc, fun j hj => ?_⟩
    rcases lt_trichotomy j i with hlt | heq | hgt
    · exact absurd hsc (hapart hlt c hj)
    · exact heq
    · exact absurd hj (hapart hgt c hsc)
  · refine hp.imp_of_mem fun {s o} hs ho hso => ?_
    have hnot : ∀ c, ¬(s.Covers c ∧ o.Covers c) := fun c hc => hso.not_covers hc.1 hc.2
    refine ⟨hnot, ?_, ?_⟩
    · obtain ⟨c, hc⟩ := o.covers_some (candidate_of_mem_occupied h ho).place_ne_none
      by_contra hcon
      exact hnot c ⟨Slot.covers_of_contains (by simpa using hcon) c hc, hc⟩
    · obtain ⟨c, hc⟩ := s.covers_some (candidate_of_mem_occupied h hs).place_ne_none
      by_contra hcon
      exact hnot c ⟨hc, Slot.covers_of_contains (by simpa using hcon) c hc⟩

namespace Shapes

def plainField (name : String) (kind : Kind) (offset : UInt32) : Field :=
  ⟨name, 0, noDiscriminant, .slot ⟨offset, .plain kind 0, .zero kind, 0⟩⟩

def structNode (id : UInt64) (name : String) (tags : UInt16) (tagOffset : UInt32)
    (fields : List Field) : Node :=
  { (default : Node) with
    id := id
    kind := .structNode
    displayName := name
    struct? := some ⟨2, 1, 7, false, tags, tagOffset, fields⟩ }

/-- A union of a radius and a box. -/
def shape : Node :=
  structNode 1 "shape" 2 1
    [{ plainField "radius" .float32 1 with discriminant := 0 }, ⟨"box", 1, 1, .group 2⟩]

/-- A group whose flag lies inside its width. -/
def box : Node :=
  structNode 2 "shape.box" 0 0
    [plainField "flag" .bool 40, plainField "width" .uint32 1, plainField "label" .text 0,
      plainField "unit" .void 0, ⟨"edge", 0, noDiscriminant, .group 3⟩]

/-- A group with a union of its own. -/
def edge : Node :=
  structNode 3 "shape.box.edge" 2 4
    [{ plainField "count" .uint8 0 with discriminant := 0 },
      { plainField "plain" .void 0 with discriminant := 1 }]

def graph : Graph :=
  ⟨[shape, box, edge], by decide⟩

def boxSlots : List Slot :=
  [⟨.uint8, 0⟩, ⟨.uint32, 1⟩, ⟨.uint16, 4⟩, ⟨.text, 0⟩]

theorem occupied_box : occupied graph box = .ok boxSlots := by
  have hall : candidates graph graph.depthBound box =
      .ok [⟨.bool, 40⟩, ⟨.uint32, 1⟩, ⟨.text, 0⟩, ⟨.uint16, 4⟩, ⟨.uint8, 0⟩] := rfl
  have hsort : [(⟨.bool, 40⟩ : Slot), ⟨.uint32, 1⟩, ⟨.text, 0⟩, ⟨.uint16, 4⟩, ⟨.uint8, 0⟩].mergeSort
      (fun s o => !o.before s) =
        [⟨.uint8, 0⟩, ⟨.uint32, 1⟩, ⟨.bool, 40⟩, ⟨.uint16, 4⟩, ⟨.text, 0⟩] := by
    simp [List.mergeSort, List.MergeSort.Internal.splitInTwo, Slot.before, Slot.place, Slot.start,
      Slot.bits, Section.rank, sectionOf, bitWidth]
  rw [occupied, hall]
  exact congrArg (fun sorted => Except.ok (dropContained none sorted)) hsort

end Shapes

/-- The flag's bit and the pointer of the label are each covered once. -/
theorem occupied_covers_once_box :
    occupied Shapes.graph Shapes.box = .ok Shapes.boxSlots ∧
    (∃! i : Fin Shapes.boxSlots.length, (Shapes.boxSlots.get i).Covers (.bit 40)) ∧
    ∃! i : Fin Shapes.boxSlots.length, (Shapes.boxSlots.get i).Covers (.pointer 0) := by
  obtain ⟨-, hcover, -⟩ := occupied_covers_once _ _ _ Shapes.occupied_box
  have hfield : ∀ slot, OwnSlot (Shapes.box.struct?.get rfl) slot →
      Candidate Shapes.graph Shapes.box slot :=
    fun slot h => ⟨Shapes.box, _, .refl, rfl, rfl, h⟩
  refine ⟨Shapes.occupied_box, hcover _ ⟨⟨.bool, 40⟩, hfield _ ?_, by decide⟩,
    hcover _ ⟨⟨.text, 0⟩, hfield _ ?_, by decide⟩⟩
  · exact .field (Shapes.plainField "flag" .bool 40) (by decide) _ rfl (by decide)
  · exact .field (Shapes.plainField "label" .text 0) (by decide) _ rfl (by decide)

end SchemaBindings.Layout
