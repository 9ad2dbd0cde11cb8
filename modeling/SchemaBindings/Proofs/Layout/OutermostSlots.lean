import Mathlib.Data.List.Nodup
import Mathlib.Data.List.Pairwise
import SchemaBindings.Proofs.Layout.FieldOrder

namespace SchemaBindings.Layout

open SchemaBindings.Schema

namespace Slot

/-- A slot is left out for another that covers more, or covers the same with a lower kind. -/
def supersedes (t s : Slot) : Bool :=
  t.contains s && (!s.contains t || t.kind.code < s.kind.code)

theorem supersedes_eq_false_iff {t s : Slot} :
    t.supersedes s = false ↔
      (t.contains s = true → s.contains t = true ∧ s.kind.code ≤ t.kind.code) := by
  simp [supersedes, Bool.and_eq_false_imp]

theorem contains_trans {s o t : Slot} (h : s.contains o = true) (h' : o.contains t = true) :
    s.contains t = true := by
  have hso := place_of_contains h
  have hot := place_of_contains h'
  cases hs : s.place with
  | data =>
    have ho : o.place = .data := hso.symm.trans hs
    have ht : t.place = .data := hot.symm.trans ho
    rw [contains_data hs ho] at h
    rw [contains_data ho ht] at h'
    exact (contains_data hs ht).2 ⟨h.1.trans h'.1, h'.2.trans h.2⟩
  | pointers =>
    have ho : o.place = .pointers := hso.symm.trans hs
    have ht : t.place = .pointers := hot.symm.trans ho
    rw [contains_pointers hs ho] at h
    rw [contains_pointers ho ht] at h'
    exact (contains_pointers hs ht).2 (h.trans h')
  | none => simp [contains, hs, ← hso.trans hot]

/-- Slots that contain each other differ in their kind at most. -/
theorem extent_eq {s o : Slot} (h : s.contains o = true) (h' : o.contains s = true) :
    s.place = o.place ∧ s.position = o.position ∧ s.bits = o.bits := by
  have hso := place_of_contains h
  refine ⟨hso, ?_⟩
  cases hs : s.place with
  | data =>
    have ho : o.place = .data := hso.symm.trans hs
    rw [contains_data hs ho] at h
    rw [contains_data ho hs] at h'
    simp only [stop] at h h'
    simp only [position, hs, ho]
    omega
  | pointers =>
    have ho : o.place = .pointers := hso.symm.trans hs
    rw [contains_pointers hs ho] at h
    simp only [position, hs, ho, h, true_and]
    rw [bits_eq_zero s (by simp [hs]), bits_eq_zero o (by simp [ho])]
  | none =>
    have ho : o.place = .none := hso.symm.trans hs
    simp only [position, hs, ho, true_and]
    rw [bits_eq_zero s (by simp [hs]), bits_eq_zero o (by simp [ho])]

/-- Of two slots with the same extent the one with the lower kind comes first. -/
theorem key_lt_iff {s o : Slot} (h : s.contains o = true) (h' : o.contains s = true) :
    s.key < o.key ↔ s.kind.code < o.kind.code := by
  obtain ⟨hplace, hposition, hbits⟩ := extent_eq h h'
  simp [key, Prod.Lex.toLex_lt_toLex, hplace, hposition, hbits]

theorem Precedes.key_lt {s o : Slot} (h : s.Precedes o) : s.key < o.key := by
  simp only [key, Prod.Lex.toLex_lt_toLex]
  rcases h with h | ⟨hp, h⟩
  · exact Or.inl h
  refine Or.inr ⟨by rw [hp], Or.inl ?_⟩
  cases hs : s.place with
  | data =>
    have hpos := bits_pos s hs
    simp only [hs, stop] at h
    simp only [position, ← hp, hs]
    omega
  | pointers =>
    simp only [hs] at h
    simp only [position, ← hp, hs]
    exact h
  | none => simp [hs] at h

end Slot

/-- The slots that no other slot of a list supersedes, each once and in order. Every slot is
compared with every other. -/
def outermost (all : List Slot) : List Slot :=
  ((all.filter fun s => !all.any fun t => t.supersedes s).dedup).mergeSort fun s o => !o.before s

theorem mem_outermost {all : List Slot} {s : Slot} :
    s ∈ outermost all ↔ s ∈ all ∧ ∀ t ∈ all, t.supersedes s = false := by
  simp [outermost]

theorem nodup_outermost (all : List Slot) : (outermost all).Nodup :=
  (List.mergeSort_perm _ _).nodup_iff.2 (List.nodup_dedup _)

theorem dropContained_isPrefix (last : Option Slot) (front back : List Slot) :
    dropContained last front <+: dropContained last (front ++ back) := by
  induction front generalizing last with
  | nil => exact List.nil_prefix
  | cons s front ih =>
    rw [List.cons_append, dropContained, dropContained]
    split_ifs
    · exact ih last
    · exact (List.prefix_cons_inj s).2 (ih (some s))

section Ordered

variable {l : List Slot} (hl : l.Pairwise fun s o => s.key ≤ o.key)
include hl

/-- Every slot of an ordered list lies in a kept one that does not come after it. -/
theorem exists_kept_before {s : Slot} (hs : s ∈ l) :
    ∃ k ∈ dropContained none l, k.contains s = true ∧ k.key ≤ s.key := by
  obtain ⟨front, back, rfl⟩ := List.append_of_mem hs
  have hsplit : front ++ s :: back = (front ++ [s]) ++ back := by simp
  obtain ⟨k, hk, hks⟩ := dropContained_covers none (front ++ [s]) s (by simp)
  have hkept : k ∈ dropContained none (front ++ [s]) := by simpa using hk
  refine ⟨k, ?_, hks, ?_⟩
  · rw [hsplit]
    exact (dropContained_isPrefix none (front ++ [s]) back).subset hkept
  · rcases List.mem_append.1 ((dropContained_sublist none _).subset hkept) with hfront | hlast
    · exact (List.pairwise_append.1 hl).2.2 k hfront s List.mem_cons_self
    · rw [List.mem_singleton.1 hlast]

theorem kept_eq_of_contains {k s : Slot} (hk : k ∈ dropContained none l)
    (hs : s ∈ dropContained none l) (hplace : s.place ≠ .none) (h : k.contains s = true) :
    k = s := by
  by_contra hne
  have hapart : (dropContained none l).Pairwise fun s o => ∀ c, s.Covers c → ¬o.Covers c :=
    (dropContained_none_pairwise l hl).imp fun hso _ => hso.not_covers
  have hsymm : Std.Symm fun s o : Slot => ∀ c, s.Covers c → ¬o.Covers c :=
    ⟨fun _ _ h c ho hs => h c hs ho⟩
  obtain ⟨c, hc⟩ := s.covers_some hplace
  exact hapart.forall hk hs hne c (Slot.covers_of_contains h c hc) hc

/-- One pass over an ordered list, which compares each slot with the last one kept, keeps the slots
that no slot of the list supersedes. -/
theorem mem_dropContained (hplaces : ∀ s ∈ l, s.place ≠ .none) (s : Slot) :
    s ∈ dropContained none l ↔ s ∈ l ∧ ∀ t ∈ l, t.supersedes s = false := by
  constructor
  · intro hs
    have hsl := (dropContained_sublist none l).subset hs
    refine ⟨hsl, fun t ht => Slot.supersedes_eq_false_iff.2 fun hts => ?_⟩
    -- what is kept for `t` contains `s` too, so it is `s`
    obtain ⟨k, hk, hkt, hle⟩ := exists_kept_before hl ht
    obtain rfl := kept_eq_of_contains hl hk hs (hplaces s hsl) (Slot.contains_trans hkt hts)
    refine ⟨hkt, ?_⟩
    rw [← not_lt, ← Slot.key_lt_iff hts hkt, not_lt]
    exact hle
  · rintro ⟨hs, hall⟩
    obtain ⟨k, hk, hks, hle⟩ := exists_kept_before hl hs
    obtain ⟨hsk, hcode⟩ :=
      Slot.supersedes_eq_false_iff.1 (hall k ((dropContained_sublist none l).subset hk)) hks
    have hge : s.key ≤ k.key := by
      rw [← not_lt, Slot.key_lt_iff hks hsk, not_lt]
      exact hcode
    rwa [Slot.eq_of_key_eq (hplaces s hs) (le_antisymm hge hle)]

end Ordered

/-- Ordered lists of slots without repetitions are the same if they have the same members. -/
theorem eq_of_mem_iff {l l' : List Slot} (hl : l.Pairwise fun s o => s.key ≤ o.key)
    (hl' : l'.Pairwise fun s o => s.key ≤ o.key) (hn : l.Nodup) (hn' : l'.Nodup)
    (hplaces : ∀ s ∈ l, s.place ≠ .none) (hmem : ∀ s, s ∈ l ↔ s ∈ l') : l = l' := by
  have hperm : l.Perm l' := (List.perm_ext_iff_of_nodup hn hn').2 hmem
  refine hperm.eq_of_pairwise (fun s o hs _ hso hos => ?_) hl hl'
  exact Slot.eq_of_key_eq (hplaces s hs) (le_antisymm hso hos)

theorem outermost_congr {all all' : List Slot} (hplaces : ∀ s ∈ all, s.place ≠ .none)
    (h : ∀ s, s ∈ all ↔ s ∈ all') : outermost all = outermost all' := by
  refine eq_of_mem_iff (Slot.sorted_by_key _) (Slot.sorted_by_key _) (nodup_outermost all)
    (nodup_outermost all') (fun s hs => hplaces s (mem_outermost.1 hs).1) fun s => ?_
  simp only [mem_outermost, h]

theorem dropContained_sort_eq_outermost {all : List Slot} (hplaces : ∀ s ∈ all, s.place ≠ .none) :
    dropContained none (all.mergeSort fun s o => !o.before s) = outermost all := by
  have hsorted := Slot.sorted_by_key all
  have hsub := dropContained_sublist none (all.mergeSort fun s o => !o.before s)
  have hincreasing := (dropContained_none_pairwise _ hsorted).imp fun h => h.key_lt
  refine eq_of_mem_iff (hsorted.sublist hsub) (Slot.sorted_by_key _)
    (hincreasing.imp fun h heq => h.ne (congrArg Slot.key heq)) (nodup_outermost all) ?_ ?_
  · exact fun s hs => hplaces s (List.mem_mergeSort.1 (hsub.subset hs))
  · intro s
    rw [mem_outermost, mem_dropContained hsorted (by simpa using hplaces)]
    simp

/-- The slots of a struct, found in one pass, are those that comparing all candidates with each
other leaves: no candidate covers more, and none covers the same with a lower kind. Neither how often nor
in which order the candidates are listed matters. -/
theorem occupied_eq_outermost (g : Graph) (n : Node) (slots : List Slot)
    (h : occupied g n = .ok slots) :
    (∃ all, candidates g g.depthBound n = .ok all ∧ slots = outermost all) ∧
    (∀ all, (∀ s, s ∈ all ↔ Candidate g n s) → slots = outermost all) ∧
    (∀ s, s ∈ slots ↔ Candidate g n s ∧
      (¬∃ t, Candidate g n t ∧ t.contains s = true ∧ s.contains t = false) ∧
      ¬∃ t, Candidate g n t ∧ t.contains s = true ∧ s.contains t = true ∧
        t.kind.code < s.kind.code) ∧
    slots.Pairwise fun s o => s.before o = true := by
  have hbefore : slots.Pairwise fun s o => s.before o = true :=
    (occupied_pairwise h).imp fun hso => (Slot.before_iff _ _).2 hso.key_lt
  obtain ⟨all, hall, rfl⟩ := occupied_eq_ok h
  have hcandidates := mem_candidates hall
  have hplaces : ∀ s ∈ all, s.place ≠ .none :=
    fun s hs => ((hcandidates s).1 hs).place_ne_none
  have hpass := dropContained_sort_eq_outermost hplaces
  refine ⟨⟨all, hall, hpass⟩, fun other hother => ?_, fun s => ?_, hbefore⟩
  · rw [hpass]
    exact outermost_congr hplaces fun s => (hcandidates s).trans (hother s).symm
  · rw [hpass, mem_outermost]
    simp only [hcandidates, Slot.supersedes_eq_false_iff]
    refine and_congr_right fun _ => ?_
    constructor
    · intro hall
      refine ⟨fun ⟨t, ht, hts, hst⟩ => ?_, fun ⟨t, ht, hts, hst, hlt⟩ => ?_⟩
      · rw [(hall t ht hts).1] at hst
        cases hst
      · exact absurd hlt (not_lt.2 (hall t ht hts).2)
    · rintro ⟨hwider, hlower⟩ t ht hts
      have hst : s.contains t = true := by
        by_contra hst
        exact hwider ⟨t, ht, hts, by simpa using hst⟩
      exact ⟨hst, not_lt.1 fun hlt => hlower ⟨t, ht, hts, hst, hlt⟩⟩

/-- The real covers the raw number's bits with a higher kind, and the byte of the group lies inside
both: the raw number stays. -/
theorem occupied_eq_outermost_reading :
    occupied Shapes.readings Shapes.reading = .ok [⟨.uint32, 0⟩, ⟨.uint16, 4⟩] ∧
    outermost [⟨.uint8, 0⟩, ⟨.float32, 0⟩, ⟨.uint16, 4⟩, ⟨.uint32, 0⟩, ⟨.float32, 0⟩] =
      [⟨.uint32, 0⟩, ⟨.uint16, 4⟩] := by
  have hall : candidates Shapes.readings Shapes.readings.depthBound Shapes.reading =
      .ok [⟨.uint32, 0⟩, ⟨.float32, 0⟩, ⟨.uint16, 4⟩, ⟨.uint8, 0⟩] := rfl
  obtain ⟨-, heq, -⟩ := occupied_eq_outermost _ _ _ Shapes.occupied_reading
  refine ⟨Shapes.occupied_reading, (heq _ fun s => ?_).symm⟩
  rw [← mem_candidates hall s]
  simp only [List.mem_cons, List.not_mem_nil, or_false]
  tauto

end SchemaBindings.Layout
