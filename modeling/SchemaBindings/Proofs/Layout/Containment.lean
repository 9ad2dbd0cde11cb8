import Mathlib.Algebra.Ring.Nat
import SchemaBindings.Proofs.Layout.OutermostSlots

namespace SchemaBindings.Layout

open SchemaBindings.Schema

namespace Slot

section Order

variable {s o : Slot}

theorem contains_refl (s : Slot) : s.contains s = true := by
  cases hs : s.place with
  | data => exact (contains_data hs hs).2 ⟨le_refl _, le_refl _⟩
  | pointers => exact (contains_pointers hs hs).2 rfl
  | none => simp [contains, hs]

theorem covers_start (h : s.place = .data) : s.Covers (.bit s.start) := by
  have hpos := bits_pos s h
  have hlt : s.start < s.stop := by
    unfold stop
    omega
  exact ⟨h, le_refl _, hlt⟩

/-- Data slots share a bit exactly if one lies in the other. -/
theorem nested_iff_meet (hs : s.place = .data) (ho : o.place = .data) :
    s.contains o = true ∨ o.contains s = true ↔ ∃ i, s.Covers (.bit i) ∧ o.Covers (.bit i) := by
  constructor
  · rintro (h | h)
    · exact ⟨o.start, covers_of_contains h _ (covers_start ho), covers_start ho⟩
    · exact ⟨s.start, covers_start hs, covers_of_contains h _ (covers_start hs)⟩
  · rintro ⟨i, ⟨-, hsl, hsr⟩, -, hol, hor⟩
    rcases nested_or_apart hs ho with h | h | h | h
    · exact Or.inl h
    · exact Or.inr h
    · omega
    · omega

/-- Had the contained slot come first, the other would lie wholly behind it. -/
theorem before_of_contains (h : s.contains o = true) (h' : o.contains s = false) :
    s.before o = true := by
  have hplace : o.place ≠ .none := by
    intro ho
    have hs : s.place = .none := (place_of_contains h).trans ho
    simp [contains, hs, ho] at h'
  rw [before_iff]
  by_contra hkey
  have hprecedes : o.Precedes s := precedes_of_not_contains (not_lt.1 hkey) h'
  obtain ⟨c, hc⟩ := covers_some o hplace
  exact hprecedes.not_covers hc (covers_of_contains h c hc)

end Order

/-- The first bit of a data slot, computed in words of sixty-four bits. -/
def startWord (s : Slot) : UInt64 :=
  s.offset.toUInt64 * UInt64.ofNat s.bits

/-- The first bit behind a data slot, computed in words of sixty-four bits. -/
def stopWord (s : Slot) : UInt64 :=
  s.startWord + UInt64.ofNat s.bits

theorem stop_le (s : Slot) : s.stop ≤ 2 ^ 38 := by
  have hoffset : s.offset.toNat + 1 ≤ 2 ^ 32 := s.offset.toNat_lt
  calc s.stop = (s.offset.toNat + 1) * s.bits := by rw [stop, start, Nat.add_mul, Nat.one_mul]
    _ ≤ 2 ^ 32 * 64 := Nat.mul_le_mul hoffset (bits_le s)
    _ = 2 ^ 38 := by norm_num

theorem toNat_bitsWord (s : Slot) : (UInt64.ofNat s.bits).toNat = s.bits := by
  have hbits := bits_le s
  rw [UInt64.toNat_ofNat', Nat.mod_eq_of_lt (by omega)]

theorem toNat_startWord (s : Slot) : s.startWord.toNat = s.start := by
  have hstop := stop_le s
  have hstart : s.start ≤ s.stop := Nat.le_add_right _ _
  rw [startWord, UInt64.toNat_mul, UInt32.toNat_toUInt64, toNat_bitsWord]
  exact Nat.mod_eq_of_lt (show s.start < 2 ^ 64 by omega)

theorem toNat_stopWord (s : Slot) : s.stopWord.toNat = s.stop := by
  have hstop := stop_le s
  rw [stopWord, UInt64.toNat_add, toNat_startWord, toNat_bitsWord]
  exact Nat.mod_eq_of_lt (show s.stop < 2 ^ 64 by omega)

theorem contains_iff_words {s o : Slot} (hs : s.place = .data) (ho : o.place = .data) :
    s.contains o = true ↔ s.startWord ≤ o.startWord ∧ o.stopWord ≤ s.stopWord := by
  rw [contains_data hs ho, UInt64.le_iff_toNat_le, UInt64.le_iff_toNat_le, toNat_startWord,
    toNat_startWord, toNat_stopWord, toNat_stopWord]

end Slot

/-- Data slots are nested or have no bit in common. Containment is an order up to the kind, and what
contains more comes first. All of this can be computed in words of sixty-four bits. -/
theorem slots_nest_or_share_no_bit (s o t : Slot) :
    (s.place = .data → o.place = .data →
      (s.contains o = true ∨ o.contains s = true ↔
        ∃ i, s.Covers (.bit i) ∧ o.Covers (.bit i)) ∧
      (s.contains o = true → o.contains s = true → s.start = o.start ∧ s.bits = o.bits) ∧
      (s.contains o = true ↔ s.startWord ≤ o.startWord ∧ o.stopWord ≤ s.stopWord)) ∧
    s.contains s = true ∧
    (s.contains o = true → o.contains t = true → s.contains t = true) ∧
    (s.contains o = true → o.contains s = false → s.before o = true) ∧
    s.start + s.bits ≤ 2 ^ 38 ∧ s.startWord.toNat = s.start ∧
    s.stopWord.toNat = s.start + s.bits := by
  refine ⟨?_, s.contains_refl, Slot.contains_trans, Slot.before_of_contains, s.stop_le,
    s.toNat_startWord, s.toNat_stopWord⟩
  intro hs ho
  refine ⟨Slot.nested_iff_meet hs ho, ?_, Slot.contains_iff_words hs ho⟩
  intro h h'
  obtain ⟨-, hposition, hbits⟩ := Slot.extent_eq h h'
  simp only [Slot.position, hs, ho] at hposition
  exact ⟨hposition, hbits⟩

/-- The last bit that a flag can have lies in its byte and its word, far before the last word. -/
theorem slots_nest_or_share_no_bit_flag :
    let word : Slot := ⟨.uint64, 0x03ffffff⟩
    let byte : Slot := ⟨.uint8, 0x1fffffff⟩
    let flag : Slot := ⟨.bool, 0xffffffff⟩
    let last : Slot := ⟨.uint64, 0xffffffff⟩
    word.contains byte = true ∧ byte.contains flag = true ∧ flag.contains byte = false ∧
    word.contains flag = true ∧ byte.before flag = true ∧
    (∃ i, word.Covers (.bit i) ∧ flag.Covers (.bit i)) ∧
    (¬∃ i, last.Covers (.bit i) ∧ flag.Covers (.bit i)) ∧ last.stopWord.toNat = 2 ^ 38 := by
  intro word byte flag last
  have hword : word.contains byte = true := by decide
  have hbyte : byte.contains flag = true := by decide
  have hflag : flag.contains byte = false := by decide
  have hapart : ¬(last.contains flag = true ∨ flag.contains last = true) := by decide
  obtain ⟨hdata, -⟩ := slots_nest_or_share_no_bit word flag flag
  obtain ⟨-, -, htrans, -⟩ := slots_nest_or_share_no_bit word byte flag
  obtain ⟨-, -, -, hbefore, -⟩ := slots_nest_or_share_no_bit byte flag flag
  obtain ⟨hlast, -, -, -, -, -, hstop⟩ := slots_nest_or_share_no_bit last flag flag
  have hwhole : word.contains flag = true := htrans hword hbyte
  exact ⟨hword, hbyte, hflag, hwhole, hbefore hbyte hflag,
    (hdata rfl rfl).1.1 (Or.inl hwhole), fun h => hapart ((hlast rfl rfl).1.2 h),
    hstop.trans (by decide)⟩

end SchemaBindings.Layout
