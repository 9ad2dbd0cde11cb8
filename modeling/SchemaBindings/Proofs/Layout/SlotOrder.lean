import Mathlib.Data.Prod.Lex
import Mathlib.Tactic.Ring
import SchemaBindings.Layout.Slot

namespace SchemaBindings.Layout

open SchemaBindings.Schema

/-- A bit of the data section or a pointer of a struct. -/
inductive Cell where
  | bit (index : Nat)
  | pointer (index : Nat)
  deriving DecidableEq, Repr

def dataWidths : List Nat := [1, 8, 16, 32, 64]

theorem bitWidth_mem (k : Kind) (h : sectionOf k = .data) : bitWidth k ∈ dataWidths := by
  cases k <;> simp_all [sectionOf, bitWidth, dataWidths]

theorem dataWidths_dvd : ∀ v ∈ dataWidths, ∀ w ∈ dataWidths, v ∣ w ∨ w ∣ v := by
  decide

theorem sectionOf_eq_none_iff (k : Kind) : sectionOf k = .none ↔ k = .void := by
  cases k <;> simp [sectionOf]

/-- Two aligned blocks, the width of one a multiple of the other's: the narrow one lies inside the
wide one, or they do not meet. -/
theorem aligned_blocks (a b w v : Nat) (h : w ∣ v) :
    (b * v ≤ a * w ∧ a * w + w ≤ b * v + v) ∨ a * w + w ≤ b * v ∨ b * v + v ≤ a * w := by
  obtain ⟨k, rfl⟩ := h
  have hb : b * (w * k) = (b * k) * w := by ring
  have hs : b * (w * k) + w * k = (b * k + k) * w := by ring
  have ha : a * w + w = (a + 1) * w := by ring
  rw [hs, hb, ha]
  rcases Nat.lt_or_ge a (b * k) with h | h
  · exact Or.inr (Or.inl (Nat.mul_le_mul_right w h))
  rcases Nat.lt_or_ge a (b * k + k) with h' | h'
  · exact Or.inl ⟨Nat.mul_le_mul_right w h, Nat.mul_le_mul_right w h'⟩
  · exact Or.inr (Or.inr (Nat.mul_le_mul_right w h'))

namespace Slot

/-- Whether a slot takes up a cell. -/
def Covers (s : Slot) : Cell → Prop
  | .bit i => s.place = .data ∧ s.start ≤ i ∧ i < s.stop
  | .pointer i => s.place = .pointers ∧ s.offset.toNat = i

instance (s : Slot) (c : Cell) : Decidable (s.Covers c) := by
  cases c <;> unfold Covers <;> infer_instance

theorem bits_pos (s : Slot) (h : s.place = .data) : 0 < s.bits := by
  have hm : s.bits ∈ dataWidths := bitWidth_mem s.kind h
  have hp : ∀ w ∈ dataWidths, 0 < w := by decide
  exact hp s.bits hm

theorem bits_le (s : Slot) : s.bits ≤ 64 := by
  unfold bits
  cases s.kind <;> simp [bitWidth]

theorem contains_data {s o : Slot} (hs : s.place = .data) (ho : o.place = .data) :
    s.contains o = true ↔ s.start ≤ o.start ∧ o.stop ≤ s.stop := by
  simp [contains, hs, ho]

theorem contains_pointers {s o : Slot} (hs : s.place = .pointers) (ho : o.place = .pointers) :
    s.contains o = true ↔ s.offset = o.offset := by
  simp [contains, hs, ho]

theorem place_of_contains {s o : Slot} (h : s.contains o = true) : s.place = o.place := by
  by_contra hn
  simp [contains, hn] at h

theorem covers_of_contains {s o : Slot} (h : s.contains o = true) (c : Cell) (hc : o.Covers c) :
    s.Covers c := by
  have hp := place_of_contains h
  cases c with
  | bit i =>
    obtain ⟨ho, hl, hr⟩ := hc
    have hs : s.place = .data := hp.trans ho
    have hb := (contains_data hs ho).1 h
    exact ⟨hs, hb.1.trans hl, lt_of_lt_of_le hr hb.2⟩
  | pointer i =>
    obtain ⟨ho, hi⟩ := hc
    have hs : s.place = .pointers := hp.trans ho
    have he := (contains_pointers hs ho).1 h
    exact ⟨hs, by rw [he, hi]⟩

/-- Data slots that overlap are nested. -/
theorem nested_or_apart {s o : Slot} (hs : s.place = .data) (ho : o.place = .data) :
    s.contains o = true ∨ o.contains s = true ∨ s.stop ≤ o.start ∨ o.stop ≤ s.start := by
  rw [contains_data hs ho, contains_data ho hs]
  unfold stop start
  rcases dataWidths_dvd _ (bitWidth_mem s.kind hs) _ (bitWidth_mem o.kind ho) with hd | hd
  · have h := aligned_blocks s.offset.toNat o.offset.toNat s.bits o.bits hd
    omega
  · have h := aligned_blocks o.offset.toNat s.offset.toNat o.bits s.bits hd
    omega

/-- Where a slot starts inside its section. -/
def position (s : Slot) : Nat :=
  match s.place with
  | .data => s.start
  | .pointers => s.offset.toNat
  | .none => 0

/-- The order of slots as one of numbers: section, position, width with the widest first, kind. -/
def key (s : Slot) : Nat ×ₗ Nat ×ₗ Nat ×ₗ Int :=
  toLex (s.place.rank, toLex (s.position, toLex (64 - s.bits, s.kind.code)))

theorem bits_eq_zero (s : Slot) (h : s.place ≠ .data) : s.bits = 0 := by
  revert h
  unfold place bits
  cases s.kind <;> simp [sectionOf, bitWidth]

theorem rank_injective {p q : Section} (h : p.rank = q.rank) : p = q := by
  cases p <;> cases q <;> simp_all [Section.rank]

theorem before_iff (s o : Slot) : s.before o = true ↔ s.key < o.key := by
  have hs := bits_le s
  have ho := bits_le o
  simp only [key, Prod.Lex.toLex_lt_toLex]
  by_cases hp : s.place = o.place
  · simp only [before, hp, ne_eq, not_true_eq_false, if_false, lt_irrefl, false_or, true_and]
    cases hq : o.place with
    | data =>
      have hw : (64 - s.bits < 64 - o.bits ↔ o.bits < s.bits) ∧
          (64 - s.bits = 64 - o.bits ↔ s.bits = o.bits) := by omega
      simp only [position, hp, hq, hw.1, hw.2]
      split_ifs with h1 h2 <;> simp_all
    | pointers =>
      have h0 := bits_eq_zero s (by simp [hp, hq])
      have h1 := bits_eq_zero o (by simp [hq])
      simp only [position, hp, hq, h0, h1, lt_irrefl, false_or, true_and]
      split_ifs with h2 <;> simp_all [UInt32.lt_iff_toNat_lt, ← UInt32.toNat_inj]
    | none =>
      have h0 := bits_eq_zero s (by simp [hp, hq])
      have h1 := bits_eq_zero o (by simp [hq])
      simp [position, hp, hq, h0, h1]
  · have hr : s.place.rank ≠ o.place.rank := fun h => hp (rank_injective h)
    simp [before, hp, hr]

theorem sorted_by_key (l : List Slot) :
    (l.mergeSort fun s o => !o.before s).Pairwise fun s o => s.key ≤ o.key := by
  have hle : ∀ s o : Slot, (!o.before s) = true ↔ s.key ≤ o.key := by
    intro s o
    rw [Bool.not_eq_true', ← Bool.not_eq_true, before_iff, not_lt]
  have h := @List.pairwise_mergeSort _ (fun s o : Slot => !o.before s)
    (by intro a b c hab hbc; rw [hle] at *; exact hab.trans hbc)
    (by intro a b; rw [Bool.or_eq_true, hle, hle]; exact le_total _ _) l
  exact h.imp fun hab => (hle _ _).1 hab

/-- All of `s` lies in front of all of `o`. -/
def Precedes (s o : Slot) : Prop :=
  s.place.rank < o.place.rank ∨ s.place = o.place ∧
    match s.place with
    | .data => s.stop ≤ o.start
    | .pointers => s.offset.toNat < o.offset.toNat
    | .none => False

theorem key_le {s o : Slot} (h : s.key ≤ o.key) :
    s.place.rank < o.place.rank ∨ s.place = o.place ∧
      (s.position < o.position ∨ s.position = o.position ∧ o.bits ≤ s.bits) := by
  have hs := bits_le s
  have ho := bits_le o
  simp only [key, Prod.Lex.toLex_le_toLex] at h
  rcases h with h | ⟨hr, h⟩
  · exact Or.inl h
  refine Or.inr ⟨rank_injective hr, ?_⟩
  rcases h with h | ⟨hp, h⟩
  · exact Or.inl h
  · exact Or.inr ⟨hp, by omega⟩

/-- What a slot does not contain of those that come after it lies wholly behind it. -/
theorem precedes_of_not_contains {s o : Slot} (hk : s.key ≤ o.key) (hn : s.contains o = false) :
    s.Precedes o := by
  rcases key_le hk with h | ⟨hp, h⟩
  · exact Or.inl h
  refine Or.inr ⟨hp, ?_⟩
  cases hs : s.place with
  | data =>
    have ho : o.place = .data := hp.symm.trans hs
    simp only [position, hs, ho] at h
    have hb := bits_pos o ho
    have hc : ¬(s.start ≤ o.start ∧ o.stop ≤ s.stop) := by
      rw [← contains_data hs ho, hn]
      simp
    rcases nested_or_apart hs ho with hin | hin | hin | hin
    · simp [hn] at hin
    · rw [contains_data ho hs] at hin
      simp only [stop] at hc hin ⊢
      omega
    · exact hin
    · simp only [stop] at hin
      omega
  | pointers =>
    have ho : o.place = .pointers := hp.symm.trans hs
    have hc : s.offset ≠ o.offset := by
      intro he
      rw [(contains_pointers hs ho).2 he] at hn
      cases hn
    have hne : s.offset.toNat ≠ o.offset.toNat := fun he => hc (UInt32.toNat_inj.1 he)
    simp only [position, hs, ho] at h
    show s.offset.toNat < o.offset.toNat
    omega
  | none => simp [contains, hp, hp.symm.trans hs] at hn

theorem Precedes.of_key_le {s o t : Slot} (h : s.Precedes o) (hk : o.key ≤ t.key) :
    s.Precedes t := by
  rcases key_le hk with hr | ⟨hp, hpos⟩
  · rcases h with h | ⟨h, -⟩
    · exact Or.inl (h.trans hr)
    · exact Or.inl (by rwa [h])
  · rcases h with h | ⟨h, hs⟩
    · exact Or.inl (by rwa [← hp])
    · refine Or.inr ⟨h.trans hp, ?_⟩
      cases hq : s.place with
      | data =>
        simp only [hq] at hs
        simp only [position, h.symm.trans hq, (h.trans hp).symm.trans hq] at hpos
        show s.stop ≤ t.start
        omega
      | pointers =>
        simp only [hq] at hs
        simp only [position, h.symm.trans hq, (h.trans hp).symm.trans hq] at hpos
        show s.offset.toNat < t.offset.toNat
        omega
      | none => simp [hq] at hs

theorem Precedes.not_covers {s o : Slot} (h : s.Precedes o) {c : Cell} (hs : s.Covers c) :
    ¬o.Covers c := by
  intro ho
  cases c with
  | bit i =>
    rcases h with h | ⟨-, h⟩
    · rw [hs.1, ho.1] at h
      exact absurd h (lt_irrefl _)
    · simp only [hs.1] at h
      have hl := hs.2.2
      have hr := ho.2.1
      omega
  | pointer i =>
    rcases h with h | ⟨-, h⟩
    · rw [hs.1, ho.1] at h
      exact absurd h (lt_irrefl _)
    · simp only [hs.1] at h
      have hl := hs.2
      have hr := ho.2
      omega

theorem covers_some (s : Slot) (h : s.place ≠ .none) : ∃ c, s.Covers c := by
  cases hp : s.place with
  | data => exact ⟨.bit s.start, hp, le_refl _, by have := bits_pos s hp; simp only [stop]; omega⟩
  | pointers => exact ⟨.pointer s.offset.toNat, hp, rfl⟩
  | none => exact absurd hp h

end Slot
end SchemaBindings.Layout
