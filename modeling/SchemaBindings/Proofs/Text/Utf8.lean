import Mathlib.Algebra.Ring.Nat
import SchemaBindings.Text.Utf8

namespace SchemaBindings.Text

/-- The bytes of characters. -/
def utf8 (cs : List Char) : List UInt8 :=
  cs.flatMap String.utf8EncodeChar

theorem toNat_ofNat_byte {n : Nat} (h : n < 256) : (UInt8.ofNat n).toNat = n := by
  rw [UInt8.toNat_ofNat']
  exact Nat.mod_eq_of_lt h

theorem continuation?_ofNat {n : Nat} (h : n < 64) :
    continuation? (UInt8.ofNat (n + 128)) = some n := by
  have hbyte : (UInt8.ofNat (n + 128)).toNat = n + 128 := toNat_ofNat_byte (by omega)
  have hrange : (0x80 : UInt8) ≤ UInt8.ofNat (n + 128) ∧ UInt8.ofNat (n + 128) ≤ 0xbf := by
    simp only [UInt8.le_iff_toNat_le, hbyte]
    exact ⟨Nat.le_add_left .., by change _ ≤ 191; omega⟩
  rw [continuation?, if_pos hrange, hbyte]
  simp

theorem encodedChar?_toNat {c : Char} {least : Nat} (h : least ≤ c.toNat) (width : Nat) :
    encodedChar? c.toNat width least = some (c, width) := by
  have hvalid : c.toNat.isValidChar := c.valid
  rw [encodedChar?, if_pos ⟨h, hvalid⟩, Char.ofNat_toNat]

section Lead

variable {b c d e : UInt8} {x y z : Nat} (rest : List UInt8)

theorem leadingChar?_one (hb : b.toNat < 0x80) :
    leadingChar? (b :: rest) = encodedChar? b.toNat 1 0 := by
  have hone : b < 0x80 := UInt8.lt_iff_toNat_lt.2 hb
  unfold leadingChar?
  exact if_pos hone

theorem leadingChar?_two (hb : 0xc0 ≤ b.toNat) (hb' : b.toNat < 0xe0)
    (hc : continuation? c = some x) :
    leadingChar? (b :: c :: rest) = encodedChar? ((b.toNat - 0xc0) * 0x40 + x) 2 0x80 := by
  have hone : ¬b < 0x80 := by
    simp [UInt8.lt_iff_toNat_lt]
    omega
  have htwo : 0xc0 ≤ b ∧ b < 0xe0 := ⟨UInt8.le_iff_toNat_le.2 hb, UInt8.lt_iff_toNat_lt.2 hb'⟩
  rw [leadingChar?, if_neg hone, if_pos htwo]
  simp [hc]

theorem leadingChar?_three (hb : 0xe0 ≤ b.toNat) (hb' : b.toNat < 0xf0)
    (hc : continuation? c = some x) (hd : continuation? d = some y) :
    leadingChar? (b :: c :: d :: rest) =
      encodedChar? (((b.toNat - 0xe0) * 0x40 + x) * 0x40 + y) 3 0x800 := by
  have hone : ¬b < 0x80 := by
    simp [UInt8.lt_iff_toNat_lt]
    omega
  have htwo : ¬(0xc0 ≤ b ∧ b < 0xe0) := by
    simp [UInt8.lt_iff_toNat_lt, hb]
  have hthree : 0xe0 ≤ b ∧ b < 0xf0 := ⟨UInt8.le_iff_toNat_le.2 hb, UInt8.lt_iff_toNat_lt.2 hb'⟩
  rw [leadingChar?, if_neg hone, if_neg htwo, if_pos hthree]
  simp [hc, hd]

theorem leadingChar?_four (hb : 0xf0 ≤ b.toNat) (hb' : b.toNat < 0xf8)
    (hc : continuation? c = some x) (hd : continuation? d = some y)
    (he : continuation? e = some z) :
    leadingChar? (b :: c :: d :: e :: rest) =
      encodedChar? ((((b.toNat - 0xf0) * 0x40 + x) * 0x40 + y) * 0x40 + z) 4 0x10000 := by
  have hone : ¬b < 0x80 := by
    simp [UInt8.lt_iff_toNat_lt]
    omega
  have htwo : ¬(0xc0 ≤ b ∧ b < 0xe0) := by
    simp [UInt8.lt_iff_toNat_lt]
    omega
  have hthree : ¬(0xe0 ≤ b ∧ b < 0xf0) := by
    simp [UInt8.lt_iff_toNat_lt, hb]
  have hfour : 0xf0 ≤ b ∧ b < 0xf8 := ⟨UInt8.le_iff_toNat_le.2 hb, UInt8.lt_iff_toNat_lt.2 hb'⟩
  rw [leadingChar?, if_neg hone, if_neg htwo, if_neg hthree, if_pos hfour]
  simp [hc, hd, he]

end Lead

/-- The bytes of a character are read as it, whatever follows. -/
theorem leadingChar?_encoded (c : Char) (rest : List UInt8) :
    leadingChar? (String.utf8EncodeChar c ++ rest) =
      some (c, (String.utf8EncodeChar c).length) := by
  have hvalid : c.toNat < 0x110000 := by
    have hrange := c.valid
    simp only [UInt32.isValidChar, Nat.isValidChar] at hrange
    change c.val.toNat < _
    omega
  have hval : c.val.toNat = c.toNat := rfl
  unfold String.utf8EncodeChar
  simp only [hval]
  split_ifs with hone htwo hthree
  · have hb := toNat_ofNat_byte (show c.toNat < 256 by omega)
    rw [List.singleton_append, leadingChar?_one _ (by omega), hb, encodedChar?_toNat (Nat.zero_le _)]
    rfl
  · have hb := toNat_ofNat_byte (show c.toNat / 64 % 32 + 192 < 256 by omega)
    have hcode : (c.toNat / 64 % 32 + 192 - 0xc0) * 0x40 + c.toNat % 64 = c.toNat := by omega
    rw [List.cons_append, List.singleton_append, leadingChar?_two _ (by omega) (by omega)
      (continuation?_ofNat (Nat.mod_lt _ (by decide))), hb, hcode, encodedChar?_toNat (by omega)]
    rfl
  · have hb := toNat_ofNat_byte (show c.toNat / 4096 % 16 + 224 < 256 by omega)
    have hcode : ((c.toNat / 4096 % 16 + 224 - 0xe0) * 0x40 + c.toNat / 64 % 64) * 0x40
        + c.toNat % 64 = c.toNat := by omega
    rw [List.cons_append, List.cons_append, List.singleton_append,
      leadingChar?_three _ (by omega) (by omega) (continuation?_ofNat (Nat.mod_lt _ (by decide)))
        (continuation?_ofNat (Nat.mod_lt _ (by decide))), hb, hcode, encodedChar?_toNat (by omega)]
    rfl
  · have hb := toNat_ofNat_byte (show c.toNat / 262144 % 8 + 240 < 256 by omega)
    have hcode : (((c.toNat / 262144 % 8 + 240 - 0xf0) * 0x40 + c.toNat / 4096 % 64) * 0x40
        + c.toNat / 64 % 64) * 0x40 + c.toNat % 64 = c.toNat := by omega
    rw [List.cons_append, List.cons_append, List.cons_append, List.singleton_append,
      leadingChar?_four _ (by omega) (by omega) (continuation?_ofNat (Nat.mod_lt _ (by decide)))
        (continuation?_ofNat (Nat.mod_lt _ (by decide)))
        (continuation?_ofNat (Nat.mod_lt _ (by decide))), hb, hcode, encodedChar?_toNat (by omega)]
    rfl

/-- Skipped bytes leave no trace. -/
theorem lossyFrom_length (skipped rest : List UInt8) :
    lossyFrom skipped.length (skipped ++ rest) = lossyFrom 0 rest := by
  induction skipped with
  | nil => rfl
  | cons b skipped ih => exact ih

theorem lossyFrom_encoded (c : Char) (rest : List UInt8) :
    lossyFrom 0 (String.utf8EncodeChar c ++ rest) = c :: lossyFrom 0 rest := by
  have hlead := leadingChar?_encoded c rest
  obtain ⟨b, bs, hbytes⟩ := List.exists_cons_of_ne_nil (String.utf8EncodeChar_ne_nil (c := c))
  rw [hbytes, List.cons_append] at hlead ⊢
  rw [lossyFrom, hlead]
  simp only [List.length_cons, Nat.add_sub_cancel, lossyFrom_length]

/-- Characters that are encoded in bytes are read back from them. -/
theorem lossyChars_utf8 (cs : List Char) : lossyChars (utf8 cs) = cs := by
  induction cs with
  | nil => rfl
  | cons c cs ih =>
    rw [utf8, List.flatMap_cons, lossyChars, lossyFrom_encoded]
    exact congrArg _ ih

end SchemaBindings.Text
