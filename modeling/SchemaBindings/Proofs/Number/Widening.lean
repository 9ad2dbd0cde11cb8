import Mathlib.Algebra.Order.Field.Power
import Mathlib.Data.Rat.Defs
import Mathlib.Tactic.FieldSimp
import Mathlib.Tactic.Linarith
import Mathlib.Tactic.NormNum
import Mathlib.Tactic.Positivity
import Mathlib.Tactic.Ring
import SchemaBindings.Number.Binary

namespace SchemaBindings.Number

theorem twoPow_eq (n : Nat) : twoPow n = 2 ^ n :=
  rfl

/-- A fraction as a number. -/
def ratio (x : Nat × Nat) : ℚ :=
  x.1 / x.2

/-- A fraction times a power, on whichever side of the bar the power is put. -/
theorem ratio_scaled (b n d : Nat) (e : Int) :
    ratio (if 0 ≤ e then (n * b ^ e.toNat, d) else (n, d * b ^ (-e).toNat)) = n / d * (b : ℚ) ^ e := by
  unfold ratio
  split
  next he =>
    obtain ⟨k, rfl⟩ := Int.eq_ofNat_of_zero_le he
    simp only [Int.toNat_natCast, zpow_natCast]
    push_cast
    ring
  next he =>
    obtain ⟨k, hk⟩ := Int.eq_ofNat_of_zero_le (show 0 ≤ -e by omega)
    have he' : e = -(k : Int) := by omega
    subst he'
    simp only [neg_neg, Int.toNat_natCast, zpow_neg, zpow_natCast]
    push_cast
    rw [div_mul_eq_div_div, div_eq_mul_inv (_ / _)]

theorem ratio_scaleTwo (n d : Nat) (e : Int) : ratio (scaleTwo n d e) = n / d * 2 ^ e :=
  ratio_scaled 2 n d e

theorem scaleTwo_pos {n d : Nat} (hd : 0 < d) (e : Int) : 0 < (scaleTwo n d e).2 := by
  unfold scaleTwo
  split
  · exact hd
  · exact Nat.mul_pos hd (Nat.two_pow_pos _)

theorem roundHalfEven_of_ratio {x : Nat × Nat} {q : Nat} (hx : 0 < x.2) (h : ratio x = q) :
    roundHalfEven x.1 x.2 = q := by
  have hx' : (x.2 : ℚ) ≠ 0 := by exact_mod_cast hx.ne'
  have hq : x.1 = q * x.2 := by
    unfold ratio at h
    rw [div_eq_iff hx'] at h
    exact_mod_cast h
  have hdiv : x.1 / x.2 = q := by rw [hq, Nat.mul_div_cancel _ hx]
  have hmod : x.1 % x.2 = 0 := by rw [hq, Nat.mul_mod_left]
  simp only [roundHalfEven, hdiv, hmod]
  rw [if_pos (by omega)]

theorem two_zpow_log2_le {m : Nat} (hm : 0 < m) : (2 : ℚ) ^ (m.log2 : Int) ≤ m := by
  rw [zpow_natCast]
  exact_mod_cast Nat.log2_self_le hm.ne'

theorem lt_two_zpow_log2_add_one (m : Nat) : (m : ℚ) < 2 ^ ((m.log2 : Int) + 1) := by
  rw [show (m.log2 : Int) + 1 = ((m.log2 + 1 : Nat) : Int) by push_cast; rfl, zpow_natCast]
  exact_mod_cast Nat.lt_log2_self

/-- The defining property of the binary logarithm. -/
theorem floorLogTwo_spec {n d : Nat} (hn : 0 < n) (hd : 0 < d) :
    (2 : ℚ) ^ floorLogTwo n d ≤ n / d ∧ (n : ℚ) / d < 2 ^ (floorLogTwo n d + 1) := by
  have hd' : (0 : ℚ) < d := by exact_mod_cast hd
  let k : Int := (n.log2 : Int) - (d.log2 : Int)
  let x := scaleTwo n d (-k)
  have hx : (0 : ℚ) < x.2 := by exact_mod_cast scaleTwo_pos hd (-k)
  have hratio : (n : ℚ) / d = ratio x * 2 ^ k := by
    rw [ratio_scaleTwo, mul_assoc, ← zpow_add₀ two_ne_zero, neg_add_cancel, zpow_zero, mul_one]
  have htwo : (0 : ℚ) < 2 ^ k := by positivity
  have hdef : floorLogTwo n d = if x.2 ≤ x.1 then k else k - 1 := rfl
  rw [hdef]
  split
  next hle =>
    constructor
    · have hone : 1 ≤ ratio x := by
        rw [ratio, le_div_iff₀ hx, one_mul]
        exact_mod_cast hle
      rw [hratio]
      exact le_mul_of_one_le_left htwo.le hone
    · rw [div_lt_iff₀ hd']
      calc (n : ℚ) < 2 ^ ((n.log2 : Int) + 1) := lt_two_zpow_log2_add_one n
        _ = 2 ^ (k + 1) * 2 ^ (d.log2 : Int) := by
          rw [← zpow_add₀ two_ne_zero]
          congr 1
          omega
        _ ≤ 2 ^ (k + 1) * d := by
          exact mul_le_mul_of_nonneg_left (two_zpow_log2_le hd) (by positivity)
  next hlt =>
    constructor
    · rw [le_div_iff₀ hd']
      calc (2 : ℚ) ^ (k - 1) * d ≤ 2 ^ (k - 1) * 2 ^ ((d.log2 : Int) + 1) := by
            exact mul_le_mul_of_nonneg_left (lt_two_zpow_log2_add_one d).le (by positivity)
        _ = 2 ^ (n.log2 : Int) := by
          rw [← zpow_add₀ two_ne_zero]
          congr 1
          omega
        _ ≤ n := two_zpow_log2_le hn
    · have hone : ratio x < 1 := by
        rw [ratio, div_lt_one hx]
        exact_mod_cast Nat.lt_of_not_le hlt
      rw [hratio, sub_add_cancel]
      exact mul_lt_of_lt_one_left htwo hone

namespace BinaryFormat

/-- A finite magnitude taken apart: how far its exponent is above the least one, and its significand.
Only the least exponent goes with a significand that lacks the leading bit. -/
structure Parts (f : BinaryFormat) where
  step : Nat
  significand : Nat
  lt : significand < 2 ^ (f.fractionBits + 1)
  normal : step = 0 ∨ 2 ^ f.fractionBits ≤ significand

variable {f : BinaryFormat}

namespace Parts

def magnitude (p : Parts f) : Nat :=
  p.step * 2 ^ f.fractionBits + p.significand

def value (p : Parts f) : ℚ :=
  p.significand * 2 ^ (f.minExponent + p.step)

def ofMagnitude (f : BinaryFormat) (m : Nat) : Parts f :=
  if h : m < 2 ^ f.fractionBits then
    ⟨0, m, by rw [Nat.pow_succ]; omega, .inl rfl⟩
  else
    ⟨m / 2 ^ f.fractionBits - 1, 2 ^ f.fractionBits + m % 2 ^ f.fractionBits, by
      have hlt := Nat.mod_lt m (Nat.two_pow_pos f.fractionBits)
      rw [Nat.pow_succ]
      omega, .inr (Nat.le_add_right _ _)⟩

theorem magnitude_ofMagnitude (m : Nat) : (ofMagnitude f m).magnitude = m := by
  unfold ofMagnitude
  split
  next h => simp [magnitude]
  next h =>
    have hdiv : 1 ≤ m / 2 ^ f.fractionBits :=
      (Nat.le_div_iff_mul_le (Nat.two_pow_pos _)).2 (by omega)
    obtain ⟨k, hk⟩ := Nat.exists_eq_add_of_le hdiv
    have hm := Nat.div_add_mod m (2 ^ f.fractionBits)
    rw [hk, Nat.mul_add, Nat.mul_one] at hm
    simp only [magnitude, hk, Nat.add_sub_cancel_left]
    rw [Nat.mul_comm]
    omega

theorem subnormal_or_normal (p : Parts f) :
    (p.step = 0 ∧ p.significand < 2 ^ f.fractionBits) ∨
      ∃ t < 2 ^ f.fractionBits, p.significand = 2 ^ f.fractionBits + t := by
  have hlt := p.lt
  rw [Nat.pow_succ] at hlt
  by_cases h : p.significand < 2 ^ f.fractionBits
  · exact Or.inl ⟨p.normal.resolve_right (by omega), h⟩
  · exact Or.inr ⟨p.significand - 2 ^ f.fractionBits, by omega, by omega⟩

/-- The parts are what the format reads in a magnitude. -/
theorem significand_exponent_magnitude (p : Parts f) :
    f.significand p.magnitude = p.significand ∧
      f.exponent p.magnitude = f.minExponent + p.step := by
  unfold BinaryFormat.significand BinaryFormat.exponent
  rcases p.subnormal_or_normal with ⟨hstep, hlt⟩ | ⟨t, ht, hs⟩
  · have hm : p.magnitude = p.significand := by simp [magnitude, hstep]
    rw [← twoPow_eq] at hlt
    rw [hm, if_pos hlt, if_pos hlt, hstep, Nat.cast_zero, add_zero]
    exact ⟨rfl, rfl⟩
  · have hm : p.magnitude = t + twoPow f.fractionBits * (p.step + 1) := by
      rw [magnitude, hs, twoPow_eq]
      ring
    rw [← twoPow_eq] at ht
    have hpos : 0 < twoPow f.fractionBits := Nat.two_pow_pos f.fractionBits
    have hge : ¬ p.magnitude < twoPow f.fractionBits := by
      rw [hm, Nat.mul_add]
      omega
    have hmod : p.magnitude % twoPow f.fractionBits = t := by
      rw [hm, Nat.add_mul_mod_self_left, Nat.mod_eq_of_lt ht]
    have hdiv : p.magnitude / twoPow f.fractionBits = p.step + 1 := by
      rw [hm, Nat.add_mul_div_left _ _ hpos, Nat.div_eq_of_lt ht, Nat.zero_add]
    rw [if_neg hge, if_neg hge, hmod, hdiv, hs, Nat.add_sub_cancel]
    exact ⟨rfl, rfl⟩

theorem ratio_fraction_magnitude (p : Parts f) : ratio (f.fraction p.magnitude) = p.value := by
  obtain ⟨hs, he⟩ := p.significand_exponent_magnitude
  rw [fraction, ratio_scaleTwo, hs, he, Nat.cast_one, div_one, value]

/-- The exponent that rounding chooses for a number of the format. -/
theorem max_floorLogTwo (p : Parts f) {n d : Nat} (hn : 0 < n) (hd : 0 < d)
    (h : (n : ℚ) / d = p.value) :
    max f.minExponent (floorLogTwo n d - f.fractionBits) = f.minExponent + p.step := by
  obtain ⟨hl, hr⟩ := floorLogTwo_spec hn hd
  rw [h, value] at hl hr
  have htwo (e : Int) : (0 : ℚ) < 2 ^ e := by positivity
  rcases p.subnormal_or_normal with ⟨hstep, hlt⟩ | ⟨t, ht, hs⟩
  · have hlog : (2 : ℚ) ^ floorLogTwo n d < 2 ^ ((f.fractionBits : Int) + f.minExponent) := by
      refine hl.trans_lt ?_
      rw [hstep, Nat.cast_zero, add_zero, zpow_add₀ two_ne_zero, zpow_natCast]
      exact mul_lt_mul_of_pos_right (by exact_mod_cast hlt) (htwo _)
    have hlt' := (zpow_lt_zpow_iff_right₀ one_lt_two).1 hlog
    omega
  · have hlow : (2 : ℚ) ^ ((f.fractionBits : Int) + (f.minExponent + p.step)) <
        2 ^ (floorLogTwo n d + 1) := by
      refine lt_of_le_of_lt ?_ hr
      rw [zpow_add₀ two_ne_zero, zpow_natCast]
      refine mul_le_mul_of_nonneg_right ?_ (htwo _).le
      rw [hs]
      exact_mod_cast Nat.le_add_right _ _
    have hhigh : (2 : ℚ) ^ floorLogTwo n d <
        2 ^ ((f.fractionBits + 1 : Nat) + (f.minExponent + p.step)) := by
      refine hl.trans_lt ?_
      rw [zpow_add₀ two_ne_zero (f.fractionBits + 1 : Nat), zpow_natCast]
      have hlt : (p.significand : ℚ) < 2 ^ (f.fractionBits + 1) := by exact_mod_cast p.lt
      exact mul_lt_mul_of_pos_right hlt (htwo _)
    have hlow' := (zpow_lt_zpow_iff_right₀ one_lt_two).1 hlow
    have hhigh' := (zpow_lt_zpow_iff_right₀ one_lt_two).1 hhigh
    omega

/-- A number of the format is its own nearest one. -/
theorem nearest_eq_magnitude (p : Parts f) (hp : 0 < p.significand) {x : Nat × Nat}
    (hx : 0 < x.2) (h : ratio x = p.value) (hfinite : p.magnitude ≤ f.infinity) :
    f.nearest x.1 x.2 = p.magnitude := by
  have hvalue : 0 < p.value := by
    have hp' : (0 : ℚ) < p.significand := by exact_mod_cast hp
    unfold value
    positivity
  have hn : 0 < x.1 := by
    apply Nat.pos_of_ne_zero
    intro h0
    rw [ratio, h0, Nat.cast_zero, zero_div] at h
    exact hvalue.ne h
  have he := p.max_floorLogTwo hn hx h
  have hround : roundHalfEven (scaleTwo x.1 x.2 (-(f.minExponent + p.step))).1
      (scaleTwo x.1 x.2 (-(f.minExponent + p.step))).2 = p.significand := by
    refine roundHalfEven_of_ratio (scaleTwo_pos hx _) ?_
    rw [ratio_scaleTwo, show (x.1 : ℚ) / x.2 = p.value from h, value, mul_assoc,
      ← zpow_add₀ two_ne_zero, add_neg_cancel, zpow_zero, mul_one]
  simp only [nearest, hn.ne', if_false, he, hround, add_sub_cancel_left, Int.toNat_natCast,
    twoPow_eq]
  exact Nat.min_eq_right hfinite

/-- A single-precision number in double precision, with the significand moved up to its full
length. -/
def widened (p : Parts binary32) (hp : 0 < p.significand) : Parts binary64 where
  step := p.step + 925 - (52 - p.significand.log2)
  significand := p.significand * 2 ^ (52 - p.significand.log2)
  lt := by
    have hlog : p.significand.log2 < 24 := (Nat.log2_lt hp.ne').2 p.lt
    calc p.significand * 2 ^ (52 - p.significand.log2)
        < 2 ^ (p.significand.log2 + 1) * 2 ^ (52 - p.significand.log2) :=
          Nat.mul_lt_mul_of_pos_right Nat.lt_log2_self (Nat.two_pow_pos _)
      _ = 2 ^ (52 + 1) := by
        rw [← Nat.pow_add]
        congr 1
        omega
  normal := by
    have hlog : p.significand.log2 < 24 := (Nat.log2_lt hp.ne').2 p.lt
    refine .inr ?_
    calc 2 ^ 52 = 2 ^ p.significand.log2 * 2 ^ (52 - p.significand.log2) := by
          rw [← Nat.pow_add]
          congr 1
          omega
      _ ≤ p.significand * 2 ^ (52 - p.significand.log2) :=
        Nat.mul_le_mul_right _ (Nat.log2_self_le hp.ne')

theorem value_widened (p : Parts binary32) (hp : 0 < p.significand) :
    (p.widened hp).value = p.value := by
  have hlog : p.significand.log2 < 24 := (Nat.log2_lt hp.ne').2 p.lt
  have hmin : binary64.minExponent = -1074 := rfl
  have hmin' : binary32.minExponent = -149 := rfl
  simp only [value, widened, hmin, hmin']
  push_cast
  rw [mul_assoc, ← zpow_natCast, ← zpow_add₀ two_ne_zero]
  congr 2
  omega

theorem magnitude_widened_lt (p : Parts binary32) (hp : 0 < p.significand)
    (h : p.magnitude < binary32.infinity) : (p.widened hp).magnitude < binary64.infinity := by
  have hinf : binary32.infinity = 255 * 2 ^ 23 := rfl
  have hinf' : binary64.infinity = 2047 * 2 ^ 52 := rfl
  have hlt : (p.widened hp).significand < 2 ^ 53 := (p.widened hp).lt
  have hmag : p.magnitude = p.step * 2 ^ 23 + p.significand := rfl
  have hmag' : (p.widened hp).magnitude =
      (p.widened hp).step * 2 ^ 52 + (p.widened hp).significand := rfl
  have hstep : (p.widened hp).step ≤ p.step + 925 := Nat.sub_le _ _
  omega

end Parts

/-- A finite single-precision magnitude comes back from double precision. -/
theorem nearest_fraction_nearest {m : Nat} (hm : m < binary32.infinity) :
    let w := binary64.nearest (binary32.fraction m).1 (binary32.fraction m).2
    w < binary64.infinity ∧
      binary32.nearest (binary64.fraction w).1 (binary64.fraction w).2 = m := by
  by_cases h0 : m = 0
  · subst h0
    decide
  · let p := Parts.ofMagnitude binary32 m
    have hpm : p.magnitude = m := Parts.magnitude_ofMagnitude m
    have hp : 0 < p.significand := by
      apply Nat.pos_of_ne_zero
      intro hs
      rcases p.normal with hstep | hle
      · rw [Parts.magnitude, hs, hstep] at hpm
        omega
      · rw [hs] at hle
        exact absurd hle (Nat.not_le.2 (Nat.two_pow_pos _))
    have hfraction (f : BinaryFormat) (k : Nat) : 0 < (f.fraction k).2 :=
      scaleTwo_pos Nat.one_pos _
    have hlt := p.magnitude_widened_lt hp (hpm.symm ▸ hm)
    have hw : binary64.nearest (binary32.fraction m).1 (binary32.fraction m).2 =
        (p.widened hp).magnitude := by
      refine (p.widened hp).nearest_eq_magnitude (Nat.mul_pos hp (Nat.two_pow_pos _))
        (hfraction _ _) ?_ hlt.le
      rw [p.value_widened hp, ← p.ratio_fraction_magnitude, hpm]
    intro w
    have hw' : w = (p.widened hp).magnitude := hw
    rw [hw']
    refine ⟨hlt, ?_⟩
    rw [p.nearest_eq_magnitude hp (hfraction _ _) ?_ (hpm.symm ▸ hm.le), hpm]
    rw [(p.widened hp).ratio_fraction_magnitude, p.value_widened hp]

/-- A NaN with its quiet bit set, and every other pattern as it is. -/
def quieted (f : BinaryFormat) (pattern : Nat) : Nat :=
  if f.isNaN pattern then pattern ||| f.quietBit else pattern

section Sign

variable {m : Nat} (hm : m < f.signBit) (negative : Bool)
include hm

theorem magnitude_withSign : f.magnitude (f.withSign negative m) = m := by
  cases negative with
  | false => exact Nat.mod_eq_of_lt hm
  | true => rw [magnitude, withSign, if_pos rfl, Nat.add_mod_left, Nat.mod_eq_of_lt hm]

theorem isNegative_withSign : f.isNegative (f.withSign negative m) = negative := by
  cases negative with
  | false => simpa [isNegative, withSign] using hm
  | true => simp [isNegative, withSign]

end Sign

theorem withSign_magnitude {pattern : Nat} (h : pattern < 2 * f.signBit) :
    f.withSign (f.isNegative pattern) (f.magnitude pattern) = pattern := by
  unfold withSign isNegative magnitude
  by_cases hs : f.signBit ≤ pattern
  · rw [Nat.mod_eq_sub_mod hs, Nat.mod_eq_of_lt (by omega)]
    simp [hs]
  · rw [Nat.mod_eq_of_lt (by omega)]
    simp [hs]

end BinaryFormat

namespace Double

open BinaryFormat

/-- What narrowing makes of a magnitude. -/
def narrowedMagnitude (m : Nat) : Nat :=
  if binary64.infinity < m then
    binary32.infinity + (m % twoPow 52 / twoPow 29 ||| binary32.quietBit)
  else if m = binary64.infinity then binary32.infinity
  else binary32.nearest (binary64.fraction m).1 (binary64.fraction m).2

/-- What widening makes of a magnitude. -/
def widenedMagnitude (m : Nat) : Nat :=
  if binary32.infinity < m then
    binary64.infinity + (m % twoPow 23 * twoPow 29 ||| binary64.quietBit)
  else if m = binary32.infinity then binary64.infinity
  else binary64.nearest (binary32.fraction m).1 (binary32.fraction m).2

theorem narrow_eq (x : Double) :
    x.narrow = binary32.withSign x.isNegative (narrowedMagnitude (binary64.magnitude x.pattern)) := by
  simp only [narrow, narrowedMagnitude, Double.isNaN, Double.isInfinite, BinaryFormat.isNaN,
    BinaryFormat.isInfinite, decide_eq_true_eq, beq_iff_eq]
  rfl

theorem widen_eq (pattern : Nat) :
    widen pattern = ofPattern (binary64.withSign (binary32.isNegative pattern)
      (widenedMagnitude (binary32.magnitude pattern))) := by
  simp only [widen, widenedMagnitude, BinaryFormat.isNaN, BinaryFormat.isInfinite,
    decide_eq_true_eq, beq_iff_eq]
  rfl

/-- Narrowing takes the sign and the magnitude apart. -/
theorem narrow_ofPattern_withSign {m : Nat} (hm : m < binary64.signBit) (negative : Bool) :
    (ofPattern (binary64.withSign negative m)).narrow =
      binary32.withSign negative (narrowedMagnitude m) := by
  have hsign : binary64.signBit = 2 ^ 63 := rfl
  have hlt : binary64.withSign negative m < UInt64.size := by
    have hsize : UInt64.size = 2 ^ 64 := rfl
    unfold withSign
    split <;> omega
  have hpattern : (ofPattern (binary64.withSign negative m)).pattern =
      binary64.withSign negative m := UInt64.toNat_ofNat_of_lt hlt
  rw [narrow_eq, Double.isNegative, hpattern, magnitude_withSign hm, isNegative_withSign hm]

/-- Of a payload only the quiet bit changes on the way to double precision and back. -/
theorem payload_round_trip {payload : Nat} (h : payload < 2 ^ 23) :
    payload * 2 ^ 29 ||| 2 ^ 51 < 2 ^ 52 ∧
      (payload * 2 ^ 29 ||| 2 ^ 51) / 2 ^ 29 = payload ||| 2 ^ 22 := by
  constructor
  · exact Nat.or_lt_two_pow (by omega) (by decide)
  · rw [← Nat.shiftRight_eq_div_pow, Nat.shiftRight_or_distrib, Nat.shiftRight_eq_div_pow,
      Nat.mul_div_cancel _ (Nat.two_pow_pos 29)]
    rfl

theorem narrowedMagnitude_widenedMagnitude_nan {m : Nat} (hm : binary32.infinity < m) :
    widenedMagnitude m < binary64.signBit ∧
      narrowedMagnitude (widenedMagnitude m) =
        binary32.infinity + (m % 2 ^ 23 ||| binary32.quietBit) := by
  have hinf : binary64.infinity = 2047 * 2 ^ 52 := rfl
  have hsign : binary64.signBit = 2 ^ 63 := rfl
  obtain ⟨hlt, hdiv⟩ := payload_round_trip (Nat.mod_lt m (Nat.two_pow_pos 23))
  have hwide : widenedMagnitude m = 2047 * 2 ^ 52 + (m % 2 ^ 23 * 2 ^ 29 ||| 2 ^ 51) := by
    rw [widenedMagnitude, if_pos hm]
    rfl
  have hquiet : 2 ^ 51 ≤ m % 2 ^ 23 * 2 ^ 29 ||| 2 ^ 51 := Nat.right_le_or
  rw [hwide]
  generalize m % 2 ^ 23 * 2 ^ 29 ||| 2 ^ 51 = payload at hlt hdiv hquiet
  constructor
  · omega
  · have hmod : (2047 * 2 ^ 52 + payload) % twoPow 52 = payload := by
      rw [twoPow_eq]
      omega
    rw [narrowedMagnitude, if_pos (by omega), hmod, twoPow_eq, hdiv, Nat.or_assoc]
    exact congrArg _ (congrArg _ (Nat.or_self _))

theorem narrowedMagnitude_widenedMagnitude {m : Nat} (hm : m ≤ binary32.infinity) :
    widenedMagnitude m < binary64.signBit ∧ narrowedMagnitude (widenedMagnitude m) = m := by
  have hinf : binary64.infinity < binary64.signBit := by decide
  by_cases h : m = binary32.infinity
  · subst h
    decide
  · have hlt : m < binary32.infinity := by omega
    have hwide : widenedMagnitude m =
        binary64.nearest (binary32.fraction m).1 (binary32.fraction m).2 := by
      rw [widenedMagnitude, if_neg (by omega), if_neg h]
    obtain ⟨hfinite, hback⟩ := nearest_fraction_nearest hlt
    rw [← hwide] at hfinite hback
    refine ⟨by omega, ?_⟩
    rw [narrowedMagnitude, if_neg (by omega), if_neg (by omega), hback]

/-- The quiet bit lies below the sign and the exponent. -/
theorem withSign_or_quietBit (negative : Bool) {payload : Nat} (h : payload < 2 ^ 23) :
    binary32.withSign negative (binary32.infinity + (payload ||| binary32.quietBit)) =
      binary32.withSign negative (binary32.infinity + payload) ||| binary32.quietBit := by
  have hquiet : payload ||| binary32.quietBit < 2 ^ 23 := Nat.or_lt_two_pow h (by decide)
  have hupper (p : Nat) : binary32.withSign negative (binary32.infinity + p) =
      2 ^ 23 * (if negative then 511 else 255) + p := by
    cases negative with
    | false => rfl
    | true => exact (Nat.add_assoc _ _ _).symm
  rw [hupper, hupper, Nat.two_pow_add_eq_or_of_lt h, Nat.two_pow_add_eq_or_of_lt hquiet,
    Nat.or_assoc]

/-- A single-precision pattern comes back from double precision with its quiet bit set if it is a
NaN, and unchanged otherwise. -/
theorem narrow_widen {pattern : Nat} (hp : pattern < 2 ^ 32) :
    (widen pattern).narrow = binary32.quieted pattern := by
  have hsplit : binary32.withSign (binary32.isNegative pattern) (binary32.magnitude pattern) =
      pattern := withSign_magnitude hp
  rw [widen_eq]
  unfold quieted BinaryFormat.isNaN
  by_cases hnan : binary32.infinity < binary32.magnitude pattern
  · obtain ⟨hwide, hback⟩ := narrowedMagnitude_widenedMagnitude_nan hnan
    have hinf : binary32.infinity = 2 ^ 23 * 255 := rfl
    have hsign : binary32.signBit = 2 ^ 23 * 256 := rfl
    have hm : binary32.magnitude pattern < binary32.signBit := Nat.mod_lt _ (by decide)
    have hpayload : binary32.infinity + binary32.magnitude pattern % 2 ^ 23 =
        binary32.magnitude pattern := by omega
    rw [narrow_ofPattern_withSign hwide, hback, decide_eq_true hnan, if_pos rfl,
      withSign_or_quietBit _ (Nat.mod_lt _ (Nat.two_pow_pos 23)), hpayload, hsplit]
  · obtain ⟨hwide, hback⟩ := narrowedMagnitude_widenedMagnitude (Nat.le_of_not_lt hnan)
    rw [narrow_ofPattern_withSign hwide, hback, decide_eq_false hnan]
    exact hsplit

end Double

end SchemaBindings.Number
