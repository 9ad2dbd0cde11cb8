import Mathlib.Order.Monotone.Basic
import Mathlib.Tactic.LinearCombination
import SchemaBindings.Proofs.Number.Widening

namespace SchemaBindings.Number

/-- What is rounded lies at most a half away, and exactly a half away only from an even number. -/
theorem roundHalfEven_spec {n d : Nat} (hd : 0 < d) :
    2 * n ≤ 2 * (roundHalfEven n d * d) + d ∧ 2 * (roundHalfEven n d * d) ≤ 2 * n + d ∧
      (roundHalfEven n d % 2 = 1 →
        2 * n ≠ 2 * (roundHalfEven n d * d) + d ∧ 2 * (roundHalfEven n d * d) ≠ 2 * n + d) := by
  have hn := Nat.div_add_mod n d
  have hr := Nat.mod_lt n hd
  have hsucc : (n / d + 1) * d = d * (n / d) + d := by ring
  have hself : n / d * d = d * (n / d) := Nat.mul_comm _ _
  simp only [roundHalfEven]
  generalize d * (n / d) = whole at *
  split_ifs with hlow hhigh heven
  · rw [hself]
    omega
  · rw [hsucc]
    omega
  · rw [hself]
    omega
  · rw [hsucc]
    omega

/-- The same for the ratio. -/
theorem abs_roundHalfEven_sub_le {x : Nat × Nat} (hx : 0 < x.2) :
    |(roundHalfEven x.1 x.2 : ℚ) - ratio x| ≤ 1 / 2 ∧
      (|(roundHalfEven x.1 x.2 : ℚ) - ratio x| = 1 / 2 → roundHalfEven x.1 x.2 % 2 = 0) := by
  obtain ⟨hlow, hhigh, hodd⟩ := roundHalfEven_spec (n := x.1) hx
  have hd : (0 : ℚ) < x.2 := by exact_mod_cast hx
  have hn : ratio x * x.2 = x.1 := div_mul_cancel₀ _ hd.ne'
  generalize roundHalfEven x.1 x.2 = r at *
  have hlow' : 2 * (ratio x * x.2) ≤ 2 * (r * x.2) + x.2 := by
    rw [hn]
    exact_mod_cast hlow
  have hhigh' : 2 * (r * x.2) ≤ 2 * (ratio x * x.2) + x.2 := by
    rw [hn]
    exact_mod_cast hhigh
  constructor
  · rw [abs_le]
    constructor
    · nlinarith
    · nlinarith
  · intro htie
    by_contra hr
    obtain ⟨hne, hne'⟩ := hodd (by omega)
    rcases (abs_eq (by norm_num)).1 htie with h | h
    · apply hne'
      have heq : 2 * ((r : ℚ) * x.2) = 2 * x.1 + x.2 := by
        rw [← hn]
        linear_combination 2 * (x.2 : ℚ) * h
      exact_mod_cast heq
    · apply hne
      have heq : 2 * (x.1 : ℚ) = 2 * (r * x.2) + x.2 := by
        rw [← hn]
        linear_combination -2 * (x.2 : ℚ) * h
      exact_mod_cast heq

/-- No whole number is nearer than one that is at most a half away. -/
theorem abs_sub_le_of_half {r j : Int} {a : ℚ} (h : |(r : ℚ) - a| ≤ 1 / 2) :
    |(r : ℚ) - a| ≤ |(j : ℚ) - a| ∧
      (|(r : ℚ) - a| = |(j : ℚ) - a| → j = r ∨ |(r : ℚ) - a| = 1 / 2) := by
  by_cases hj : j = r
  · subst hj
    exact ⟨le_refl _, fun _ => Or.inl rfl⟩
  · have hgap : (1 : ℚ) ≤ |(r : ℚ) - j| := by
      have hone : (1 : Int) ≤ |r - j| := Int.one_le_abs (sub_ne_zero.2 (Ne.symm hj))
      exact_mod_cast hone
    have htriangle : |(r : ℚ) - j| ≤ |(r : ℚ) - a| + |(j : ℚ) - a| := by
      rw [abs_sub_comm (j : ℚ) a]
      exact abs_sub_le _ _ _
    refine ⟨by linarith, fun heq => Or.inr ?_⟩
    linarith

namespace BinaryFormat

variable {f : BinaryFormat}

/-- The number that a finite magnitude stands for. Infinity stands for the power of two that comes
after the finite numbers. -/
def value (f : BinaryFormat) (magnitude : Nat) : ℚ :=
  f.significand magnitude * 2 ^ f.exponent magnitude

/-- No magnitude of a format is nearer to a number, and another is as near only if this one is
even. -/
def IsNearest (f : BinaryFormat) (x : ℚ) (m : Nat) : Prop :=
  m ≤ f.infinity ∧ ∀ k ≤ f.infinity, |f.value m - x| ≤ |f.value k - x| ∧
    (|f.value m - x| = |f.value k - x| → k = m ∨ m % 2 = 0)

theorem ratio_fraction (f : BinaryFormat) (m : Nat) : ratio (f.fraction m) = f.value m := by
  rw [fraction, ratio_scaleTwo, Nat.cast_one, div_one, value]

theorem Parts.value_magnitude (p : Parts f) : f.value p.magnitude = p.value := by
  rw [← ratio_fraction, p.ratio_fraction_magnitude]

/-- The significand may also have run over by one. -/
theorem value_step {s r : Nat} (hr : r ≤ 2 ^ (f.fractionBits + 1))
    (hs : s = 0 ∨ 2 ^ f.fractionBits ≤ r) :
    f.value (s * 2 ^ f.fractionBits + r) = r * 2 ^ (f.minExponent + s) := by
  rcases Nat.lt_or_eq_of_le hr with hlt | rfl
  · exact Parts.value_magnitude ⟨s, r, hlt, hs⟩
  · let p : Parts f := ⟨s + 1, 2 ^ f.fractionBits,
      Nat.pow_lt_pow_right Nat.one_lt_two (Nat.lt_succ_self _), .inr (le_refl _)⟩
    have hm : s * 2 ^ f.fractionBits + 2 ^ (f.fractionBits + 1) = p.magnitude := by
      simp only [Parts.magnitude, p]
      ring
    rw [hm, p.value_magnitude, Parts.value]
    simp only [p]
    push_cast
    rw [pow_succ, ← add_assoc, zpow_add_one₀ two_ne_zero]
    ring

theorem value_strictMono (f : BinaryFormat) : StrictMono f.value := by
  refine strictMono_nat_of_lt_succ fun k => ?_
  let p := Parts.ofMagnitude f k
  have hp : p.step * 2 ^ f.fractionBits + p.significand = k := Parts.magnitude_ofMagnitude k
  have hpos : (0 : ℚ) < 2 ^ (f.minExponent + p.step) := by positivity
  rw [← hp, add_assoc, value_step p.lt.le p.normal,
    value_step p.lt (p.normal.imp_right fun h => h.trans (Nat.le_succ _))]
  push_cast
  linarith

/-- A number of the format is a multiple of the unit of a step, or lies below all numbers that have
this unit. -/
theorem value_multiple_or_lt (f : BinaryFormat) (s k : Nat) :
    (∃ j : Nat, f.value k = j * 2 ^ (f.minExponent + s)) ∨
      0 < s ∧ f.value k < 2 ^ f.fractionBits * 2 ^ (f.minExponent + s) := by
  let p := Parts.ofMagnitude f k
  have hk : f.value k = p.significand * 2 ^ (f.minExponent + p.step) := by
    rw [← Parts.magnitude_ofMagnitude (f := f) k, p.value_magnitude, Parts.value]
  rcases Nat.lt_or_ge p.step s with hlt | hle
  · refine Or.inr ⟨Nat.zero_lt_of_lt hlt, ?_⟩
    have hsig : (p.significand : ℚ) < 2 ^ (f.fractionBits + 1) := by exact_mod_cast p.lt
    have hpow : (2 : ℚ) * 2 ^ (f.minExponent + p.step) ≤ 2 ^ (f.minExponent + s) := by
      rw [mul_comm, ← zpow_add_one₀ two_ne_zero]
      exact zpow_le_zpow_right₀ one_le_two (by omega)
    calc f.value k < 2 ^ (f.fractionBits + 1) * 2 ^ (f.minExponent + p.step) := by
          rw [hk]
          exact mul_lt_mul_of_pos_right hsig (by positivity)
      _ = 2 ^ f.fractionBits * (2 * 2 ^ (f.minExponent + p.step)) := by
          rw [pow_succ]
          ring
      _ ≤ 2 ^ f.fractionBits * 2 ^ (f.minExponent + s) :=
          mul_le_mul_of_nonneg_left hpow (by positivity)
  · refine Or.inl ⟨p.significand * 2 ^ (p.step - s), ?_⟩
    rw [hk]
    push_cast
    rw [mul_assoc, ← zpow_natCast, ← zpow_add₀ two_ne_zero]
    congr 2
    omega

/-- The exponent that rounding chooses makes the significand as long as the format allows. -/
theorem scaled_bounds {n d : Nat} (hn : 0 < n) (hd : 0 < d) {e : Int}
    (he : e = max f.minExponent (floorLogTwo n d - f.fractionBits)) :
    ratio (scaleTwo n d (-e)) < 2 ^ (f.fractionBits + 1) ∧
      (e = f.minExponent ∨ 2 ^ f.fractionBits ≤ ratio (scaleTwo n d (-e))) := by
  obtain ⟨hlow, hhigh⟩ := floorLogTwo_spec hn hd
  have htwo (e : Int) : (0 : ℚ) < 2 ^ e := by positivity
  rw [ratio_scaleTwo]
  constructor
  · calc (n : ℚ) / d * 2 ^ (-e) < 2 ^ (floorLogTwo n d + 1) * 2 ^ (-e) :=
          mul_lt_mul_of_pos_right hhigh (htwo _)
      _ = 2 ^ (floorLogTwo n d + 1 - e) := by
          rw [← zpow_add₀ two_ne_zero]
          rfl
      _ ≤ 2 ^ ((f.fractionBits + 1 : Nat) : Int) :=
          zpow_le_zpow_right₀ one_le_two (by push_cast; omega)
      _ = 2 ^ (f.fractionBits + 1) := zpow_natCast _ _
  · by_cases hmin : e = f.minExponent
    · exact Or.inl hmin
    · refine Or.inr ?_
      calc (2 : ℚ) ^ f.fractionBits = 2 ^ (floorLogTwo n d + -e) := by
            rw [← zpow_natCast]
            congr 1
            omega
        _ = 2 ^ floorLogTwo n d * 2 ^ (-e) := zpow_add₀ two_ne_zero _ _
        _ ≤ n / d * 2 ^ (-e) := mul_le_mul_of_nonneg_right hlow (htwo _).le

/-- A rounded significand is the best among all numbers, were the exponents not bounded above. -/
theorem nearest_of_scaled (hf : 0 < f.fractionBits) {s r : Nat} {a : ℚ}
    (hhalf : |(r : ℚ) - a| ≤ 1 / 2) (heven : |(r : ℚ) - a| = 1 / 2 → r % 2 = 0)
    (hlt : a < 2 ^ (f.fractionBits + 1)) (hge : s = 0 ∨ 2 ^ f.fractionBits ≤ a) (k : Nat) :
    let m := s * 2 ^ f.fractionBits + r
    let x := a * 2 ^ (f.minExponent + s)
    |f.value m - x| ≤ |f.value k - x| ∧
      (|f.value m - x| = |f.value k - x| → k = m ∨ m % 2 = 0) := by
  intro m x
  have hunit : (0 : ℚ) < 2 ^ (f.minExponent + s) := by positivity
  have hr : r ≤ 2 ^ (f.fractionBits + 1) := by
    have hbound : (r : ℚ) < (2 ^ (f.fractionBits + 1) + 1 : Nat) := by
      push_cast
      linarith [(abs_le.1 hhalf).2]
    exact Nat.lt_succ_iff.1 (by exact_mod_cast hbound)
  have hs : s = 0 ∨ 2 ^ f.fractionBits ≤ r := by
    refine hge.imp_right fun hge => ?_
    have hbound : ((2 ^ f.fractionBits : Nat) : ℚ) < (r + 1 : Nat) := by
      push_cast
      linarith [(abs_le.1 hhalf).1]
    exact Nat.lt_succ_iff.1 (by exact_mod_cast hbound)
  have hm : f.value m = r * 2 ^ (f.minExponent + s) := value_step hr hs
  have hdist (j : ℚ) : |j * 2 ^ (f.minExponent + s) - x| = |j - a| * 2 ^ (f.minExponent + s) := by
    rw [← sub_mul, abs_mul, abs_of_pos hunit]
  have hpar : r % 2 = 0 → m % 2 = 0 := by
    intro h
    obtain ⟨b, hb⟩ := Nat.exists_eq_add_of_lt hf
    have htwo : 2 ^ f.fractionBits = 2 ^ b * 2 := by
      rw [hb, Nat.zero_add, pow_succ]
    show (s * 2 ^ f.fractionBits + r) % 2 = 0
    rw [htwo, ← mul_assoc]
    omega
  rw [hm, hdist]
  rcases f.value_multiple_or_lt s k with ⟨j, hj⟩ | ⟨hpos, hbelow⟩
  · rw [hj, hdist]
    obtain ⟨hle, htie⟩ := abs_sub_le_of_half (r := r) (j := j) (by exact_mod_cast hhalf)
    refine ⟨mul_le_mul_of_nonneg_right (by exact_mod_cast hle) hunit.le, fun heq => ?_⟩
    rcases htie (by exact_mod_cast mul_right_cancel₀ hunit.ne' heq) with hjr | hhalf'
    · refine Or.inl (f.value_strictMono.injective ?_)
      rw [hm, hj]
      congr 1
      exact_mod_cast hjr
    · exact Or.inr (hpar (heven (by exact_mod_cast hhalf')))
  · -- such a number is farther away than the least one with the unit
    have hge' : 2 ^ f.fractionBits ≤ a := hge.resolve_left hpos.ne'
    have hleast := (abs_sub_le_of_half (r := r) (j := (2 ^ f.fractionBits : Nat))
      (by exact_mod_cast hhalf)).1
    have hstrict : |(r : ℚ) - a| * 2 ^ (f.minExponent + s) < |f.value k - x| := by
      calc |(r : ℚ) - a| * 2 ^ (f.minExponent + s)
          ≤ |(2 : ℚ) ^ f.fractionBits - a| * 2 ^ (f.minExponent + s) := by
            refine mul_le_mul_of_nonneg_right ?_ hunit.le
            exact_mod_cast hleast
        _ = x - 2 ^ f.fractionBits * 2 ^ (f.minExponent + s) := by
            rw [abs_of_nonpos (by linarith)]
            simp only [x]
            ring
        _ < x - f.value k := by linarith
        _ ≤ |f.value k - x| := by
            rw [abs_sub_comm]
            exact le_abs_self _
    exact ⟨hstrict.le, fun heq => absurd heq hstrict.ne⟩

/-- Past the largest finite number, infinity is the best. -/
theorem isNearest_min {x : ℚ} {m : Nat}
    (h : ∀ k, |f.value m - x| ≤ |f.value k - x| ∧
      (|f.value m - x| = |f.value k - x| → k = m ∨ m % 2 = 0)) :
    f.IsNearest x (min f.infinity m) := by
  rcases Nat.le_total m f.infinity with hle | hle
  · rw [Nat.min_eq_right hle]
    exact ⟨hle, fun k _ => h k⟩
  · rw [Nat.min_eq_left hle]
    refine ⟨le_refl _, fun k hk => ?_⟩
    have hmono := f.value_strictMono.monotone
    -- the rounded number is no nearer than infinity, so what was rounded is not below infinity
    have hpast : f.value f.infinity ≤ x ∨ m = f.infinity := by
      by_contra hcon
      push Not at hcon
      obtain ⟨hx, hne⟩ := hcon
      have hlt := f.value_strictMono (lt_of_le_of_ne hle (Ne.symm hne))
      have hnear := (h f.infinity).1
      rw [abs_of_pos (by linarith), abs_of_pos (by linarith)] at hnear
      linarith
    rcases hpast with hx | rfl
    · have hk' := hmono hk
      rw [abs_of_nonpos (by linarith), abs_of_nonpos (by linarith)]
      refine ⟨by linarith, fun heq => Or.inl (f.value_strictMono.injective ?_)⟩
      linarith
    · exact h k

/-- Rounding a fraction gives the nearest magnitude, and of two nearest ones the even one. -/
theorem nearest_isNearest (hf : 0 < f.fractionBits) (n : Nat) {d : Nat} (hd : 0 < d) :
    f.IsNearest (n / d) (f.nearest n d) := by
  by_cases hn : n = 0
  · subst hn
    have hzero : f.value 0 = 0 := by
      have h := value_step (f := f) (s := 0) (Nat.zero_le _) (Or.inl rfl)
      simpa using h
    simp only [nearest, if_true]
    refine ⟨Nat.zero_le _, fun k _ => ⟨?_, fun _ => Or.inr rfl⟩⟩
    simp [hzero]
  · let e := max f.minExponent (floorLogTwo n d - f.fractionBits)
    obtain ⟨hlt, hge⟩ := scaled_bounds (f := f) (e := e) (Nat.pos_of_ne_zero hn) hd rfl
    obtain ⟨hhalf, heven⟩ := abs_roundHalfEven_sub_le (scaleTwo_pos (n := n) hd (-e))
    have he : f.minExponent + ((e - f.minExponent).toNat : Int) = e := by
      have hle : f.minExponent ≤ e := le_max_left _ _
      omega
    have hx : ratio (scaleTwo n d (-e)) * 2 ^ e = n / d := by
      rw [ratio_scaleTwo, mul_assoc, ← zpow_add₀ two_ne_zero, neg_add_cancel, zpow_zero, mul_one]
    have hbest := nearest_of_scaled hf hhalf heven hlt
      (s := (e - f.minExponent).toNat) (hge.imp_left fun h => by omega)
    rw [he, hx] at hbest
    have hdef : f.nearest n d = min f.infinity ((e - f.minExponent).toNat * 2 ^ f.fractionBits +
        roundHalfEven (scaleTwo n d (-e)).1 (scaleTwo n d (-e)).2) := by
      simp only [nearest, hn, if_false]
      rfl
    rw [hdef]
    exact isNearest_min hbest

end BinaryFormat

namespace Double

open BinaryFormat

theorem narrowedMagnitude_nan {m : Nat} (h : binary64.infinity < m) :
    binary32.infinity < narrowedMagnitude m ∧ narrowedMagnitude m < binary32.signBit := by
  have hsign : binary32.signBit = binary32.infinity + 2 ^ 23 := rfl
  have hlt : m % 2 ^ 52 / 2 ^ 29 < 2 ^ 23 := by omega
  have hquiet : m % 2 ^ 52 / 2 ^ 29 ||| binary32.quietBit < 2 ^ 23 :=
    Nat.or_lt_two_pow hlt (by decide)
  have hpos : binary32.quietBit ≤ m % 2 ^ 52 / 2 ^ 29 ||| binary32.quietBit := Nat.right_le_or
  have hbit : 0 < binary32.quietBit := by decide
  have hdef : narrowedMagnitude m =
      binary32.infinity + (m % 2 ^ 52 / 2 ^ 29 ||| binary32.quietBit) := if_pos h
  omega

theorem narrowedMagnitude_finite {m : Nat} (h : m < binary64.infinity) :
    binary32.IsNearest (binary64.value m) (narrowedMagnitude m) := by
  have hd : 0 < (binary64.fraction m).2 := scaleTwo_pos Nat.one_pos _
  rw [narrowedMagnitude, if_neg (by omega), if_neg (by omega), ← ratio_fraction]
  exact nearest_isNearest (by decide) _ hd

theorem narrowedMagnitude_infinity :
    narrowedMagnitude binary64.infinity = binary32.infinity := by
  rw [narrowedMagnitude, if_neg (lt_irrefl _), if_pos rfl]

theorem narrowedMagnitude_lt (m : Nat) : narrowedMagnitude m < binary32.signBit := by
  have hinf : binary32.infinity < binary32.signBit := by decide
  rcases lt_trichotomy m binary64.infinity with h | rfl | h
  · exact lt_of_le_of_lt (narrowedMagnitude_finite h).1 hinf
  · rwa [narrowedMagnitude_infinity]
  · exact (narrowedMagnitude_nan h).2

theorem narrow_lt (x : Double) : x.narrow < 2 ^ 32 := by
  have hlt := narrowedMagnitude_lt (binary64.magnitude x.pattern)
  have hsign : binary32.signBit = 2 ^ 31 := rfl
  rw [narrow_eq, withSign]
  split <;> omega

/-- A pattern of single precision for a number: the nearest one with the sign of the number, if it
is finite, and for infinities and NaN their own. -/
structure RoundsTo (x : Double) (pattern : Nat) : Prop where
  finite : x.isFinite = true → ∃ m,
    binary32.IsNearest (binary64.value (binary64.magnitude x.pattern)) m ∧
    pattern = binary32.withSign x.isNegative m
  infinite : x.isInfinite = true → pattern = binary32.withSign x.isNegative binary32.infinity
  nan : x.isNaN = true → binary32.isNaN pattern = true

theorem roundsTo_narrow (x : Double) : x.RoundsTo x.narrow := by
  rw [narrow_eq]
  refine ⟨fun h => ⟨_, narrowedMagnitude_finite (of_decide_eq_true h), rfl⟩, fun h => ?_,
    fun h => ?_⟩
  · rw [eq_of_beq h, narrowedMagnitude_infinity]
  · obtain ⟨hnan, hlt⟩ := narrowedMagnitude_nan (of_decide_eq_true h)
    rw [BinaryFormat.isNaN, magnitude_withSign hlt]
    exact decide_eq_true hnan

end Double
end SchemaBindings.Number
