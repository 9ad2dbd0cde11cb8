import SchemaBindings.Number.Shortest
import SchemaBindings.Proofs.Number.Rounding

namespace SchemaBindings.Number

theorem ratio_scaleTen (n d : Nat) (e : Int) : ratio (scaleTen n d e) = n / d * 10 ^ e :=
  ratio_scaled 10 n d e

theorem scaleTen_pos {n d : Nat} (hd : 0 < d) (e : Int) : 0 < (scaleTen n d e).2 := by
  unfold scaleTen
  split
  · exact hd
  · exact Nat.mul_pos hd (Nat.pow_pos (by decide))

namespace Neighbourhood

variable {h : Neighbourhood}

/-- The number that the interval is around. -/
def middle (h : Neighbourhood) : ℚ :=
  h.value * 2 ^ h.unit

/-- The number lies in the interval. -/
def Contains (h : Neighbourhood) (x : ℚ) : Prop :=
  if h.closed then h.low * 2 ^ h.unit ≤ x ∧ x ≤ h.high * 2 ^ h.unit
  else h.low * 2 ^ h.unit < x ∧ x < h.high * 2 ^ h.unit

theorem Contains.between {x y z : ℚ} (hx : h.Contains x) (hy : h.Contains y) (hxz : x ≤ z)
    (hzy : z ≤ y) : h.Contains z := by
  unfold Contains at *
  split_ifs at *
  · exact ⟨hx.1.trans hxz, hzy.trans hy.2⟩
  · exact ⟨hx.1.trans_le hxz, hzy.trans_lt hy.2⟩

theorem contains_of_lt {x : ℚ} (hl : h.low * 2 ^ h.unit < x) (hr : x < h.high * 2 ^ h.unit) :
    h.Contains x := by
  unfold Contains
  split_ifs
  · exact ⟨hl.le, hr.le⟩
  · exact ⟨hl, hr⟩

theorem gridPoint_pos (h : Neighbourhood) (i : Int) (k : Nat) : 0 < (h.gridPoint i k).2 :=
  scaleTwo_pos (scaleTen_pos Nat.one_pos i) _

theorem ratio_gridPoint (h : Neighbourhood) (i : Int) (k : Nat) :
    ratio (h.gridPoint i k) = k * 10 ^ i * 2 ^ (-h.unit) := by
  have hten := ratio_scaleTen k 1 i
  rw [Nat.cast_one, div_one] at hten
  rw [← hten]
  exact ratio_scaleTwo _ _ _

/-- A decimal is compared with a multiple of the unit as their fractions are. -/
theorem gridPoint_compare (h : Neighbourhood) (i : Int) (k m : Nat) :
    (m * (h.gridPoint i k).2 ≤ (h.gridPoint i k).1 ↔ m * 2 ^ h.unit ≤ (k * 10 ^ i : ℚ)) ∧
      ((h.gridPoint i k).1 ≤ m * (h.gridPoint i k).2 ↔ (k * 10 ^ i : ℚ) ≤ m * 2 ^ h.unit) := by
  have hpos : (0 : ℚ) < (h.gridPoint i k).2 := by exact_mod_cast h.gridPoint_pos i k
  have hunit : (0 : ℚ) < 2 ^ h.unit := by positivity
  have hpoint : (k * 10 ^ i : ℚ) = (h.gridPoint i k).1 / (h.gridPoint i k).2 * 2 ^ h.unit := by
    have hratio := h.ratio_gridPoint i k
    rw [ratio] at hratio
    rw [hratio, mul_assoc (_ * _), ← zpow_add₀ two_ne_zero, neg_add_cancel, zpow_zero, mul_one]
  rw [hpoint, mul_le_mul_iff_left₀ hunit, mul_le_mul_iff_left₀ hunit, le_div_iff₀ hpos,
    div_le_iff₀ hpos]
  constructor <;> norm_cast

theorem holds_iff (h : Neighbourhood) (i : Int) (k : Nat) :
    h.holds i k = true ↔ h.Contains (k * 10 ^ i) := by
  have hlow := (h.gridPoint_compare i k h.low)
  have hhigh := (h.gridPoint_compare i k h.high)
  have hdef : h.holds i k =
      if h.closed then decide (h.low * (h.gridPoint i k).2 ≤ (h.gridPoint i k).1) &&
        decide ((h.gridPoint i k).1 ≤ h.high * (h.gridPoint i k).2)
      else decide (h.low * (h.gridPoint i k).2 < (h.gridPoint i k).1) &&
        decide ((h.gridPoint i k).1 < h.high * (h.gridPoint i k).2) := rfl
  rw [hdef, Contains]
  split_ifs
  · rw [Bool.and_eq_true, decide_eq_true_eq, decide_eq_true_eq, hlow.1, hhigh.2]
  · rw [Bool.and_eq_true, decide_eq_true_eq, decide_eq_true_eq, ← not_le, ← not_le, hlow.2, hhigh.1,
      not_le, not_le]

/-- The value lies between two neighbours on the grid. -/
theorem below_spec (h : Neighbourhood) (i : Int) :
    (h.below i * 10 ^ i : ℚ) ≤ h.middle ∧ h.middle < (h.below i + 1 : Nat) * 10 ^ i := by
  have hten : (0 : ℚ) < 10 ^ i := by positivity
  have hd : (0 : ℚ) < (h.gridPoint i 1).2 := by exact_mod_cast h.gridPoint_pos i 1
  have hratio : ((h.gridPoint i 1).1 : ℚ) / (h.gridPoint i 1).2 = 10 ^ i * 2 ^ (-h.unit) := by
    have hone := h.ratio_gridPoint i 1
    rwa [ratio, Nat.cast_one, one_mul] at hone
  have hn : (0 : ℚ) < (h.gridPoint i 1).1 := by
    have hpos : (0 : ℚ) < (h.gridPoint i 1).1 / (h.gridPoint i 1).2 := by
      rw [hratio]
      positivity
    exact (div_pos_iff_of_pos_right hd).1 hpos
  have hmiddle : h.middle = h.value * (h.gridPoint i 1).2 / (h.gridPoint i 1).1 * 10 ^ i := by
    have hinv : ((h.gridPoint i 1).2 : ℚ) / (h.gridPoint i 1).1 = (10 ^ i * 2 ^ (-h.unit))⁻¹ := by
      rw [← hratio, inv_div]
    rw [mul_div_assoc, hinv, mul_inv, ← zpow_neg, ← zpow_neg, neg_neg, middle, mul_assoc,
      mul_comm (10 ^ _ : ℚ), mul_assoc, ← zpow_add₀ (by norm_num), neg_add_cancel, zpow_zero, mul_one]
  have hn' : 0 < (h.gridPoint i 1).1 := by exact_mod_cast hn
  have hbelow : h.below i = h.value * (h.gridPoint i 1).2 / (h.gridPoint i 1).1 := rfl
  rw [hmiddle, mul_le_mul_iff_left₀ hten, mul_lt_mul_iff_left₀ hten, le_div_iff₀ hn, div_lt_iff₀ hn,
    hbelow]
  constructor
  · exact_mod_cast Nat.div_mul_le_self _ _
  · exact_mod_cast Nat.lt_mul_of_div_lt (Nat.lt_succ_self _) hn'

theorem onGrid?_eq_some {i : Int} {k : Nat} (hk : h.onGrid? i = some k) :
    h.Contains (k * 10 ^ i) := by
  rw [← holds_iff]
  unfold onGrid? at hk
  dsimp only at hk
  split at hk
  · cases hk
  next hl _ =>
    cases hk
    exact hl
  next _ hr =>
    cases hk
    exact hr
  next hl hr =>
    split_ifs at hk <;> cases hk <;> assumption

/-- If some number of a grid lies in the interval, then one is found: the neighbours of the value
are the first to lie in it. -/
theorem exists_onGrid? {i : Int} {k : Nat} (hm : h.Contains h.middle)
    (hk : h.Contains (k * 10 ^ i)) : ∃ k, h.onGrid? i = some k := by
  have hten : (0 : ℚ) < 10 ^ i := by positivity
  obtain ⟨hl, hr⟩ := h.below_spec i
  have hneighbour : h.holds i (h.below i) = true ∨ h.holds i (h.below i + 1) = true := by
    rw [holds_iff, holds_iff]
    rcases Nat.lt_or_ge (h.below i) k with hlt | hle
    · refine Or.inr (hm.between hk hr.le ?_)
      exact mul_le_mul_of_nonneg_right (by exact_mod_cast hlt) hten.le
    · refine Or.inl (hk.between hm ?_ hl)
      exact mul_le_mul_of_nonneg_right (by exact_mod_cast hle) hten.le
  unfold onGrid?
  dsimp only
  split
  next hl hr =>
    rw [hl, hr] at hneighbour
    simp at hneighbour
  · exact ⟨_, rfl⟩
  · exact ⟨_, rfl⟩
  · split_ifs <;> exact ⟨_, rfl⟩

/-- What a scan finds lies in the interval, and none of the coarser grids has a number there. -/
theorem scan_eq_some {steps : Nat} {i : Int} {d : Decimal} (hm : h.Contains h.middle)
    (hd : h.scan steps i = some d) :
    h.Contains (d.digits * 10 ^ d.exponent) ∧
      ∀ j, d.exponent < j → j ≤ i → ∀ k : Nat, ¬h.Contains (k * 10 ^ j) := by
  induction steps generalizing i with
  | zero => cases hd
  | succ steps ih =>
    rw [scan] at hd
    split at hd
    next k hk =>
      cases hd
      exact ⟨onGrid?_eq_some hk, fun j hlt hle => absurd hle (not_le.2 hlt)⟩
    next hnone =>
      obtain ⟨hd, hcoarse⟩ := ih hd
      refine ⟨hd, fun j hlt hle k hk => ?_⟩
      rcases hle.lt_or_eq with hlt' | rfl
      · exact hcoarse j hlt (by omega) k hk
      · obtain ⟨k', hk'⟩ := exists_onGrid? hm hk
        rw [hnone] at hk'
        cases hk'

/-- A scan that gets to a grid with a number in the interval finds one. -/
theorem exists_scan {steps : Nat} {i j : Int} {k : Nat} (hm : h.Contains h.middle)
    (hk : h.Contains (k * 10 ^ j)) (hj : j ≤ i) (hs : i < j + steps) :
    ∃ d, h.scan steps i = some d := by
  induction steps generalizing i with
  | zero => omega
  | succ steps ih =>
    rw [scan]
    split
    · exact ⟨_, rfl⟩
    next hnone =>
      rcases hj.lt_or_eq with hlt | rfl
      · exact ih (by omega) (by omega)
      · obtain ⟨k', hk'⟩ := exists_onGrid? hm hk
        rw [hnone] at hk'
        cases hk'

/-- The number of digits tells a number up to a factor of ten. -/
theorem toDigits_length_bounds {n : Nat} (hn : 0 < n) :
    10 ^ ((Nat.toDigits 10 n).length - 1) ≤ n ∧ n < 10 ^ (Nat.toDigits 10 n).length := by
  have hpos : 0 < (Nat.toDigits 10 n).length := Nat.length_toDigits_pos
  refine ⟨?_, (Nat.length_toDigits_le_iff (by decide) hpos).1 le_rfl⟩
  by_contra hlt
  push Not at hlt
  rcases Nat.eq_zero_or_pos ((Nat.toDigits 10 n).length - 1) with hzero | hpos'
  · rw [hzero] at hlt
    omega
  · have hle := (Nat.length_toDigits_le_iff (by decide) hpos').2 hlt
    omega

/-- The number of digits before the point tells a fraction up to a factor of ten. -/
theorem quotient_length_bounds {n d : Nat} (hd : 0 < d) (hle : d ≤ n) :
    (10 : ℚ) ^ (((Nat.toDigits 10 (n / d)).length : Int) - 1) ≤ n / d ∧
      (n : ℚ) / d < 10 ^ ((Nat.toDigits 10 (n / d)).length : Int) := by
  have hd' : (0 : ℚ) < d := by exact_mod_cast hd
  have hlength : 0 < (Nat.toDigits 10 (n / d)).length := Nat.length_toDigits_pos
  obtain ⟨hl, hr⟩ := toDigits_length_bounds (Nat.div_pos hle hd)
  constructor
  · have hcast : ((Nat.toDigits 10 (n / d)).length : Int) - 1 =
        (((Nat.toDigits 10 (n / d)).length - 1 : Nat) : Int) := by omega
    rw [hcast, zpow_natCast, le_div_iff₀ hd']
    exact_mod_cast (Nat.le_div_iff_mul_le hd).1 hl
  · rw [zpow_natCast, div_lt_iff₀ hd']
    exact_mod_cast Nat.lt_mul_of_div_lt hr hd

/-- The scan begins with the first or second power of ten above the value. -/
theorem topExponent_spec (hv : 0 < h.value) :
    10 ^ (h.topExponent - 2) ≤ h.middle ∧ h.middle < 10 ^ h.topExponent := by
  have hmiddle : ratio (scaleTwo h.value 1 h.unit) = h.middle := by
    rw [ratio_scaleTwo, Nat.cast_one, div_one, middle]
  have hpos : 0 < h.middle := by
    have hv' : (0 : ℚ) < h.value := by exact_mod_cast hv
    unfold middle
    positivity
  have hd : 0 < (scaleTwo h.value 1 h.unit).2 := scaleTwo_pos Nat.one_pos _
  have hdef : h.topExponent =
      if (scaleTwo h.value 1 h.unit).2 ≤ (scaleTwo h.value 1 h.unit).1 then
        ((Nat.toDigits 10 ((scaleTwo h.value 1 h.unit).1 / (scaleTwo h.value 1 h.unit).2)).length : Int)
      else 2 - ((Nat.toDigits 10
        ((scaleTwo h.value 1 h.unit).2 / (scaleTwo h.value 1 h.unit).1)).length : Int) := rfl
  rw [hdef]
  rw [← hmiddle] at hpos ⊢
  generalize scaleTwo h.value 1 h.unit = x at hd hpos ⊢
  unfold ratio at hpos ⊢
  have hn : 0 < x.1 := by
    have hd' : (0 : ℚ) < x.2 := by exact_mod_cast hd
    exact_mod_cast (div_pos_iff_of_pos_right hd').1 hpos
  split_ifs with hle
  · obtain ⟨hl, hr⟩ := quotient_length_bounds hd hle
    refine ⟨le_trans ?_ hl, hr⟩
    exact zpow_le_zpow_right₀ (by norm_num) (by omega)
  · obtain ⟨hl, hr⟩ := quotient_length_bounds hn (Nat.le_of_not_le hle)
    have hinv : (x.1 : ℚ) / x.2 = ((x.2 : ℚ) / x.1)⁻¹ := (inv_div _ _).symm
    generalize ((Nat.toDigits 10 (x.2 / x.1)).length : Int) = length at hl hr ⊢
    have hpos' : (0 : ℚ) < x.2 / x.1 := lt_of_lt_of_le (by positivity) hl
    rw [hinv]
    constructor
    · rw [show 2 - length - 2 = -length by omega, zpow_neg]
      exact inv_anti₀ hpos' hr.le
    · calc ((x.2 : ℚ) / x.1)⁻¹ ≤ (10 ^ (length - 1))⁻¹ := inv_anti₀ (by positivity) hl
        _ = 10 ^ (1 - length) := by rw [← zpow_neg, neg_sub]
        _ < 10 ^ (2 - length) := zpow_lt_zpow_right₀ (by norm_num) (by omega)

end Neighbourhood

namespace BinaryFormat

open Neighbourhood

variable {f : BinaryFormat}

theorem Parts.significand_pos {p : Parts f} (hm : 0 < p.magnitude) : 0 < p.significand := by
  apply Nat.pos_of_ne_zero
  intro hs
  rcases p.normal with hstep | hle
  · rw [Parts.magnitude, hs, hstep] at hm
    omega
  · rw [hs] at hle
    exact absurd hle (Nat.not_le.2 (Nat.two_pow_pos _))

theorem exists_parts (f : BinaryFormat) (m : Nat) : ∃ p : Parts f, p.magnitude = m :=
  ⟨_, Parts.magnitude_ofMagnitude m⟩

/-- A quarter of the unit of a number is the unit of its neighbourhood. -/
theorem four_mul_unit (f : BinaryFormat) (m : Nat) :
    (4 : ℚ) * 2 ^ (f.neighbourhood m).unit = 2 ^ f.exponent m := by
  have hfour : (4 : ℚ) = 2 ^ (2 : Int) := by norm_num
  have hunit : (f.neighbourhood m).unit = f.exponent m - 2 := rfl
  rw [hfour, hunit, ← zpow_add₀ two_ne_zero, add_sub_cancel]

theorem neighbourhood_middle (f : BinaryFormat) (m : Nat) :
    (f.neighbourhood m).middle = f.value m := by
  have hvalue : (f.neighbourhood m).value = 4 * f.significand m := rfl
  rw [middle, hvalue, value, ← four_mul_unit f m]
  push_cast
  ring

/-- The upper end is half way to the next number. -/
theorem neighbourhood_high (f : BinaryFormat) (m : Nat) :
    2 * ((f.neighbourhood m).high * 2 ^ (f.neighbourhood m).unit : ℚ) =
      f.value m + f.value (m + 1) := by
  have hunit := four_mul_unit f m
  have hhigh : (f.neighbourhood m).high = 4 * f.significand m + 2 := rfl
  obtain ⟨p, rfl⟩ := f.exists_parts m
  obtain ⟨hs, he⟩ := p.significand_exponent_magnitude
  have hnext : f.value (p.magnitude + 1) = (p.significand + 1 : Nat) * 2 ^ f.exponent p.magnitude := by
    rw [he]
    exact value_step p.lt (p.normal.imp_right fun h => h.trans (Nat.le_succ _))
  rw [hnext, value, hhigh, hs, ← hunit]
  push_cast
  ring

/-- Below a number that is no power of two, the number before has the same unit. -/
theorem value_before {p : Parts f} (hpos : 0 < p.significand)
    (hn : p.step = 0 ∨ 2 ^ f.fractionBits ≤ p.significand - 1) :
    f.value (p.magnitude - 1) = (p.significand - 1 : Nat) * 2 ^ (f.minExponent + p.step) := by
  have hbefore : p.magnitude - 1 = p.step * 2 ^ f.fractionBits + (p.significand - 1) := by
    rw [Parts.magnitude]
    omega
  have hlt := p.lt
  rw [hbefore]
  exact value_step (by omega) hn

/-- Below a power of two, the number before has half the unit. -/
theorem value_before_power {p : Parts f} {t : Nat} (hs : p.significand = 2 ^ f.fractionBits)
    (ht : p.step = t + 1) :
    f.value (p.magnitude - 1) = (2 ^ (f.fractionBits + 1) - 1 : Nat) * 2 ^ (f.minExponent + t) := by
  have htwo : 2 ^ (f.fractionBits + 1) = 2 * 2 ^ f.fractionBits := by ring
  have hbits := Nat.two_pow_pos f.fractionBits
  have hbefore : p.magnitude - 1 = t * 2 ^ f.fractionBits + (2 ^ (f.fractionBits + 1) - 1) := by
    rw [Parts.magnitude, hs, ht, Nat.succ_mul]
    omega
  rw [hbefore]
  exact value_step (by omega) (Or.inr (by omega))

/-- The numbers lie denser below exactly the powers of two that are not among the smallest. -/
theorem narrow_below_iff {p : Parts f} :
    (p.significand == twoPow f.fractionBits && twoPow (f.fractionBits + 1) ≤ p.magnitude) = true ↔
      p.significand = 2 ^ f.fractionBits ∧ p.step ≠ 0 := by
  have htwo : 2 ^ (f.fractionBits + 1) = 2 * 2 ^ f.fractionBits := by ring
  have hbits := Nat.two_pow_pos f.fractionBits
  rw [Bool.and_eq_true, beq_iff_eq, decide_eq_true_eq, twoPow_eq, twoPow_eq]
  refine and_congr_right fun hs => ?_
  rw [Parts.magnitude, hs, htwo]
  constructor
  · intro hle h0
    rw [h0] at hle
    omega
  · intro hstep
    have hmul : 2 ^ f.fractionBits ≤ p.step * 2 ^ f.fractionBits :=
      Nat.le_mul_of_pos_left _ (Nat.pos_of_ne_zero hstep)
    omega

/-- The lower end is half way to the number before, which is nearer below a power of two. -/
theorem neighbourhood_low {m : Nat} (hm : 0 < m) :
    2 * ((f.neighbourhood m).low * 2 ^ (f.neighbourhood m).unit : ℚ) =
      f.value (m - 1) + f.value m := by
  have hunit := four_mul_unit f m
  have hlow : (f.neighbourhood m).low =
      if f.significand m == twoPow f.fractionBits && twoPow (f.fractionBits + 1) ≤ m then
        4 * f.significand m - 1 else 4 * f.significand m - 2 := rfl
  obtain ⟨p, rfl⟩ := f.exists_parts m
  obtain ⟨hs, he⟩ := p.significand_exponent_magnitude
  have hpos := Parts.significand_pos hm
  rw [hlow, hs]
  split_ifs with hnarrow
  · obtain ⟨hsig, hstep⟩ := narrow_below_iff.1 hnarrow
    obtain ⟨t, ht⟩ := Nat.exists_eq_succ_of_ne_zero hstep
    have hexponent : f.exponent p.magnitude = f.minExponent + t + 1 := by
      rw [he, ht]
      push_cast
      ring
    rw [hexponent, zpow_add_one₀ two_ne_zero] at hunit
    rw [value_before_power hsig ht, value, hs, hexponent, zpow_add_one₀ two_ne_zero, hsig,
      Nat.cast_sub (by have := Nat.two_pow_pos f.fractionBits; omega),
      Nat.cast_sub Nat.one_le_two_pow, Nat.pow_succ]
    push_cast
    linear_combination (2 * 2 ^ f.fractionBits - 1 / 2 : ℚ) * hunit
  · have hnormal : p.step = 0 ∨ 2 ^ f.fractionBits ≤ p.significand - 1 := by
      rw [narrow_below_iff, not_and_not_right] at hnarrow
      rcases p.normal with hstep | hle
      · exact Or.inl hstep
      · rcases hle.eq_or_lt with hsig | hlt
        · exact Or.inl (hnarrow hsig.symm)
        · exact Or.inr (by omega)
    rw [value_before hpos hnormal, ← he, value, hs, ← hunit, Nat.cast_sub (by omega),
      Nat.cast_sub (by omega)]
    push_cast
    ring

end BinaryFormat

section Distance

variable {a b x y : ℚ}

/-- From above the middle between two numbers, the lower one and all below it are not nearer. -/
theorem abs_sub_le_of_below (hab : a < b) (hx : a + b ≤ 2 * x) (hy : y ≤ a) :
    |b - x| ≤ |y - x| ∧ (|b - x| = |y - x| → a + b = 2 * x) := by
  have hdist : x - a ≤ |y - x| := by
    rw [abs_sub_comm]
    exact le_trans (by linarith) (le_abs_self _)
  constructor
  · exact (abs_le.2 ⟨by linarith, by linarith⟩).trans hdist
  · intro htie
    rw [← htie] at hdist
    rcases le_abs.1 hdist with h | h
    · linarith
    · linarith

theorem abs_sub_le_of_above (hab : a < b) (hx : 2 * x ≤ a + b) (hy : b ≤ y) :
    |a - x| ≤ |y - x| ∧ (|a - x| = |y - x| → a + b = 2 * x) := by
  have hneg := abs_sub_le_of_below (a := -b) (b := -a) (x := -x) (y := -y) (by linarith)
    (by linarith) (by linarith)
  rw [neg_sub_neg, neg_sub_neg, abs_sub_comm x a, abs_sub_comm x y] at hneg
  refine ⟨hneg.1, fun htie => ?_⟩
  linarith [hneg.2 htie]

/-- Of two numbers the lower one is strictly nearer from below the middle. -/
theorem abs_sub_lt_of_lt (hab : a < b) (hx : 2 * x < a + b) : |a - x| < |b - x| := by
  obtain ⟨hle, htie⟩ := abs_sub_le_of_above hab hx.le le_rfl
  refine lt_of_le_of_ne hle fun h => ?_
  linarith [htie h]

theorem abs_sub_lt_of_gt (hab : a < b) (hx : a + b < 2 * x) : |b - x| < |a - x| := by
  obtain ⟨hle, htie⟩ := abs_sub_le_of_below hab hx.le le_rfl
  refine lt_of_le_of_ne hle fun h => ?_
  linarith [htie h]

theorem abs_sub_eq_of_middle (hx : a + b = 2 * x) : |b - x| = |a - x| := by
  rw [show a - x = -(b - x) by linarith, abs_neg]

end Distance

namespace BinaryFormat

variable {f : BinaryFormat} {m : Nat} {x : ℚ}

/-- Only one magnitude is nearest: between two that are equally near and even there is another. -/
theorem IsNearest.unique {m' : Nat} (h : f.IsNearest x m) (h' : f.IsNearest x m') : m = m' := by
  wlog hlt : m < m' generalizing m m'
  · rcases Nat.lt_or_eq_of_le (Nat.le_of_not_lt hlt) with hlt' | heq
    · exact (this h' h hlt').symm
    · exact heq.symm
  have hdist : |f.value m - x| = |f.value m' - x| :=
    le_antisymm (h.2 m' h'.1).1 (h'.2 m h.1).1
  have heven : m % 2 = 0 := ((h.2 m' h'.1).2 hdist).resolve_left hlt.ne'
  have heven' : m' % 2 = 0 := ((h'.2 m h.1).2 hdist.symm).resolve_left hlt.ne
  have hnext := f.value_strictMono (Nat.lt_succ_self m)
  have hnext' := f.value_strictMono (show m + 1 < m' by omega)
  have hnear := (h.2 (m + 1) (by have := h'.1; omega)).1
  exfalso
  rcases lt_trichotomy (f.value m + f.value m') (2 * x) with hx | hx | hx
  · exact (abs_sub_lt_of_gt (hnext.trans hnext') hx).ne' hdist
  · exact (abs_sub_lt_of_gt hnext (by simp only [Nat.succ_eq_add_one] at *; linarith)).not_ge hnear
  · exact (abs_sub_lt_of_lt (hnext.trans hnext') hx).ne hdist

theorem neighbourhood_closed_iff (hf : 0 < f.fractionBits) (m : Nat) :
    (f.neighbourhood m).closed = true ↔ m % 2 = 0 := by
  have hclosed : (f.neighbourhood m).closed = (f.significand m % 2 == 0) := rfl
  obtain ⟨p, rfl⟩ := f.exists_parts m
  rw [hclosed, beq_iff_eq, p.significand_exponent_magnitude.1, Parts.magnitude]
  obtain ⟨b, hb⟩ := Nat.exists_eq_succ_of_ne_zero hf.ne'
  rw [hb, Nat.pow_succ, ← Nat.mul_assoc]
  omega

/-- The neighbourhood of a magnitude holds exactly the numbers that it is the nearest to. -/
theorem neighbourhood_contains_iff (hf : 0 < f.fractionBits) (hm : 0 < m) (hi : m < f.infinity) :
    (f.neighbourhood m).Contains x ↔ f.IsNearest x m := by
  have hlow := f.neighbourhood_low hm
  have hhigh := f.neighbourhood_high m
  have hbefore : f.value (m - 1) < f.value m := f.value_strictMono (by omega)
  have hafter : f.value m < f.value (m + 1) := f.value_strictMono (Nat.lt_succ_self m)
  have hclosed := f.neighbourhood_closed_iff hf m
  rw [Neighbourhood.Contains]
  constructor
  · intro hx
    have hin : f.value (m - 1) + f.value m ≤ 2 * x ∧ 2 * x ≤ f.value m + f.value (m + 1) := by
      split_ifs at hx <;> constructor <;> linarith [hx.1, hx.2]
    have heven (hend : f.value (m - 1) + f.value m = 2 * x ∨ f.value m + f.value (m + 1) = 2 * x) :
        m % 2 = 0 := by
      rw [← hclosed]
      by_contra hopen
      rw [if_neg hopen] at hx
      rcases hend with hend | hend <;> linarith [hx.1, hx.2]
    refine ⟨hi.le, fun k _ => ?_⟩
    rcases Nat.lt_trichotomy k m with hk | rfl | hk
    · obtain ⟨hle, htie⟩ := abs_sub_le_of_below hbefore hin.1
        (f.value_strictMono.monotone (show k ≤ m - 1 by omega))
      exact ⟨hle, fun h => Or.inr (heven (Or.inl (htie h)))⟩
    · exact ⟨le_rfl, fun _ => Or.inl rfl⟩
    · obtain ⟨hle, htie⟩ := abs_sub_le_of_above hafter hin.2 (f.value_strictMono.monotone hk)
      exact ⟨hle, fun h => Or.inr (heven (Or.inr (htie h)))⟩
  · rintro ⟨-, hbest⟩
    obtain ⟨hle, htie⟩ := hbest (m - 1) (by omega)
    obtain ⟨hle', htie'⟩ := hbest (m + 1) hi
    have hin : f.value (m - 1) + f.value m ≤ 2 * x :=
      le_of_not_gt fun hx => (abs_sub_lt_of_lt hbefore hx).not_ge hle
    have hin' : 2 * x ≤ f.value m + f.value (m + 1) :=
      le_of_not_gt fun hx => (abs_sub_lt_of_gt hafter hx).not_ge hle'
    split_ifs with hc
    · constructor <;> linarith
    · have hodd : ¬m % 2 = 0 := fun h => hc (hclosed.2 h)
      constructor
      · refine lt_of_le_of_ne (by linarith) fun hend => ?_
        exact hodd ((htie (abs_sub_eq_of_middle (by linarith))).resolve_left (by omega))
      · refine lt_of_le_of_ne (by linarith) fun hend => ?_
        exact hodd ((htie' (abs_sub_eq_of_middle (by linarith)).symm).resolve_left (by omega))

theorem neighbourhood_contains_middle (hf : 0 < f.fractionBits) (hm : 0 < m) (hi : m < f.infinity) :
    (f.neighbourhood m).Contains (f.neighbourhood m).middle := by
  rw [f.neighbourhood_middle, f.neighbourhood_contains_iff hf hm hi]
  refine ⟨hi.le, fun k _ => ?_⟩
  rw [sub_self, abs_zero]
  refine ⟨abs_nonneg _, fun h => Or.inl (f.value_strictMono.injective ?_)⟩
  rw [eq_comm, abs_eq_zero, sub_eq_zero] at h
  exact h

end BinaryFormat

namespace BinaryFormat

open Neighbourhood

variable {f : BinaryFormat} {m : Nat}

/-- Both ends of the neighbourhood of a positive number are of its size. -/
theorem neighbourhood_bounds (hm : 0 < m) :
    0 < (f.neighbourhood m).low ∧ (f.neighbourhood m).low < (f.neighbourhood m).value ∧
      (f.neighbourhood m).high = (f.neighbourhood m).value + 2 ∧
      (f.neighbourhood m).high < 2 * (f.neighbourhood m).value ∧
      (f.neighbourhood m).value < 2 ^ (f.fractionBits + 3) := by
  have hlow : (f.neighbourhood m).low =
      if f.significand m == twoPow f.fractionBits && twoPow (f.fractionBits + 1) ≤ m then
        4 * f.significand m - 1 else 4 * f.significand m - 2 := rfl
  have hvalue : (f.neighbourhood m).value = 4 * f.significand m := rfl
  have hhigh : (f.neighbourhood m).high = 4 * f.significand m + 2 := rfl
  obtain ⟨p, rfl⟩ := f.exists_parts m
  have hpos := Parts.significand_pos hm
  have hlt := p.lt
  have hpow : 2 ^ (f.fractionBits + 3) = 4 * 2 ^ (f.fractionBits + 1) := by ring
  rw [hlow, hvalue, hhigh, p.significand_exponent_magnitude.1, hpow]
  split_ifs <;> omega

/-- The grids of a scan are fine enough for the format. -/
structure Scanned (f : BinaryFormat) : Prop where
  fractionBits_pos : 0 < f.fractionBits
  grids : 2 ^ (f.fractionBits + 2) ≤ 10 ^ (gridCount - 3)

theorem scanned_binary32 : Scanned binary32 :=
  ⟨by decide, by decide⟩

theorem scanned_binary64 : Scanned binary64 :=
  ⟨by decide, by decide⟩

/-- The last grid of a scan is so fine that the neighbour above the value lies in the interval. -/
theorem exists_shortest (hf : Scanned f) (hm : 0 < m)
    (hmiddle : (f.neighbourhood m).Contains (f.neighbourhood m).middle) :
    ∃ d, (f.neighbourhood m).scan gridCount (f.neighbourhood m).topExponent = some d := by
  obtain ⟨hlow, hlt, hhigh, -, hbits⟩ := f.neighbourhood_bounds hm
  obtain ⟨htop, -⟩ := topExponent_spec (h := f.neighbourhood m) (by omega)
  generalize f.neighbourhood m = h at *
  obtain ⟨hbelow, habove⟩ := h.below_spec (h.topExponent - 23)
  have hcount : gridCount = 24 := rfl
  have hunit : (0 : ℚ) < 2 ^ h.unit := by positivity
  have hgrid : (10 : ℚ) ^ (h.topExponent - 23) < 2 * 2 ^ h.unit := by
    have hten : (10 : ℚ) ^ (h.topExponent - 23) = 10 ^ (h.topExponent - 2) / 10 ^ 21 := by
      rw [show h.topExponent - 23 = h.topExponent - 2 - (21 : Nat) by omega,
        zpow_sub₀ (by norm_num), zpow_natCast]
    have hbits' : (h.value : ℚ) < 2 * 2 ^ (f.fractionBits + 2) := by
      have hpow : 2 ^ (f.fractionBits + 3) = 2 * 2 ^ (f.fractionBits + 2) := by ring
      rw [hpow] at hbits
      exact_mod_cast hbits
    have hf' : (2 : ℚ) ^ (f.fractionBits + 2) ≤ 10 ^ 21 := by exact_mod_cast hf.grids
    rw [hten, div_lt_iff₀ (by positivity)]
    calc (10 : ℚ) ^ (h.topExponent - 2) ≤ h.value * 2 ^ h.unit := htop
      _ < 2 * 2 ^ (f.fractionBits + 2) * 2 ^ h.unit := mul_lt_mul_of_pos_right hbits' hunit
      _ ≤ 2 * 10 ^ 21 * 2 ^ h.unit := by
        refine mul_le_mul_of_nonneg_right ?_ hunit.le
        linarith
      _ = 2 * 2 ^ h.unit * 10 ^ 21 := by ring
  refine exists_scan hmiddle (j := h.topExponent - 23) (k := h.below (h.topExponent - 23) + 1)
    (contains_of_lt ?_ ?_) (by omega) (by omega)
  · refine lt_trans ?_ habove
    exact mul_lt_mul_of_pos_right (by exact_mod_cast hlt) hunit
  · have hhigh' : (h.high : ℚ) * 2 ^ h.unit = h.middle + 2 * 2 ^ h.unit := by
      rw [hhigh, middle]
      push_cast
      ring
    rw [hhigh']
    push_cast
    linarith

/-- The shortest decimal rounds to its number, and no decimal with a greater exponent does. -/
theorem shortest_spec (hf : Scanned f) (hm : 0 < m) (hi : m < f.infinity) :
    0 < (f.shortest m).digits ∧
      f.IsNearest ((f.shortest m).digits * 10 ^ (f.shortest m).exponent) m ∧
      ∀ (k : Nat) (j : Int), f.IsNearest (k * 10 ^ j) m → j ≤ (f.shortest m).exponent := by
  have hmiddle := f.neighbourhood_contains_middle hf.fractionBits_pos hm hi
  obtain ⟨d, hd⟩ := f.exists_shortest hf hm hmiddle
  have hshortest : f.shortest m = d := by rw [shortest, hd, Option.getD_some]
  obtain ⟨hlow, hlt, -, hhigh, -⟩ := f.neighbourhood_bounds hm
  obtain ⟨-, htop⟩ := topExponent_spec (h := f.neighbourhood m) (by omega)
  obtain ⟨hin, hcoarse⟩ := scan_eq_some hmiddle hd
  have hunit : (0 : ℚ) < 2 ^ (f.neighbourhood m).unit := by positivity
  have hends {x : ℚ} (hx : (f.neighbourhood m).Contains x) :
      0 < x ∧ x < 2 * 10 ^ (f.neighbourhood m).topExponent := by
    have hlow' : (0 : ℚ) < (f.neighbourhood m).low := by exact_mod_cast hlow
    have hhigh' : ((f.neighbourhood m).high : ℚ) < 2 * (f.neighbourhood m).value := by
      exact_mod_cast hhigh
    have hmul := mul_lt_mul_of_pos_right hhigh' hunit
    have hmul' := mul_pos hlow' hunit
    rw [middle] at htop
    unfold Contains at hx
    split_ifs at hx <;> constructor <;> linarith [hx.1, hx.2]
  rw [hshortest]
  simp only [← f.neighbourhood_contains_iff hf.fractionBits_pos hm hi]
  refine ⟨?_, hin, fun k j hk => ?_⟩
  · apply Nat.pos_of_ne_zero
    intro hzero
    have hpos := (hends hin).1
    rw [hzero, Nat.cast_zero, zero_mul] at hpos
    exact hpos.false
  · by_contra hj
    push Not at hj
    rcases le_or_gt j (f.neighbourhood m).topExponent with hle | hgt
    · exact hcoarse j hj hle k hk
    · obtain ⟨hpos, hsmall⟩ := hends hk
      have hten : (10 : ℚ) * 10 ^ (f.neighbourhood m).topExponent ≤ 10 ^ j := by
        rw [mul_comm, ← zpow_add_one₀ (by norm_num)]
        exact zpow_le_zpow_right₀ (by norm_num) (by omega)
      have hone : (1 : ℚ) ≤ k := by
        have hk0 : k ≠ 0 := by
          rintro rfl
          rw [Nat.cast_zero, zero_mul] at hpos
          exact hpos.false
        exact_mod_cast Nat.one_le_iff_ne_zero.2 hk0
      have hmul : (10 : ℚ) ^ j ≤ k * 10 ^ j := le_mul_of_one_le_left (by positivity) hone
      have hp : (0 : ℚ) < 10 ^ (f.neighbourhood m).topExponent := by positivity
      linarith

/-- No decimal that rounds to the number has fewer digits. -/
theorem shortest_digits_le (hf : Scanned f) (hm : 0 < m) (hi : m < f.infinity) {k : Nat} {j : Int}
    (hk : f.IsNearest (k * 10 ^ j) m) :
    (Nat.toDigits 10 (f.shortest m).digits).length ≤ (Nat.toDigits 10 k).length := by
  obtain ⟨hpos, hin, hcoarse⟩ := shortest_spec hf hm hi
  have hj := hcoarse k j hk
  by_contra hlen
  push Not at hlen
  have hlength : 0 < (Nat.toDigits 10 k).length := Nat.length_toDigits_pos
  have hdigits := (toDigits_length_bounds hpos).1
  have hsmall : k < 10 ^ (Nat.toDigits 10 k).length :=
    (Nat.length_toDigits_le_iff (by decide) hlength).1 le_rfl
  generalize (f.shortest m).exponent = e at *
  generalize hL : (Nat.toDigits 10 (f.shortest m).digits).length = L at *
  -- the power of ten with as many digits lies between the two decimals
  have hpower : f.IsNearest ((1 : Nat) * 10 ^ ((L - 1 : Nat) + e)) m := by
    rw [← f.neighbourhood_contains_iff hf.fractionBits_pos hm hi] at hk hin ⊢
    refine hk.between hin ?_ ?_
    · calc (k : ℚ) * 10 ^ j ≤ 10 ^ ((Nat.toDigits 10 k).length : Int) * 10 ^ j := by
            refine mul_le_mul_of_nonneg_right ?_ (by positivity)
            rw [zpow_natCast]
            exact_mod_cast hsmall.le
        _ = 10 ^ ((Nat.toDigits 10 k).length + j) := (zpow_add₀ (by norm_num) _ _).symm
        _ ≤ (1 : Nat) * 10 ^ ((L - 1 : Nat) + e) := by
            rw [Nat.cast_one, one_mul]
            exact zpow_le_zpow_right₀ (by norm_num) (by omega)
    · rw [Nat.cast_one, one_mul, zpow_add₀ (by norm_num), zpow_natCast]
      refine mul_le_mul_of_nonneg_right ?_ (by positivity)
      exact_mod_cast hdigits
  have := hcoarse _ _ hpower
  omega

end BinaryFormat

end SchemaBindings.Number
