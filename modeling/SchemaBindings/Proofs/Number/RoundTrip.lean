import SchemaBindings.Proofs.Number.Shortest
import SchemaBindings.Proofs.Number.Spelling

namespace SchemaBindings.Number

namespace BinaryFormat

variable {f : BinaryFormat}

theorem value_zero (f : BinaryFormat) : f.value 0 = 0 := by
  have h := value_step (f := f) (s := 0) (Nat.zero_le _) (Or.inl rfl)
  simpa using h

theorem isNearest_zero (hf : 0 < f.fractionBits) : f.IsNearest 0 0 := by
  have h := nearest_isNearest hf 0 Nat.one_pos
  rw [Nat.cast_zero, zero_div] at h
  exact h

theorem text_of_finite {pattern : Nat} (hi : f.magnitude pattern < f.infinity) :
    f.text pattern = (if f.isNegative pattern then "-" else "") ++
      if f.magnitude pattern = 0 then "0" else general.decimal (f.shortest (f.magnitude pattern)) := by
  have hnan : f.isNaN pattern = false := decide_eq_false (by omega)
  have hinfinite : f.isInfinite pattern = false := beq_false_of_ne hi.ne
  simp only [text, hnan, hinfinite, Bool.false_eq_true, if_false]
  split <;> rfl

/-- The number is a decimal with no more digits than any other decimal that rounds to the
magnitude. -/
def FewestDigits (f : BinaryFormat) (x : ℚ) (m : Nat) : Prop :=
  ∀ (k : Nat) (j : Int), f.IsNearest (k * 10 ^ j) m → ∃ (c : Nat) (i : Int),
    x = c * 10 ^ i ∧ (Nat.toDigits 10 c).length ≤ (Nat.toDigits 10 k).length

/-- A finite number is written as a literal, with a minus sign if it is negative. It is the nearest
number of its format to what the literal denotes, and no literal with fewer digits would do. -/
theorem exists_spelling_text (hf : Scanned f) {pattern : Nat}
    (hi : f.magnitude pattern < f.infinity) :
    ∃ s : Spelling,
      (f.text pattern).toList = (if f.isNegative pattern then '-' :: s.chars else s.chars) ∧
        f.IsNearest s.size (f.magnitude pattern) ∧ f.FewestDigits s.size (f.magnitude pattern) := by
  have hsign (negative : Bool) (t : String) : ((if negative then "-" else "") ++ t).toList =
      if negative then '-' :: t.toList else t.toList := by
    cases negative
    · rfl
    · rw [if_pos rfl, if_pos rfl, String.toList_append]
      rfl
  rw [text_of_finite hi, hsign]
  by_cases hm : f.magnitude pattern = 0
  · refine ⟨.ofNat 0, ?_, ?_, ?_⟩
    · rw [if_pos hm]
      rfl
    · rw [hm, Spelling.size_ofNat, Nat.cast_zero]
      exact isNearest_zero hf.fractionBits_pos
    · intro k j _
      refine ⟨0, 0, ?_, Nat.length_toDigits_pos⟩
      rw [Spelling.size_ofNat, Nat.cast_zero, zero_mul]
  · have hpos := Nat.pos_of_ne_zero hm
    obtain ⟨hdigits, hnearest, -⟩ := shortest_spec hf hpos hi
    obtain ⟨s, hs, hsize⟩ := general.decimal_writes hdigits
    refine ⟨s, ?_, ?_, ?_⟩
    · rw [if_neg hm, hs]
    · rw [hsize]
      exact hnearest
    · intro k j hk
      exact ⟨_, _, hsize, shortest_digits_le hf hpos hi hk⟩

/-- A number is rounded to infinity from half way between the largest finite number and the power
of two after it. -/
theorem isNearest_infinity_iff (hpos : 0 < f.infinity) (heven : f.infinity % 2 = 0) {x : ℚ} :
    f.IsNearest x f.infinity ↔ f.value (f.infinity - 1) + f.value f.infinity ≤ 2 * x := by
  have hlast : f.value (f.infinity - 1) < f.value f.infinity := f.value_strictMono (by omega)
  constructor
  · intro h
    by_contra hlt
    push Not at hlt
    exact (abs_sub_lt_of_lt hlast hlt).not_ge (h.2 _ (Nat.sub_le _ _)).1
  · intro hle
    refine ⟨le_rfl, fun k hk => ⟨?_, fun _ => Or.inr heven⟩⟩
    rcases hk.lt_or_eq with hlt | rfl
    · exact (abs_sub_le_of_below hlast hle (f.value_strictMono.monotone (by omega))).1
    · exact le_rfl

/-- Where the numbers end that single precision can hold. -/
theorem isNearest_infinity_binary32 {x : ℚ} :
    binary32.IsNearest x binary32.infinity ↔ (2 ^ 25 - 1) * 2 ^ 103 ≤ x := by
  have hlast : binary32.value (binary32.infinity - 1) = (2 ^ 24 - 1 : Nat) * 2 ^ ((104 : Nat) : Int) :=
    rfl
  have hinfinity : binary32.value binary32.infinity = (2 ^ 23 : Nat) * 2 ^ ((105 : Nat) : Int) := rfl
  rw [isNearest_infinity_iff (by decide) (by decide), hlast, hinfinity, zpow_natCast, zpow_natCast]
  norm_num
  constructor <;> intro h <;> linarith

end BinaryFormat

namespace Numeral

open BinaryFormat

variable {n : Numeral}

/-- The order of a number bounds its size. -/
theorem size_bounds (hn : 0 < n.coefficient) :
    (10 : ℚ) ^ (n.exponent + (Nat.toDigits 10 n.coefficient).length - 1) ≤ n.size ∧
      n.size < 10 ^ (n.exponent + (Nat.toDigits 10 n.coefficient).length) := by
  obtain ⟨hl, hr⟩ := Neighbourhood.toDigits_length_bounds hn
  have hlength : 0 < (Nat.toDigits 10 n.coefficient).length := Nat.length_toDigits_pos
  have hten : (0 : ℚ) < 10 ^ n.exponent := by positivity
  generalize (Nat.toDigits 10 n.coefficient).length = length at hl hr hlength ⊢
  have hexponent : n.exponent + length - 1 = ((length - 1 : Nat) : Int) + n.exponent := by omega
  rw [hexponent, zpow_add₀ (by norm_num), add_comm, zpow_add₀ (by norm_num), zpow_natCast,
    zpow_natCast, size]
  constructor
  · exact mul_le_mul_of_nonneg_right (by exact_mod_cast hl) hten.le
  · exact mul_lt_mul_of_pos_right (by exact_mod_cast hr) hten

theorem two_pow_le_ten_pow (k : Nat) : (2 : ℚ) ^ (3 * k) ≤ 10 ^ k := by
  rw [pow_mul]
  exact pow_le_pow_left₀ (by norm_num) (by norm_num) k

theorem least_lt_value_one : 2 * (10 : ℚ) ^ (leastExponent - 1) < binary64.value 1 := by
  have hvalue : binary64.value 1 = (1 : Nat) * 2 ^ (-(1074 : Nat) : Int) := rfl
  have hexponent : leastExponent - 1 = -(401 : Nat) := rfl
  have hpow : (2 : ℚ) ^ 1074 * 2 < 10 ^ 401 :=
    calc (2 : ℚ) ^ 1074 * 2 = 2 ^ 1075 := (pow_succ _ _).symm
      _ < 2 ^ (3 * 401) := pow_lt_pow_right₀ (by norm_num) (by norm_num)
      _ ≤ 10 ^ 401 := two_pow_le_ten_pow 401
  rw [hvalue, hexponent, Nat.cast_one, one_mul, zpow_neg, zpow_neg, zpow_natCast, zpow_natCast,
    ← div_eq_mul_inv, div_lt_iff₀ (by positivity), inv_mul_eq_div, lt_div_iff₀ (by positivity), mul_comm]
  exact hpow

theorem value_infinity_le_greatest : binary64.value binary64.infinity ≤ 10 ^ greatestExponent := by
  have hvalue : binary64.value binary64.infinity = (2 ^ 52 : Nat) * 2 ^ ((972 : Nat) : Int) := rfl
  have hexponent : greatestExponent = (400 : Nat) := rfl
  rw [hvalue, hexponent, zpow_natCast, zpow_natCast, Nat.cast_pow, Nat.cast_ofNat, ← pow_add]
  calc (2 : ℚ) ^ (52 + 972) ≤ 2 ^ (3 * 400) := pow_le_pow_right₀ (by norm_num) (by norm_num)
    _ ≤ 10 ^ 400 := two_pow_le_ten_pow 400

/-- A number that is too small for the least order is rounded to zero. -/
theorem eq_zero_of_small {x : ℚ} {m : Nat} (h : binary64.IsNearest x m) (hx : 0 < x)
    (hlt : x < 10 ^ (leastExponent - 1)) : m = 0 := by
  by_contra hm
  have hone : binary64.value 1 ≤ binary64.value m :=
    binary64.value_strictMono.monotone (Nat.one_le_iff_ne_zero.2 hm)
  have hleast := least_lt_value_one
  have hnear := (h.2 0 (Nat.zero_le _)).1
  rw [binary64.value_zero, zero_sub, abs_neg, abs_of_pos hx, abs_of_nonneg (by linarith)] at hnear
  linarith

/-- A number past the greatest order is not rounded to a finite one. -/
theorem eq_infinity_of_large {x : ℚ} {m : Nat} (h : binary64.IsNearest x m)
    (hle : 10 ^ greatestExponent ≤ x) : m = binary64.infinity := by
  by_contra hm
  have hlt : binary64.value m < binary64.value binary64.infinity :=
    binary64.value_strictMono (lt_of_le_of_ne h.1 hm)
  have hgreatest := value_infinity_le_greatest
  have hnear := (h.2 _ le_rfl).1
  rw [abs_of_nonpos (by linarith), abs_of_nonpos (by linarith)] at hnear
  linarith

/-- Reading a number as a double is rounding it to the nearest, a half to the even neighbour. -/
theorem toDouble_of_isNearest {m : Nat} (h : binary64.IsNearest n.size m) :
    n.toDouble = .ofPattern (binary64.withSign n.negative m) := by
  unfold toDouble
  dsimp only
  congr 2
  by_cases hzero : n.coefficient = 0
  · rw [if_pos (Or.inl hzero)]
    rw [size, hzero, Nat.cast_zero, zero_mul] at h
    exact (isNearest_zero (by decide)).unique h
  · obtain ⟨hl, hr⟩ := size_bounds (Nat.pos_of_ne_zero hzero)
    have hpos : 0 < n.size := lt_of_lt_of_le (by positivity) hl
    split_ifs with hsmall hlarge
    · have hlt := hsmall.resolve_left hzero
      refine (eq_zero_of_small h hpos (hr.trans_le ?_)).symm
      exact zpow_le_zpow_right₀ (by norm_num) (by omega)
    · refine (eq_infinity_of_large h (le_trans ?_ hl)).symm
      exact zpow_le_zpow_right₀ (by norm_num) (by omega)
    · have hnearest := nearest_isNearest (f := binary64) (by decide)
        (scaleTen n.coefficient 1 n.exponent).1
        (scaleTen_pos (n := n.coefficient) Nat.one_pos n.exponent)
      have hsize : ratio (scaleTen n.coefficient 1 n.exponent) = n.size := by
        rw [ratio_scaleTen, Nat.cast_one, div_one, size]
      rw [ratio] at hsize
      rw [hsize] at hnearest
      exact hnearest.unique h

end Numeral

namespace Double

open BinaryFormat

theorem ofPattern_withSign (x : Double) :
    ofPattern (binary64.withSign x.isNegative (binary64.magnitude x.pattern)) = x := by
  have hpattern : x.pattern < 2 * binary64.signBit := x.bits.toNat_lt
  rw [isNegative, withSign_magnitude hpattern]
  exact congrArg mk (UInt64.ofNat_toNat)

/-- The text of a finite double is a signed decimal that the double is nearest to, with the fewest
digits; reading it gives the double back, bit for bit. -/
theorem readNumeral?_text {x : Double} (hx : x.isFinite = true) :
    ∃ n, readNumeral? (binary64.text x.pattern).toList = some n ∧ n.negative = x.isNegative ∧
      binary64.IsNearest n.size (binary64.magnitude x.pattern) ∧
      binary64.FewestDigits n.size (binary64.magnitude x.pattern) ∧ n.toDouble = x := by
  obtain ⟨s, htext, hnearest, hfewest⟩ := exists_spelling_text scanned_binary64 (of_decide_eq_true hx)
  obtain ⟨n, hread, hsign, hsize⟩ := s.readNumeral?_chars x.isNegative
  rw [← hsize] at hnearest hfewest
  refine ⟨n, ?_, hsign, hnearest, hfewest, ?_⟩
  · rw [htext]
    exact hread
  · rw [Numeral.toDouble_of_isNearest hnearest, hsign]
    exact x.ofPattern_withSign

theorem text_injective {x y : Double} (hx : x.isFinite = true) (hy : y.isFinite = true)
    (h : binary64.text x.pattern = binary64.text y.pattern) : x = y := by
  obtain ⟨n, hread, -, -, -, rfl⟩ := readNumeral?_text hx
  obtain ⟨n', hread', -, -, -, rfl⟩ := readNumeral?_text hy
  rw [h, hread'] at hread
  cases hread
  rfl

/-- A finite number keeps its sign in single precision, and becomes infinite past the range. -/
theorem magnitude_narrow {x : Double} (hx : x.isFinite = true) :
    binary32.isNegative x.narrow = x.isNegative ∧
      binary32.IsNearest (binary64.value (binary64.magnitude x.pattern))
        (binary32.magnitude x.narrow) := by
  have hlt := narrowedMagnitude_lt (binary64.magnitude x.pattern)
  rw [narrow_eq, isNegative_withSign hlt, magnitude_withSign hlt]
  exact ⟨rfl, narrowedMagnitude_finite (of_decide_eq_true hx)⟩

end Double

end SchemaBindings.Number
