import SchemaBindings.Number.Numeral
import SchemaBindings.Number.Written
import SchemaBindings.Proofs.Number.Widening
import SchemaBindings.Proofs.Text.Digits

namespace SchemaBindings

namespace Text

/-- Zeros multiply what was read before them. -/
theorem foldlM_zeros (n k : Nat) :
    (List.replicate k '0').foldlM (fun n c => do
      let d ← digitValue? c
      if d < 10 then some (n * 10 + d) else none) n = some (n * 10 ^ k) := by
  induction k generalizing n with
  | zero => simp
  | succ k ih =>
    have hstep : (do
        let d ← digitValue? '0'
        if d < 10 then some (n * 10 + d) else none) = some (n * 10) := rfl
    rw [List.replicate_succ, List.foldlM_cons, hstep]
    refine (ih (n * 10)).trans ?_
    rw [Nat.pow_succ', Nat.mul_assoc]

theorem readDigits?_zeros_append (k n : Nat) :
    readDigits? 10 (List.replicate k '0' ++ Nat.toDigits 10 n) = some n := by
  have hread := readDigits?_toDigits (show 1 < 10 by decide) (by decide) n
  rw [readDigits?_of_ne_nil Nat.toDigits_ne_nil] at hread
  rw [readDigits?_of_ne_nil (by simp [Nat.toDigits_ne_nil]), List.foldlM_append, foldlM_zeros,
    Nat.zero_mul]
  exact hread

theorem readDigits?_append_zeros (k n : Nat) :
    readDigits? 10 (Nat.toDigits 10 n ++ List.replicate k '0') = some (n * 10 ^ k) := by
  have hread := readDigits?_toDigits (show 1 < 10 by decide) (by decide) n
  rw [readDigits?_of_ne_nil Nat.toDigits_ne_nil] at hread
  rw [readDigits?_of_ne_nil (by simp [Nat.toDigits_ne_nil]), List.foldlM_append, hread]
  exact foldlM_zeros n k

end Text

open SchemaBindings.Text

namespace Number

/-- The number that decimal digits denote. -/
def digitsValue (cs : List Char) : Nat :=
  (readDigits? 10 cs).getD 0

theorem digitValue?_of_isDigit {c : Char} (h : c.isDigit = true) :
    ∃ d < 10, digitValue? c = some d := by
  have hbounds := Char.isDigit_iff_toNat.1 h
  refine ⟨c.toNat - '0'.toNat, ?_, if_pos hbounds⟩
  have hzero : '0'.toNat = 48 := rfl
  have hnine : '9'.toNat = 57 := rfl
  omega

/-- Every run of digits denotes a number. -/
theorem readDigits?_of_isDigit {cs : List Char} (hne : cs ≠ [])
    (hd : ∀ c ∈ cs, c.isDigit = true) : readDigits? 10 cs = some (digitsValue cs) := by
  suffices h : ∃ k, readDigits? 10 cs = some k by
    obtain ⟨k, hk⟩ := h
    rw [digitsValue, hk]
    rfl
  rw [readDigits?_of_ne_nil hne]
  clear hne
  generalize 0 = n
  induction cs generalizing n with
  | nil => exact ⟨n, rfl⟩
  | cons c cs ih =>
    obtain ⟨d, hlt, hvalue⟩ := digitValue?_of_isDigit (hd c List.mem_cons_self)
    obtain ⟨k, hk⟩ := ih (fun c' hc' => hd c' (List.mem_cons_of_mem c hc')) (n * 10 + d)
    refine ⟨k, ?_⟩
    rw [List.foldlM_cons]
    simp only [hvalue, hlt, if_true, Option.bind_eq_bind, Option.bind_some]
    exact hk

theorem digitsValue_toDigits (n : Nat) : digitsValue (Nat.toDigits 10 n) = n := by
  rw [digitsValue, readDigits?_toDigits (by decide) (by decide)]
  rfl

theorem digitsValue_zeros_append (k n : Nat) :
    digitsValue (List.replicate k '0' ++ Nat.toDigits 10 n) = n := by
  rw [digitsValue, readDigits?_zeros_append]
  rfl

theorem digitsValue_append_zeros (k n : Nat) :
    digitsValue (Nat.toDigits 10 n ++ List.replicate k '0') = n * 10 ^ k := by
  rw [digitsValue, readDigits?_append_zeros]
  rfl

theorem isDigit_of_mem_zeros {k : Nat} {c : Char} (h : c ∈ List.replicate k '0') :
    c.isDigit = true := by
  rw [List.eq_of_mem_replicate h]
  rfl

/-- Only zero is written with a zero in front. -/
theorem eq_zero_of_head?_toDigits {n : Nat} (h : (Nat.toDigits 10 n).head? = some '0') : n = 0 := by
  induction n using Nat.strongRecOn with
  | ind n ih =>
    rw [Nat.toDigits_eq_if (by decide)] at h
    split at h
    next hn =>
      have hdigit : ∀ d < 10, Nat.digitChar d = '0' → d = 0 := by decide
      exact hdigit n hn (Option.some.inj h)
    next hn =>
      rw [List.head?_append_of_ne_nil _ Nat.toDigits_ne_nil] at h
      have := ih (n / 10) (by omega) h
      omega

/-- Decimal digits, at least one. -/
structure DigitRun where
  chars : List Char
  ne_nil : chars ≠ []
  digits : ∀ c ∈ chars, c.isDigit = true

namespace DigitRun

def ofNat (n : Nat) : DigitRun :=
  ⟨Nat.toDigits 10 n, Nat.toDigits_ne_nil, fun _ => isDigit_of_mem_toDigits⟩

/-- Zeros before the digits of a number. -/
def padded (k n : Nat) : DigitRun :=
  ⟨List.replicate k '0' ++ Nat.toDigits 10 n, by simp [Nat.toDigits_ne_nil],
    List.forall_mem_append.2 ⟨fun _ => isDigit_of_mem_zeros, fun _ => isDigit_of_mem_toDigits⟩⟩

/-- The digits of a number before zeros. -/
def raised (n k : Nat) : DigitRun :=
  ⟨Nat.toDigits 10 n ++ List.replicate k '0', by simp [Nat.toDigits_ne_nil],
    List.forall_mem_append.2 ⟨fun _ => isDigit_of_mem_toDigits, fun _ => isDigit_of_mem_zeros⟩⟩

end DigitRun

/-- A decimal literal: whole digits without a superfluous zero in front, perhaps a point and digits
behind it, perhaps an exponent with its sign. -/
structure Spelling where
  whole : DigitRun
  fraction : Option DigitRun
  exponent : Option (Bool × DigitRun)
  first : whole.chars.head? = some '0' → whole.chars = ['0']

namespace Spelling

def fractionDigits (s : Spelling) : List Char :=
  match s.fraction with
  | none => []
  | some ds => ds.chars

def pointed (s : Spelling) : List Char :=
  match s.fraction with
  | none => []
  | some ds => '.' :: ds.chars

def scaled (s : Spelling) : List Char :=
  match s.exponent with
  | none => []
  | some e => 'e' :: (if e.1 then '-' else '+') :: e.2.chars

/-- The literal as it is written. -/
def chars (s : Spelling) : List Char :=
  s.whole.chars ++ (s.pointed ++ s.scaled)

/-- The power of ten that the exponent gives. -/
def power (s : Spelling) : Int :=
  match s.exponent with
  | none => 0
  | some e => if e.1 then -(digitsValue e.2.chars : Int) else digitsValue e.2.chars

/-- The number that the literal denotes. -/
def size (s : Spelling) : ℚ :=
  digitsValue (s.whole.chars ++ s.fractionDigits) * 10 ^ (s.power - s.fractionDigits.length)

end Spelling

/-- The number that a numeral denotes, without its sign. -/
def Numeral.size (n : Numeral) : ℚ :=
  n.coefficient * 10 ^ n.exponent

section Reading

variable {p : Char → Bool} {whole rest : List Char}

theorem takeWhile_before (hw : ∀ c ∈ whole, p c = true) (hr : ∀ c ∈ rest.head?, p c = false) :
    (whole ++ rest).takeWhile p = whole ∧ (whole ++ rest).dropWhile p = rest := by
  rw [List.takeWhile_append_of_pos hw, List.dropWhile_append_of_pos hw]
  cases rest with
  | nil => simp
  | cons c rest =>
    have hc : p c = false := hr c rfl
    simp [hc]

theorem Spelling.scaled_head (s : Spelling) : ∀ c ∈ s.scaled.head?, c.isDigit = false := by
  unfold scaled
  split
  · simp
  · simp

theorem Spelling.pointed_head (s : Spelling) :
    ∀ c ∈ (s.pointed ++ s.scaled).head?, c.isDigit = false := by
  unfold pointed
  split
  · exact s.scaled_head
  · simp

theorem DigitRun.readExponent? (r : DigitRun) (negative : Bool) :
    Number.readExponent? ((if negative then '-' else '+') :: r.chars)
      = some (if negative then -(digitsValue r.chars : Int) else digitsValue r.chars) := by
  have hall : r.chars.all Char.isDigit = true := List.all_eq_true.2 r.digits
  cases negative <;>
    simp [Number.readExponent?, readExponent?.decimalDigits?, hall,
      readDigits?_of_isDigit r.ne_nil r.digits]

/-- A decimal literal is read as the number that it spells. -/
theorem Spelling.readUnsigned?_chars (s : Spelling) :
    ∃ n, readUnsigned? s.chars = some n ∧ n.negative = false ∧ n.size = s.size := by
  obtain ⟨htake, hdrop⟩ := takeWhile_before s.whole.digits s.pointed_head
  have hscaled := s.scaled_head
  obtain ⟨whole, fraction, exponent, first⟩ := s
  have hread := readDigits?_of_isDigit whole.ne_nil whole.digits
  unfold readUnsigned? chars
  rw [htake, hdrop]
  cases fraction with
  | none =>
    cases exponent with
    | none => simp [pointed, Spelling.scaled, hread, Numeral.size, size, fractionDigits, power]
    | some e =>
      simp [pointed, Spelling.scaled, hread, Numeral.size, size, fractionDigits, power,
        e.2.readExponent?]
  | some ds =>
    have hne : whole.chars ++ ds.chars ≠ [] := by simp [whole.ne_nil]
    have hread' := readDigits?_of_isDigit hne (List.forall_mem_append.2 ⟨whole.digits, ds.digits⟩)
    obtain ⟨htake', hdrop'⟩ := takeWhile_before ds.digits hscaled
    cases exponent with
    | none =>
      simp only [Spelling.scaled, List.append_nil] at htake' hdrop'
      simp [pointed, Spelling.scaled, htake', hdrop', hread', Numeral.size, size, fractionDigits,
        power]
    | some e =>
      simp only [Spelling.scaled] at htake' hdrop'
      simp [pointed, Spelling.scaled, htake', hdrop', hread', Numeral.size, size, fractionDigits,
        power, e.2.readExponent?]

theorem readUnsigned?_minus (cs : List Char) : readUnsigned? ('-' :: cs) = none :=
  rfl

theorem readNumeral?_of_unsigned {cs : List Char} {n : Numeral} (h : readUnsigned? cs = some n) :
    readNumeral? cs = some n := by
  unfold readNumeral?
  split
  next cs =>
    rw [readUnsigned?_minus] at h
    cases h
  next => exact h

theorem Spelling.readNumeral?_chars (s : Spelling) (negative : Bool) :
    ∃ n, readNumeral? (if negative then '-' :: s.chars else s.chars) = some n ∧
      n.negative = negative ∧ n.size = s.size := by
  obtain ⟨n, hread, hsign, hsize⟩ := s.readUnsigned?_chars
  cases negative with
  | true =>
    refine ⟨{ n with negative := true }, ?_, rfl, hsize⟩
    rw [if_pos rfl, readNumeral?, hread]
    rfl
  | false =>
    refine ⟨n, ?_, hsign, hsize⟩
    rw [if_neg Bool.false_ne_true]
    exact readNumeral?_of_unsigned hread

end Reading

namespace Spelling

/-- The digits of a natural number. -/
def ofNat (n : Nat) : Spelling where
  whole := .ofNat n
  fraction := none
  exponent := none
  first h := by
    have hn : n = 0 := eq_zero_of_head?_toDigits h
    rw [hn]
    rfl

theorem size_ofNat (n : Nat) : (ofNat n).size = n := by
  simp [size, ofNat, fractionDigits, power, DigitRun.ofNat, digitsValue_toDigits]

theorem chars_ofNat (n : Nat) : (ofNat n).chars = Nat.toDigits 10 n := by
  simp [chars, ofNat, pointed, scaled, DigitRun.ofNat]

/-- The digits of a natural number are read as exactly that number. -/
theorem readUnsigned?_toDigits (n : Nat) :
    readUnsigned? (Nat.toDigits 10 n) = some ⟨false, n, 0, true⟩ := by
  have hdigits : ∀ c ∈ Nat.toDigits 10 n, c.isDigit = true := fun c hc => isDigit_of_mem_toDigits hc
  have hsplit : (Nat.toDigits 10 n ++ []).takeWhile Char.isDigit = Nat.toDigits 10 n ∧
      (Nat.toDigits 10 n ++ []).dropWhile Char.isDigit = [] := takeWhile_before hdigits nofun
  rw [List.append_nil] at hsplit
  unfold readUnsigned?
  rw [hsplit.1, hsplit.2]
  by_cases hzero : (Nat.toDigits 10 n).head? = some '0'
  · rw [eq_zero_of_head?_toDigits hzero]
    rfl
  · simp [Text.readDigits?_toDigits, hzero]

theorem readNumeral?_ofInt (i : Int) :
    readNumeral? (if (Numeral.ofInt i).negative then '-' :: Nat.toDigits 10 i.natAbs
      else Nat.toDigits 10 i.natAbs) = some (.ofInt i) := by
  have hread := readUnsigned?_toDigits i.natAbs
  by_cases hneg : i < 0
  · simp [Numeral.ofInt, hneg, readNumeral?, hread]
  · simp [Numeral.ofInt, hneg, readNumeral?_of_unsigned hread]

/-- The text spells the number. -/
def Writes (text : List Char) (x : ℚ) : Prop :=
  ∃ s : Spelling, text = s.chars ∧ s.size = x

end Spelling

namespace WrittenForm

/-- The sign and the digits of an exponent, filled up to the least width. -/
def exponentRun (t : WrittenForm) (e : Int) : Bool × DigitRun :=
  ⟨e < 0, .padded (t.exponentWidth - (Nat.toDigits 10 e.natAbs).length) e.natAbs⟩

theorem toList_exponentText (t : WrittenForm) (e : Int) :
    (t.exponentText e).toList =
      'e' :: (if (t.exponentRun e).1 then '-' else '+') :: (t.exponentRun e).2.chars := by
  unfold exponentText exponentRun DigitRun.padded
  dsimp only
  rw [String.toList_append, String.toList_ofList]
  by_cases he : e < 0
  · rw [if_pos he, if_pos (decide_eq_true he)]
    rfl
  · rw [if_neg he, if_neg (by simpa using he)]
    rfl

variable {d : Decimal}

theorem power_exponentRun (t : WrittenForm) (e : Int) {s : Spelling}
    (hs : s.exponent = some (t.exponentRun e)) : s.power = e := by
  rw [Spelling.power, hs]
  simp only [exponentRun, DigitRun.padded, digitsValue_zeros_append]
  split
  next he =>
    have := of_decide_eq_true he
    omega
  next he =>
    have := of_decide_eq_false (Bool.eq_false_iff.2 he)
    omega

/-- The digits of a number with a power of ten. -/
theorem scientific_writes (t : WrittenForm) (d : Decimal) :
    Spelling.Writes (t.scientific (Nat.toDigits 10 d.digits)
      ((Nat.toDigits 10 d.digits).length + d.exponent - 1)).toList (d.digits * 10 ^ d.exponent) := by
  have hdigit : ∀ c ∈ Nat.toDigits 10 d.digits, c.isDigit = true := fun c => isDigit_of_mem_toDigits
  have hvalue := digitsValue_toDigits d.digits
  unfold scientific
  cases hcs : Nat.toDigits 10 d.digits with
  | nil => exact absurd hcs Nat.toDigits_ne_nil
  | cons c cs =>
    rw [hcs] at hdigit hvalue
    rw [List.forall_mem_cons] at hdigit
    let whole : DigitRun := ⟨[c], by simp, by simpa using hdigit.1⟩
    have hfirst : whole.chars.head? = some '0' → whole.chars = ['0'] := by
      rintro ⟨⟩
      rfl
    cases cs with
    | nil =>
      let s : Spelling := ⟨whole, none,
        some (t.exponentRun ((List.length [c] : Nat) + d.exponent - 1)), hfirst⟩
      refine ⟨s, ?_, ?_⟩
      · rw [String.toList_append, String.toList_singleton, toList_exponentText]
        rfl
      · rw [Spelling.size, t.power_exponentRun _ (s := s) rfl]
        simp [s, whole, Spelling.fractionDigits, hvalue]
    | cons c' cs =>
      let s : Spelling := ⟨whole, some ⟨c' :: cs, by simp, hdigit.2⟩,
        some (t.exponentRun ((List.length (c :: c' :: cs) : Nat) + d.exponent - 1)), hfirst⟩
      refine ⟨s, ?_, ?_⟩
      · rw [String.toList_append, String.toList_ofList, toList_exponentText]
        rfl
      · rw [Spelling.size, t.power_exponentRun _ (s := s) rfl]
        simp only [s, whole, Spelling.fractionDigits, List.singleton_append, hvalue, List.length_cons]
        congr 2
        omega

/-- The point stands before all digits. -/
theorem writes_zeros_before (k n : Nat) :
    Spelling.Writes ('0' :: '.' :: (List.replicate k '0' ++ Nat.toDigits 10 n))
      (n * 10 ^ (-((k + (Nat.toDigits 10 n).length : Nat) : Int))) := by
  refine ⟨⟨.ofNat 0, some (.padded k n), none, fun _ => rfl⟩, (List.append_nil _).symm, ?_⟩
  have hvalue : digitsValue ('0' :: (List.replicate k '0' ++ Nat.toDigits 10 n)) = n :=
    digitsValue_zeros_append (k + 1) n
  simp only [Spelling.size, Spelling.fractionDigits, Spelling.power, DigitRun.ofNat, DigitRun.padded]
  rw [show Nat.toDigits 10 0 = ['0'] from rfl, List.singleton_append, hvalue, List.length_append,
    List.length_replicate]
  congr 2
  omega

theorem head?_toDigits_ne_zero {n : Nat} (hn : 0 < n) : (Nat.toDigits 10 n).head? ≠ some '0' := by
  intro h
  have := eq_zero_of_head?_toDigits h
  omega

/-- Zeros follow the digits. -/
theorem writes_zeros_after {n : Nat} (hn : 0 < n) (k : Nat) :
    Spelling.Writes (Nat.toDigits 10 n ++ List.replicate k '0') (n * 10 ^ (k : Int)) := by
  refine ⟨⟨.raised n k, none, none, ?_⟩, ?_, ?_⟩
  · intro h
    simp only [DigitRun.raised, List.head?_append_of_ne_nil _ Nat.toDigits_ne_nil] at h
    exact absurd h (head?_toDigits_ne_zero hn)
  · simp [Spelling.chars, Spelling.pointed, Spelling.scaled, DigitRun.raised]
  · simp only [Spelling.size, Spelling.fractionDigits, Spelling.power, DigitRun.raised,
      List.append_nil, digitsValue_append_zeros]
    push_cast
    rw [show ((0 : Int) - (List.length ([] : List Char) : Nat)) = 0 from rfl, zpow_zero, mul_one,
      ← zpow_natCast]

/-- The point stands among the digits. -/
theorem writes_point_among {n : Nat} (hn : 0 < n) {point : Nat} (hpos : 0 < point)
    (hlt : point < (Nat.toDigits 10 n).length) :
    Spelling.Writes ((Nat.toDigits 10 n).take point ++ '.' :: (Nat.toDigits 10 n).drop point)
      (n * 10 ^ ((point : Int) - (Nat.toDigits 10 n).length)) := by
  have hdigit : ∀ c ∈ Nat.toDigits 10 n, c.isDigit = true := fun c => isDigit_of_mem_toDigits
  have htake : (Nat.toDigits 10 n).take point ≠ [] := by
    simp [Nat.toDigits_ne_nil, hpos.ne']
  have hdrop : (Nat.toDigits 10 n).drop point ≠ [] := by
    simpa using hlt
  refine ⟨⟨⟨(Nat.toDigits 10 n).take point, htake, fun c hc => hdigit c (List.mem_of_mem_take hc)⟩,
    some ⟨(Nat.toDigits 10 n).drop point, hdrop, fun c hc => hdigit c (List.mem_of_mem_drop hc)⟩,
    none, ?_⟩, ?_, ?_⟩
  · intro h
    rw [List.head?_take, if_neg hpos.ne'] at h
    exact absurd h (head?_toDigits_ne_zero hn)
  · simp [Spelling.chars, Spelling.pointed, Spelling.scaled]
  · simp only [Spelling.size, Spelling.fractionDigits, Spelling.power, List.take_append_drop,
      digitsValue_toDigits, List.length_drop]
    congr 2
    omega

/-- The digits of a number around a point, with zeros filled in. -/
theorem positional_writes (hd : 0 < d.digits) :
    Spelling.Writes (positional (Nat.toDigits 10 d.digits)
      ((Nat.toDigits 10 d.digits).length + d.exponent)).toList (d.digits * 10 ^ d.exponent) := by
  have htransfer {cs : List Char} {e : Int} (h : Spelling.Writes cs (d.digits * 10 ^ e))
      (he : e = d.exponent) : Spelling.Writes cs (d.digits * 10 ^ d.exponent) := he ▸ h
  unfold positional
  split_ifs with hzero hwhole
  · rw [String.toList_ofList]
    exact htransfer (writes_zeros_before _ _) (by omega)
  · rw [String.toList_ofList]
    exact htransfer (writes_zeros_after hd _) (by omega)
  · rw [String.toList_ofList]
    exact htransfer (writes_point_among hd (by omega) (by omega)) (by omega)

/-- A positive decimal is written as a literal that denotes it. -/
theorem decimal_writes (t : WrittenForm) (hd : 0 < d.digits) :
    Spelling.Writes (t.decimal d).toList (d.digits * 10 ^ d.exponent) := by
  unfold decimal
  dsimp only
  split
  · exact t.scientific_writes d
  · exact positional_writes hd

end WrittenForm

end Number
end SchemaBindings
