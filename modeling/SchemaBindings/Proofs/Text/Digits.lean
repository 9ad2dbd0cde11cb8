import SchemaBindings.Text.Digits

namespace SchemaBindings.Text

theorem digitValue?_digitChar : ∀ d < 16, digitValue? (Nat.digitChar d) = some d := by
  decide

theorem exists_digitChar_of_mem_toDigits {base n : Nat} (hl : 1 < base) {c : Char}
    (hc : c ∈ Nat.toDigits base n) : ∃ d < base, c = Nat.digitChar d := by
  induction n using Nat.strongRecOn with
  | ind n ih =>
    rw [Nat.toDigits_eq_if hl] at hc
    split at hc
    next hn => exact ⟨n, hn, List.mem_singleton.1 hc⟩
    next hn =>
      rcases List.mem_append.1 hc with hc | hc
      · exact ih _ (Nat.div_lt_self (by omega) hl) hc
      · exact ⟨n % base, Nat.mod_lt n (by omega), List.mem_singleton.1 hc⟩

theorem readDigits?_of_ne_nil {base : Nat} {cs : List Char} (h : cs ≠ []) :
    readDigits? base cs = cs.foldlM (fun n c => do
      let d ← digitValue? c
      if d < base then some (n * base + d) else none) 0 := by
  cases cs with
  | nil => exact absurd rfl h
  | cons c cs => rfl

/-- Digits read back as the number they were written for. -/
theorem readDigits?_toDigits {base : Nat} (hl : 1 < base) (hr : base ≤ 16) (n : Nat) :
    readDigits? base (Nat.toDigits base n) = some n := by
  rw [readDigits?_of_ne_nil Nat.toDigits_ne_nil]
  induction n using Nat.strongRecOn with
  | ind n ih =>
    rw [Nat.toDigits_eq_if hl]
    by_cases hn : n < base
    · rw [if_pos hn]
      have hvalue := digitValue?_digitChar n (by omega)
      simp [hvalue, hn]
    · rw [if_neg hn]
      have hdiv : n / base < n := Nat.div_lt_self (by omega) hl
      have hmod : n % base < base := Nat.mod_lt n (by omega)
      have hvalue := digitValue?_digitChar (n % base) (by omega)
      rw [List.foldlM_append, ih (n / base) hdiv]
      simp [hvalue, hmod, Nat.div_add_mod']

theorem isDigit_of_mem_toDigits {n : Nat} {c : Char} (h : c ∈ Nat.toDigits 10 n) :
    c.isDigit = true :=
  Nat.isDigit_of_mem_toDigits (by decide) (by decide) h

/-- The integer that digits denote, with or without a minus sign before them. -/
def readSigned? : List Char → Option Int
  | '-' :: cs => (readDigits? 10 cs).map fun n : Nat => -(n : Int)
  | cs => (readDigits? 10 cs).map Int.ofNat

theorem readSigned?_signedDecimal (i : Int) : readSigned? (signedDecimal i).toList = some i := by
  have hread (n : Nat) : readDigits? 10 (Nat.toDigits 10 n) = some n :=
    readDigits?_toDigits (by decide) (by decide) n
  cases i with
  | ofNat n =>
    have hsign : ∀ cs, Nat.toDigits 10 n ≠ '-' :: cs := by
      intro cs h
      have hmem : '-' ∈ Nat.toDigits 10 n := h ▸ List.mem_cons_self
      exact absurd (isDigit_of_mem_toDigits hmem) (by decide)
    rw [signedDecimal, decimal, String.toList_ofList, readSigned?.eq_2 _ hsign, hread]
    rfl
  | negSucc n =>
    have htext : (signedDecimal (.negSucc n)).toList = '-' :: Nat.toDigits 10 (n + 1) := by
      rw [signedDecimal, decimal, String.toList_append, String.toList_ofList, String.toList_ofList]
      rfl
    rw [htext, readSigned?.eq_1, hread]
    rfl

/-- Zeros in front of the digits do not change the number. -/
theorem readDigits?_hexPadded (width n : Nat) :
    readDigits? 16 (hexPadded width n).toList = some n := by
  have hzeros (k : Nat) : (List.replicate k '0').foldlM (fun n c => do
      let d ← digitValue? c
      if d < 16 then some (n * 16 + d) else none) 0 = some 0 := by
    induction k with
    | zero => rfl
    | succ k ih => exact ih
  have hread : readDigits? 16 (Nat.toDigits 16 n) = some n :=
    readDigits?_toDigits (by decide) (by decide) n
  rw [readDigits?_of_ne_nil Nat.toDigits_ne_nil] at hread
  rw [hexPadded, String.toList_ofList, readDigits?_of_ne_nil (by simp [Nat.toDigits_ne_nil]),
    List.foldlM_append, hzeros]
  exact hread

theorem length_hexPadded {width n : Nat} (h : (Nat.toDigits 16 n).length ≤ width) :
    (hexPadded width n).toList.length = width := by
  rw [hexPadded, String.toList_ofList, List.length_append, List.length_replicate]
  omega

theorem exists_digitChar_of_mem_hexPadded {width n : Nat} {c : Char}
    (h : c ∈ (hexPadded width n).toList) : ∃ d < 16, c = Nat.digitChar d := by
  rw [hexPadded, String.toList_ofList] at h
  rcases List.mem_append.1 h with h | h
  · exact ⟨0, by decide, List.eq_of_mem_replicate h⟩
  · exact exists_digitChar_of_mem_toDigits (by decide) h

end SchemaBindings.Text
