import SchemaBindings.Proofs.Outcome
import SchemaBindings.Text.Base64

namespace SchemaBindings.Text.Base64

open SchemaBindings.Outcome

def alphabet : List Char :=
  "ABCDEFGHIJKLMNOPQRSTUVWXYZabcdefghijklmnopqrstuvwxyz0123456789+/".toList

def isLetter (b : UInt8) : Bool :=
  alphabet.any fun c => c.toNat == b.toNat

/-- The bytes of a text that count: line breaks may stand anywhere. -/
def unbroken (bytes : List UInt8) : List UInt8 :=
  bytes.filter fun b => !isLineBreak b

/-- Bytes that complete a text of which `taken` letters have been read: letters, and then at most
two characters of padding up to a multiple of four. -/
def Completes (taken : Nat) (bytes : List UInt8) : Prop :=
  ∃ letters count, bytes = letters ++ List.replicate count padding ∧
    (∀ b ∈ letters, isLetter b = true) ∧ count ≤ 2 ∧ (taken + letters.length + count) % 4 = 0

/-- A text in groups of four letters, of which the last may be padded. -/
def IsValid (s : String) : Prop :=
  Completes 0 (unbroken s.toUTF8.toList)

theorem sextet?_isSome (b : UInt8) : (sextet? b).isSome = isLetter b := by
  have hall : ∀ n : Fin 256, (sextet? (.ofFin n)).isSome = isLetter (.ofFin n) := by
    decide +kernel
  exact hall b.toFin

theorem isLetter_padding : isLetter padding = false := by
  decide +kernel

theorem unbroken_cons (b : UInt8) (bs : List UInt8) :
    unbroken (b :: bs) = if isLineBreak b then unbroken bs else b :: unbroken bs := by
  unfold unbroken
  cases h : isLineBreak b <;> simp [h]

theorem completes_nil {taken : Nat} (h : taken < 4) : Completes taken [] ↔ taken = 0 := by
  constructor
  · rintro ⟨letters, count, heq, -, -, hmod⟩
    have hlength : (letters ++ List.replicate count padding).length = 0 := by rw [← heq]; rfl
    simp only [List.length_append, List.length_replicate] at hlength
    omega
  · intro hzero
    exact ⟨[], 0, by simp, by simp, by omega, by simp [hzero]⟩

theorem completes_letter {taken : Nat} {b : UInt8} {bs : List UInt8} (hb : isLetter b = true) :
    Completes taken (b :: bs) ↔ Completes (taken + 1) bs := by
  constructor
  · rintro ⟨letters, count, heq, hletters, hcount, hmod⟩
    cases letters with
    | nil =>
      -- the first byte would be padding
      cases count with
      | zero => cases heq
      | succ count =>
        rw [List.nil_append, List.replicate_succ, List.cons.injEq] at heq
        rw [heq.1, isLetter_padding] at hb
        cases hb
    | cons first letters =>
      rw [List.cons_append, List.cons.injEq] at heq
      simp only [List.length_cons] at hmod
      exact ⟨letters, count, heq.2, fun c hc => hletters c (List.mem_cons_of_mem _ hc), hcount,
        by omega⟩
  · rintro ⟨letters, count, rfl, hletters, hcount, hmod⟩
    refine ⟨b :: letters, count, rfl, ?_, hcount, by simp only [List.length_cons]; omega⟩
    intro c hc
    rcases List.mem_cons.1 hc with rfl | hc
    · exact hb
    · exact hletters c hc

theorem completes_padding {taken : Nat} {bs : List UInt8} (h : taken < 4) :
    Completes taken (padding :: bs) ↔ (taken = 2 ∧ bs = [padding]) ∨ (taken = 3 ∧ bs = []) := by
  constructor
  · rintro ⟨letters, count, heq, hletters, hcount, hmod⟩
    cases letters with
    | cons first letters =>
      rw [List.cons_append, List.cons.injEq] at heq
      have hfirst := hletters first List.mem_cons_self
      rw [← heq.1, isLetter_padding] at hfirst
      cases hfirst
    | nil =>
      have hbs : padding :: bs = List.replicate count padding := heq
      simp only [List.length_nil] at hmod
      have hcases : (taken = 2 ∧ count = 2) ∨ (taken = 3 ∧ count = 1) ∨ (taken = 0 ∧ count = 0) := by
        omega
      rcases hcases with ⟨htaken, rfl⟩ | ⟨htaken, rfl⟩ | ⟨-, rfl⟩
      · exact Or.inl ⟨htaken, (List.cons.inj hbs).2⟩
      · exact Or.inr ⟨htaken, (List.cons.inj hbs).2⟩
      · cases hbs
  · rintro (⟨rfl, rfl⟩ | ⟨rfl, rfl⟩)
    · exact ⟨[], 2, rfl, by simp, by omega, rfl⟩
    · exact ⟨[], 1, rfl, by simp, by omega, rfl⟩

theorem not_completes {taken : Nat} {b : UInt8} {bs : List UInt8} (hb : isLetter b = false)
    (hp : b ≠ padding) : ¬Completes taken (b :: bs) := by
  rintro ⟨letters, count, heq, hletters, -, -⟩
  have hmem : b ∈ letters ++ List.replicate count padding := by
    rw [← heq]
    exact List.mem_cons_self
  rcases List.mem_append.1 hmem with hmem | hmem
  · rw [hletters b hmem] at hb
    cases hb
  · exact hp (List.eq_of_mem_replicate hmem)

theorem completes_four (bytes : List UInt8) : Completes 4 bytes ↔ Completes 0 bytes := by
  have hmod : ∀ n, (4 + n) % 4 = (0 + n) % 4 := by omega
  simp only [Completes, Nat.add_assoc, hmod]

theorem finish_succeeds_iff (index : Nat) (bs : List UInt8) :
    (∃ u, finish index bs = .ok u) ↔ unbroken bs = [] := by
  induction bs generalizing index with
  | nil => simp [finish, unbroken]
  | cons b bs ih =>
    rw [finish, unbroken_cons]
    split_ifs with hb
    · exact ih (index + 1)
    · simp

theorem secondPadding_succeeds_iff (index : Nat) (bs : List UInt8) :
    (∃ u, secondPadding index bs = .ok u) ↔ unbroken bs = [padding] := by
  induction bs generalizing index with
  | nil => simp [secondPadding, unbroken]
  | cons b bs ih =>
    rw [secondPadding, unbroken_cons]
    split_ifs with hb hp
    · exact ih (index + 1)
    · rw [finish_succeeds_iff, hp]
      simp
    · simp [hp]

theorem decodeFrom_succeeds_iff (index : Nat) (group : List Nat) (bs : List UInt8)
    (hgroup : group.length < 4) :
    (∃ out, decodeFrom index group bs = .ok out) ↔ Completes group.length (unbroken bs) := by
  induction bs generalizing index group with
  | nil =>
    rw [decodeFrom, unbroken, List.filter_nil, completes_nil hgroup]
    cases group <;> simp
  | cons b bs ih =>
    rw [decodeFrom, unbroken_cons]
    cases hb : isLineBreak b with
    | true => exact ih (index + 1) group hgroup
    | false =>
      have hletter := sextet?_isSome b
      simp only [Bool.false_eq_true, if_false]
      cases hsextet : sextet? b with
      | some v =>
        rw [hsextet] at hletter
        rw [completes_letter hletter.symm]
        have hlength : (group ++ [v]).length = group.length + 1 := by simp
        dsimp only
        split_ifs with hfull
        · have hfour : group.length + 1 = 4 := by omega
          rw [hfour, completes_four, map_succeeds_iff]
          exact ih (index + 1) [] (by simp)
        · rw [ih (index + 1) (group ++ [v]) (by omega), hlength]
      | none =>
        rw [hsextet] at hletter
        dsimp only
        by_cases hp : b = padding
        · rw [hp, completes_padding hgroup, if_neg (by simp)]
          split
          next htwo =>
            rw [map_succeeds_iff, secondPadding_succeeds_iff, htwo]
            simp
          next hthree =>
            rw [map_succeeds_iff, finish_succeeds_iff, hthree]
            simp
          next htwo hthree =>
            have hnot : ¬((group.length = 2 ∧ unbroken bs = [padding]) ∨
                (group.length = 3 ∧ unbroken bs = [])) := by
              rintro (⟨h, -⟩ | ⟨h, -⟩)
              · exact htwo h
              · exact hthree h
            simp [hnot]
        · rw [if_pos hp]
          simpa using not_completes hletter.symm hp

/-- A text can be decoded exactly if it is valid. -/
theorem decode_succeeds_iff (s : String) : (∃ bytes, decode s = .ok bytes) ↔ IsValid s :=
  decodeFrom_succeeds_iff 0 [] _ (by simp)

end SchemaBindings.Text.Base64
