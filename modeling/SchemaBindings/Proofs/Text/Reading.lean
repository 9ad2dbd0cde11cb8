import Mathlib.Algebra.Ring.Int.Defs
import Mathlib.Algebra.Ring.Nat
import SchemaBindings.Proofs.Outcome
import SchemaBindings.Proofs.Text.Digits
import SchemaBindings.Text.Blank
import SchemaBindings.Text.Integer

namespace SchemaBindings.Text

open SchemaBindings.Number SchemaBindings.Outcome

/-- The pieces of a text between its blanks, without the empty ones. -/
def tokens (s : String) : List String :=
  ((s.toList.splitOnP isBlank).filter fun piece => !piece.isEmpty).map String.ofList

theorem wordsFrom_eq_filter (word cs : List Char) :
    wordsFrom word cs =
      (List.splitOnPPrepend isBlank cs word).filter fun piece => !piece.isEmpty := by
  induction cs generalizing word with
  | nil =>
    rw [wordsFrom, List.splitOnPPrepend_nil]
    cases word with
    | nil => rfl
    | cons c word => simp
  | cons c cs ih =>
    rw [wordsFrom, List.splitOnPPrepend_cons_eq_if, ih, ih, List.splitOnPPrepend_nil_right]
    by_cases hc : isBlank c = true
    · cases word with
      | nil => simp [hc]
      | cons d word => simp [hc]
    · simp [hc]

theorem words_eq_tokens (s : String) : words s = tokens s := by
  rw [words, tokens, wordsFrom_eq_filter, List.splitOnPPrepend_nil_right]

/-- A blank between two texts keeps their pieces apart. -/
theorem tokens_append (a b : String) : tokens (a ++ " " ++ b) = tokens a ++ tokens b := by
  have hchars : (a ++ " " ++ b).toList = a.toList ++ ' ' :: b.toList := by
    simp
  rw [tokens, hchars, List.splitOnP_append_cons _ _ (by decide : isBlank ' ' = true),
    List.filter_append, List.map_append]
  rfl

/-- Decimal digits with at most one sign before them, and the integer they stand for. -/
inductive WritesInteger : List Char → Int → Prop
  | plain {cs : List Char} {n : Nat} : readDigits? 10 cs = some n → WritesInteger cs n
  | plus {cs : List Char} {n : Nat} : readDigits? 10 cs = some n → WritesInteger ('+' :: cs) n
  | minus {cs : List Char} {n : Nat} : readDigits? 10 cs = some n → WritesInteger ('-' :: cs) (-n)

/-- One more decimal digit behind a number. -/
def pushDigit (n : Nat) (c : Char) : Option Nat := do
  let d ← digitValue? c
  if d < 10 then some (n * 10 + d) else none

theorem readDigits?_ten {cs : List Char} (h : cs ≠ []) :
    readDigits? 10 cs = cs.foldlM pushDigit 0 :=
  readDigits?_of_ne_nil h

theorem le_of_foldlM_pushDigit {cs : List Char} {n m : Nat} (h : cs.foldlM pushDigit n = some m) :
    n ≤ m := by
  induction cs generalizing n with
  | nil => exact Nat.le_of_eq (Option.some.inj h)
  | cons c cs ih =>
    rw [List.foldlM_cons] at h
    obtain ⟨next, hnext, hrest⟩ := Option.bind_eq_some_iff.1 h
    obtain ⟨d, -, hd⟩ := Option.bind_eq_some_iff.1 hnext
    have hle := ih hrest
    split at hd
    · cases hd
      omega
    · cases hd

/-- No number on the way is greater than the last one, so the bound on each is a bound on that. -/
theorem digitsFrom_eq_ok_iff {cs : List Char} {n m : Nat} (hn : n < 2 ^ 64) :
    digitsFrom 10 false n cs = .ok m ↔ cs.foldlM pushDigit n = some m ∧ m < 2 ^ 64 := by
  induction cs generalizing n with
  | nil =>
    rw [digitsFrom, List.foldlM_nil]
    constructor
    · rintro ⟨⟩
      exact ⟨rfl, hn⟩
    · rintro ⟨⟨⟩, -⟩
      rfl
  | cons c cs ih =>
    have hpow : twoPow 64 = 2 ^ 64 := rfl
    rw [digitsFrom, List.foldlM_cons, pushDigit, hpow]
    cases digitValue? c with
    | none => simp
    | some d =>
      simp only [Bool.false_and, Bool.false_eq_true, if_false, Option.bind_eq_bind,
        Option.bind_some]
      by_cases hd : 10 ≤ d
      · simp [if_pos hd, if_neg (Nat.not_lt.2 hd)]
      · rw [if_neg hd, if_pos (Nat.lt_of_not_le hd), Option.bind_some]
        by_cases hsize : 2 ^ 64 ≤ n * 10 + d
        · rw [if_pos hsize]
          refine iff_of_false nofun ?_
          rintro ⟨hm, hlt⟩
          have hle := le_of_foldlM_pushDigit hm
          omega
        · rw [if_neg hsize]
          exact ih (Nat.lt_of_not_le hsize)

theorem withSign_eq_ok_iff {negative : Bool} {n : Nat} {i : Int} :
    withSign negative n = .ok i ↔
      i = (if negative then -(n : Int) else n) ∧ -(2 ^ 63) ≤ i ∧ i < 2 ^ 63 := by
  have hpow : twoPow 63 = 2 ^ 63 := rfl
  rw [withSign, hpow]
  cases negative with
  | false =>
    by_cases hn : n < 2 ^ 63
    · simp only [Bool.false_eq_true, if_false, if_pos hn, Except.ok.injEq]
      omega
    · simp only [Bool.false_eq_true, if_false, if_neg hn, reduceCtorEq, false_iff]
      omega
  | true =>
    by_cases hn : n ≤ 2 ^ 63
    · simp only [if_true, if_pos hn, Except.ok.injEq]
      omega
    · simp only [if_true, if_neg hn, reduceCtorEq, false_iff]
      omega

theorem writesInteger_iff {cs : List Char} {i : Int} :
    WritesInteger cs i ↔ ∃ n, readDigits? 10 (splitSign cs).2 = some n ∧
      i = if (splitSign cs).1 then -(n : Int) else n := by
  constructor
  · rintro (⟨hread⟩ | ⟨hread⟩ | ⟨hread⟩)
    · -- a sign is no digit
      have hsplit : splitSign cs = (false, cs) := by
        refine splitSign.eq_3 cs ?_ ?_ <;> (rintro rest rfl; cases hread)
      rw [hsplit]
      exact ⟨_, hread, rfl⟩
    · exact ⟨_, hread, rfl⟩
    · exact ⟨_, hread, rfl⟩
  · rintro ⟨n, hread, rfl⟩
    unfold splitSign at hread ⊢
    split at hread
    · exact .minus hread
    · exact .plus hread
    · exact .plain hread

/-- The integers that are read are those of sixty-four bits. -/
theorem decimalInteger_eq_ok_iff {s : String} {i : Int} :
    decimalInteger s = .ok i ↔ WritesInteger s.toList i ∧ -(2 ^ 63) ≤ i ∧ i < 2 ^ 63 := by
  rw [decimalInteger, writesInteger_iff]
  generalize splitSign s.toList = signed
  obtain ⟨negative, cs⟩ := signed
  cases cs with
  | nil => simp [readDigits?, bind, Except.bind]
  | cons c cs =>
    rw [readDigits?_ten (List.cons_ne_nil c cs)]
    change digitsFrom 10 false 0 (c :: cs) >>= withSign negative = .ok i ↔ _
    rw [bind_eq_ok_iff]
    simp only [digitsFrom_eq_ok_iff (by decide : 0 < 2 ^ 64), withSign_eq_ok_iff]
    constructor
    · rintro ⟨n, ⟨hn, -⟩, hi, hrange⟩
      exact ⟨⟨n, hn, hi⟩, hrange⟩
    · rintro ⟨⟨n, hn, hi⟩, hrange⟩
      refine ⟨n, ⟨hn, ?_⟩, hi, hrange⟩
      cases negative <;> simp at hi <;> omega

/-- The words for a truth value. -/
def WritesFlag (s : String) : Bool → Prop
  | true => s ∈ ["1", "t", "T", "TRUE", "true", "True"]
  | false => s ∈ ["0", "f", "F", "FALSE", "false", "False"]

theorem readFlag?_eq_some_iff {s : String} {b : Bool} :
    readFlag? s = some b ↔ WritesFlag s b := by
  have hapart : ∀ word ∈ ["1", "t", "T", "TRUE", "true", "True"],
      word ∉ ["0", "f", "F", "FALSE", "false", "False"] := by decide
  rw [readFlag?]
  simp only [List.contains_iff_mem]
  by_cases htrue : s ∈ ["1", "t", "T", "TRUE", "true", "True"]
  · rw [if_pos htrue]
    cases b with
    | true => exact iff_of_true rfl htrue
    | false => exact iff_of_false nofun (hapart s htrue)
  · rw [if_neg htrue]
    by_cases hfalse : s ∈ ["0", "f", "F", "FALSE", "false", "False"]
    · rw [if_pos hfalse]
      cases b with
      | true => exact iff_of_false nofun htrue
      | false => exact iff_of_true rfl hfalse
    · rw [if_neg hfalse]
      cases b with
      | true => exact iff_of_false nofun htrue
      | false => exact iff_of_false nofun hfalse

end SchemaBindings.Text
