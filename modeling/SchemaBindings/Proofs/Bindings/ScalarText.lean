import SchemaBindings.Bindings.Mask
import SchemaBindings.Proofs.Text.Digits

namespace SchemaBindings.Bindings

open SchemaBindings.Text

/-- The pair that a text behind its opening bracket denotes. -/
def WordPair.read? (cs : List Char) : Option WordPair :=
  match cs.dropWhile (· != ',') with
  | ',' :: ' ' :: rest =>
    if rest.getLast? = some ']' then do
      let high ← readSigned? (cs.takeWhile (· != ','))
      let low ← readDigits? 10 rest.dropLast
      return ⟨high, low⟩
    else none
  | _ => none

/-- The scalar that a text denotes: a flag, a decimal integer or a pair of them. -/
def Scalar.read? (text : String) : Option Scalar :=
  if text = "true" then some (.flag true)
  else if text = "false" then some (.flag false)
  else match text.toList with
    | '[' :: cs => (WordPair.read? cs).map .words
    | cs => (readSigned? cs).map .number

/-- A decimal integer has digits in it, and a minus sign at most. -/
theorem signedDecimal_chars (i : Int) :
    ∀ c ∈ (signedDecimal i).toList, c = '-' ∨ c.isDigit = true := by
  cases i with
  | ofNat n =>
    rw [signedDecimal, decimal, String.toList_ofList]
    exact fun c hc => Or.inr (isDigit_of_mem_toDigits hc)
  | negSucc n =>
    rw [signedDecimal, decimal, String.toList_append, String.toList_ofList, String.toList_ofList]
    intro c hc
    rcases List.mem_append.1 hc with hc | hc
    · exact Or.inl (List.mem_singleton.1 hc)
    · exact Or.inr (isDigit_of_mem_toDigits hc)

theorem WordPair.read?_text (p : WordPair) :
    p.text.toList = '[' :: p.text.toList.tail ∧ WordPair.read? p.text.toList.tail = some p := by
  have htext : p.text.toList =
      '[' :: ((signedDecimal p.high).toList ++ ',' :: ' ' :: (Nat.toDigits 10 p.low ++ [']'])) := by
    simp [WordPair.text, decimal, String.toList_append]
  have hcomma : ∀ c ∈ (signedDecimal p.high).toList, (c != ',') = true := by
    intro c hc
    rw [bne_iff_ne]
    rintro rfl
    rcases signedDecimal_chars p.high _ hc with h | h
    · exact absurd h (by decide)
    · exact absurd h (by decide)
  rw [htext, List.tail_cons]
  refine ⟨rfl, ?_⟩
  rw [WordPair.read?, List.dropWhile_append_of_pos hcomma, List.takeWhile_append_of_pos hcomma]
  simp [readSigned?_signedDecimal, readDigits?_toDigits]

/-- A scalar can be read back from its text. -/
theorem Scalar.read?_text (v : Scalar) : Scalar.read? v.text = some v := by
  cases v with
  | flag value => cases value <;> rfl
  | number i =>
    have hchars := signedDecimal_chars i
    have hletter (word : String) (c : Char) (hc : c ∈ word.toList)
        (h : ¬(c = '-' ∨ c.isDigit = true)) : signedDecimal i ≠ word := by
      rintro rfl
      exact h (hchars c hc)
    have htrue := hletter "true" 't' (by decide) (by decide)
    have hfalse := hletter "false" 'f' (by decide) (by decide)
    rw [Scalar.text, Scalar.read?, if_neg htrue, if_neg hfalse]
    split
    next cs h =>
      rcases hchars '[' (h ▸ List.mem_cons_self) with h | h
      · exact absurd h (by decide)
      · exact absurd h (by decide)
    next => rw [readSigned?_signedDecimal, Option.map_some]
  | words p =>
    obtain ⟨hopen, hread⟩ := p.read?_text
    have htrue : p.text ≠ "true" := by
      intro h
      rw [h] at hopen
      exact absurd hopen (by decide)
    have hfalse : p.text ≠ "false" := by
      intro h
      rw [h] at hopen
      exact absurd hopen (by decide)
    rw [Scalar.text, Scalar.read?, if_neg htrue, if_neg hfalse, hopen]
    simp only [hread, Option.map_some]

end SchemaBindings.Bindings
