import SchemaBindings.Proofs.Text.Brackets

namespace SchemaBindings.Text

/-- The units of sixteen bits for a code point: the code point itself, or a pair of surrogates. -/
def units (point : Nat) : List Nat :=
  if point < 0x10000 then [point]
  else [0xd800 + (point - 0x10000) / 0x400, 0xdc00 + (point - 0x10000) % 0x400]

/-- The units of a text. -/
def textUnits (text : String) : List Nat :=
  text.toList.flatMap fun c => units c.toNat

/-- How far a literal has been read. `escape` is behind a backslash, `code` behind a backslash and a
letter u, `digits` before so many more digits than one, `braced` between braces, `zero` behind an
escaped zero, and `lineBreak` behind an escaped carriage return. -/
inductive LiteralState where
  | text
  | escape
  | code
  | digits (more value : Nat)
  | braced (value? : Option Nat)
  | zero
  | lineBreak
  deriving DecidableEq, Repr

namespace LiteralState

/-- Reads a character that is not part of an escape. There is no state behind the closing quote. -/
def stepText (c : Char) : Option (List Nat × Option LiteralState) :=
  if c = '"' then some ([], none)
  else if c = '\\' then some ([], some escape)
  else if isLineBreak c then none
  else some (units c.toNat, some text)

def stepDigit (more value : Nat) (c : Char) : Option (List Nat × Option LiteralState) := do
  let d ← digitValue? c
  match more with
  | 0 => some ([value * 16 + d], some text)
  | more + 1 => some ([], some (digits more (value * 16 + d)))

/-- Reads the character behind a backslash. One that means nothing there stands for itself. Digits
other than a single zero are refused. -/
def stepEscape (c : Char) : Option (List Nat × Option LiteralState) :=
  if c = 'b' then some ([8], some text)
  else if c = 't' then some ([9], some text)
  else if c = 'n' then some ([10], some text)
  else if c = 'v' then some ([11], some text)
  else if c = 'f' then some ([12], some text)
  else if c = 'r' then some ([13], some text)
  else if c = 'x' then some ([], some (digits 1 0))
  else if c = 'u' then some ([], some code)
  else if c = '0' then some ([], some zero)
  else if c = '\r' then some ([], some lineBreak)
  else if isLineBreak c then some ([], some text)
  else if c.isDigit then none
  else some (units c.toNat, some text)

def stepBraced (value? : Option Nat) (c : Char) : Option (List Nat × Option LiteralState) :=
  if c = '\x7d' then
    match value? with
    | none => none
    | some value => if value ≤ 0x10ffff then some (units value, some text) else none
  else (digitValue? c).map fun d => ([], some (braced (some (value?.getD 0 * 16 + d))))

/-- Reads a character: the units that are then complete, and how the literal goes on. -/
def step : LiteralState → Char → Option (List Nat × Option LiteralState)
  | text, c => stepText c
  | escape, c => stepEscape c
  | code, c => if c = '\x7b' then some ([], some (braced none)) else stepDigit 3 0 c
  | digits more value, c => stepDigit more value c
  | braced value?, c => stepBraced value? c
  | zero, c => if c.isDigit then none else (stepText c).map fun r => (0 :: r.1, r.2)
  | lineBreak, c => if c = '\n' then some ([], some text) else stepText c

/-- Reads up to the closing quote: the units of the literal, and what stands behind it. -/
def scan : LiteralState → List Char → Option (List Nat × List Char)
  | _, [] => none
  | s, c :: cs =>
    match s.step c with
    | none => none
    | some (us, none) => some (us, cs)
    | some (us, some s') => (s'.scan cs).map fun r => (us ++ r.1, r.2)

end LiteralState

/-- Reads a literal between double quotes. -/
def literal? : List Char → Option (List Nat × List Char)
  | '"' :: cs => LiteralState.text.scan cs
  | _ => none

/-- A literal denotes a text. -/
def Denotes (literal text : String) : Prop :=
  literal? literal.toList = some (textUnits text, [])

instance (literal text : String) : Decidable (Denotes literal text) :=
  inferInstanceAs (Decidable (_ = _))

example : Denotes "\"a\\u00e9\\x41\\n\\\\\\\"\"" "aéA\n\\\"" := by decide
example : Denotes "\"\\ud83d\\ude00\"" "😀" := by decide
example : Denotes "\"\\u\x7b1f600\x7d\"" "😀" := by decide
example : literal? "\"\\08\"".toList = none := by decide

/-- The literals of a list, with a comma and a blank between them. -/
inductive LiteralList : List Char → List (List Nat) → Prop where
  | empty : LiteralList [] []
  | last {cs : List Char} {us : List Nat} (h : literal? cs = some (us, [])) : LiteralList cs [us]
  | cons {cs rest : List Char} {us : List Nat} {uss : List (List Nat)}
      (h : literal? cs = some (us, ',' :: ' ' :: rest)) (hrest : LiteralList rest uss)
      (hne : uss ≠ []) : LiteralList cs (us :: uss)

/-- The elements of a list of literals denote texts. -/
def DenotesAll (literals : String) (texts : List String) : Prop :=
  LiteralList literals.toList (texts.map textUnits)

theorem LiteralList.unique {cs : List Char} {uss vss : List (List Nat)} (h : LiteralList cs uss)
    (h' : LiteralList cs vss) : uss = vss := by
  induction h generalizing vss with
  | empty =>
    cases h' with
    | empty => rfl
    | last h' | cons h' => cases h'
  | last h =>
    cases h' with
    | empty => cases h
    | last h' =>
      cases h.symm.trans h'
      rfl
    | cons h' => cases h.symm.trans h'
  | cons h hrest hne ih =>
    cases h' with
    | empty => cases h
    | last h' => cases h.symm.trans h'
    | cons h' hrest' hne' =>
      cases h.symm.trans h'
      rw [ih hrest']

namespace LiteralState

variable {s s' t : LiteralState} {cs ds : List Char} {us vs : List Nat} {c : Char}

/-- Characters lead from one state to another, whatever follows them, and complete some units. -/
def Yields (s : LiteralState) (cs : List Char) (us : List Nat) (s' : LiteralState) : Prop :=
  ∀ rest, s.scan (cs ++ rest) = (s'.scan rest).map fun r => (us ++ r.1, r.2)

theorem Yields.nil : Yields s [] [] s := by
  intro rest
  cases hrest : s.scan rest with
  | none => simp [hrest]
  | some r => simp [hrest]

theorem Yields.append (h : Yields s cs us s') (h' : Yields s' ds vs t) :
    Yields s (cs ++ ds) (us ++ vs) t := by
  intro rest
  rw [List.append_assoc, h, h', Option.map_map]
  congr 1
  funext r
  simp [List.append_assoc]

theorem Yields.of_step (h : s.step c = some (us, some s')) : Yields s [c] us s' := by
  intro rest
  rw [List.singleton_append, scan, h]

/-- Digits complete one unit, which has the number they denote. -/
theorem yields_digits {more value n : Nat} (hl : cs.length = more + 1)
    (h : cs.foldlM (fun n c => do
      let d ← digitValue? c
      if d < 16 then some (n * 16 + d) else none) value = some n) :
    Yields (.digits more value) cs [n] .text := by
  induction cs generalizing more value with
  | nil => cases hl
  | cons c cs ih =>
    rw [List.foldlM_cons] at h
    obtain ⟨m, hm, h⟩ := Option.bind_eq_some_iff.1 h
    obtain ⟨d, hd, hm⟩ := Option.bind_eq_some_iff.1 hm
    obtain ⟨-, rfl⟩ : d < 16 ∧ value * 16 + d = m := by simpa using hm
    cases more with
    | zero =>
      have hcs : cs = [] := List.length_eq_zero_iff.1 (by simpa using hl)
      subst hcs
      obtain rfl : value * 16 + d = n := by simpa using h
      apply Yields.of_step
      simp [step, stepDigit, hd]
    | succ more =>
      have hfirst : Yields (.digits (more + 1) value) [c] [] (.digits more (value * 16 + d)) := by
        apply Yields.of_step
        simp [step, stepDigit, hd]
      exact hfirst.append (ih (by simpa using hl) h)

theorem yields_hexPadded {more n : Nat} (h : (Nat.toDigits 16 n).length ≤ more + 1) :
    Yields (.digits more 0) (hexPadded (more + 1) n).toList [n] .text := by
  have hlength := length_hexPadded h
  have hread := readDigits?_hexPadded (more + 1) n
  rw [readDigits?_of_ne_nil (List.ne_nil_of_length_pos (by omega))] at hread
  exact yields_digits hlength hread

/-- Behind the letter u, four digits are read as everywhere else. -/
theorem yields_code {n : Nat} (h : (Nat.toDigits 16 n).length ≤ 4) :
    Yields .code (hexPadded 4 n).toList [n] .text := by
  have hdigits : Yields (.digits 3 0) (hexPadded 4 n).toList [n] .text := yields_hexPadded h
  have hlength := length_hexPadded h
  have hbrace : ∀ c ∈ (hexPadded 4 n).toList, c ≠ '\x7b' := by
    intro c hc
    obtain ⟨d, hd, rfl⟩ := exists_digitChar_of_mem_hexPadded hc
    have hall : ∀ d < 16, Nat.digitChar d ≠ '\x7b' := by decide
    exact hall d hd
  generalize (hexPadded 4 n).toList = cs at *
  cases cs with
  | nil => cases hlength
  | cons c cs =>
    intro rest
    have hstep : step .code c = step (.digits 3 0) c := if_neg (hbrace c List.mem_cons_self)
    rw [← hdigits rest, List.cons_append, scan, scan, hstep]

/-- Characters outside of escapes stand for themselves. -/
theorem yields_plain (h : ∀ c ∈ cs, c ≠ '"' ∧ c ≠ '\\' ∧ isLineBreak c = false) :
    Yields .text cs (cs.flatMap fun c => units c.toNat) .text := by
  induction cs with
  | nil => exact .nil
  | cons c cs ih =>
    rw [List.forall_mem_cons] at h
    have hfirst : Yields .text [c] (units c.toNat) .text := by
      apply Yields.of_step
      simp [step, stepText, h.1]
    rw [List.flatMap_cons]
    exact hfirst.append (ih h.2)

end LiteralState

theorem units_of_lt {n : Nat} (h : n < 0x10000) : units n = [n] :=
  if_pos h

/-- The characters that quoting keeps: all but the bell and those outside the basic plane that show
no glyph. -/
def isKept (c : Char) : Bool :=
  c.toNat != 7 && (decide (c.toNat < 0x10000) || isPrintable c)

def KeptText (text : String) : Prop :=
  ∀ c ∈ text.toList, isKept c = true

/-- What the literal of a text denotes in place of a character. The bell becomes a letter, and a
number of eight digits is read as the text that it is. -/
def quotedUnits (c : Char) : List Nat :=
  if isKept c then units c.toNat
  else if c.toNat = 7 then textUnits "a"
  else textUnits ("U" ++ hexPadded 8 c.toNat)

set_option maxRecDepth 4000 in
theorem le_toNat_of_isPrintable {c : Char} (h : isPrintable c = true) : 32 ≤ c.toNat := by
  have hleast : printableRanges.all (fun r => decide (32 ≤ r.1)) = true := rfl
  obtain ⟨r, hr, hc⟩ := List.any_eq_true.1 h
  have hr := List.all_eq_true.1 hleast r hr
  simp only [Bool.and_eq_true, decide_eq_true_eq] at hc hr
  omega

open LiteralState in
/-- A character between quotes is read as what it becomes. -/
theorem yields_quotedChar (c : Char) : Yields .text (quotedChar c).toList (quotedUnits c) .text := by
  have hbackslash : Yields .text ['\\'] [] .escape := .of_step rfl
  have hescape {e : Char} {us : List Nat} (h : step .escape e = some (us, some .text)) :
      Yields .text ['\\', e] us .text :=
    hbackslash.append (.of_step h)
  have hkept (h7 : c.toNat ≠ 7) (hlt : c.toNat < 0x10000) : quotedUnits c = [c.toNat] := by
    have hk : isKept c = true := by simp [isKept, h7, hlt]
    rw [quotedUnits, if_pos hk, units_of_lt hlt]
  unfold quotedChar
  split_ifs with hquote hback hprint
  · subst hquote
    exact hescape rfl
  · subst hback
    exact hescape rfl
  · -- a character with a glyph stands for itself
    have h32 := le_toNat_of_isPrintable hprint
    have hk : isKept c = true := by
      have h7 : c.toNat ≠ 7 := by omega
      simp [isKept, h7, hprint]
    rw [quotedUnits, if_pos hk, String.toList_singleton]
    apply Yields.of_step
    simp [step, stepText, hquote, hback, isLineBreak_of_isPrintable hprint]
  · split
    next h =>
      have hk : isKept c = false := by simp [isKept, h]
      rw [quotedUnits, hk, if_neg (by decide), if_pos h]
      exact hescape rfl
    iterate 6
      next h =>
        rw [hkept (by omega) (by omega), h]
        exact hescape rfl
    next h7 _ _ _ _ _ _ =>
      split_ifs with hcontrol hbasic
      · have hdigits : (Nat.toDigits 16 c.toNat).length ≤ 2 :=
          (Nat.length_toDigits_le_iff (by decide) (by decide)).2 (by omega)
        rw [hkept h7 (by omega), String.toList_append]
        have hx : Yields .text ['\\', 'x'] [] (.digits 1 0) := hbackslash.append (.of_step rfl)
        exact hx.append (yields_hexPadded hdigits)
      · have hdigits : (Nat.toDigits 16 c.toNat).length ≤ 4 :=
          (Nat.length_toDigits_le_iff (by decide) (by decide)).2 (by omega)
        rw [hkept h7 hbasic, String.toList_append]
        have hu : Yields .text ['\\', 'u'] [] .code := hbackslash.append (.of_step rfl)
        exact hu.append (yields_code hdigits)
      · -- a capital u means nothing behind a backslash, so the digits are text
        have hk : isKept c = false := by simp [isKept, hbasic, hprint]
        rw [quotedUnits, hk, if_neg (by decide), if_neg h7, String.toList_append, textUnits,
          String.toList_append, List.flatMap_append]
        refine Yields.append (hescape rfl) (yields_plain fun d hd => ?_)
        obtain ⟨n, hn, rfl⟩ := exists_digitChar_of_mem_hexPadded hd
        have hall : ∀ n < 16, Nat.digitChar n ≠ '"' ∧ Nat.digitChar n ≠ '\\' ∧
            isLineBreak (Nat.digitChar n) = false := by decide
        exact hall n hn

/-- What the literal of a text denotes, and what stands behind it. -/
theorem literal?_quote (text : String) (rest : List Char) :
    literal? ((quote text).toList ++ rest) = some (text.toList.flatMap quotedUnits, rest) := by
  have hchars (cs : List Char) : LiteralState.Yields .text (String.join (cs.map quotedChar)).toList
      (cs.flatMap quotedUnits) .text := by
    induction cs with
    | nil => exact .nil
    | cons c cs ih =>
      rw [List.map_cons, String.join_cons, String.toList_append, List.flatMap_cons]
      exact (yields_quotedChar c).append ih
  have htext : (quote text).toList ++ rest =
      '"' :: ((String.join (text.toList.map quotedChar)).toList ++ '"' :: rest) := by
    simp [quote, String.toList_append]
  have hclose : LiteralState.text.scan ('"' :: rest) = some ([], rest) := rfl
  rw [htext, literal?, hchars, hclose]
  simp

/-- What a character becomes that quoting does not keep begins differently. -/
theorem quotedUnits_append_ne {c : Char} (h : isKept c = false) (us vs : List Nat) :
    quotedUnits c ++ us ≠ units c.toNat ++ vs := by
  intro heq
  have hnot : ¬ isKept c = true := by simp [h]
  by_cases h7 : c.toNat = 7
  · have hquoted : quotedUnits c = [97] := by
      rw [quotedUnits, if_neg hnot, if_pos h7]
      rfl
    rw [hquoted, h7] at heq
    have hhead : 97 = 7 := (List.cons.inj heq).1
    omega
  · have hquoted : quotedUnits c = 85 :: textUnits (hexPadded 8 c.toNat) := by
      rw [quotedUnits, if_neg hnot, if_neg h7, textUnits, String.toList_append]
      rfl
    have hlarge : ¬ c.toNat < 0x10000 := by
      intro hlt
      simp [isKept, h7, hlt] at h
    rw [hquoted, units, if_neg hlarge] at heq
    have hhead : 85 = 0xd800 + (c.toNat - 0x10000) / 0x400 := (List.cons.inj heq).1
    omega

theorem flatMap_quotedUnits_eq_iff (text : String) :
    text.toList.flatMap quotedUnits = textUnits text ↔ KeptText text := by
  unfold textUnits KeptText
  induction text.toList with
  | nil => simp
  | cons c cs ih =>
    rw [List.flatMap_cons, List.flatMap_cons, List.forall_mem_cons]
    by_cases hk : isKept c = true
    · rw [quotedUnits, if_pos hk, List.append_cancel_left_eq]
      simpa [hk] using ih
    · have hne := quotedUnits_append_ne (Bool.eq_false_iff.2 hk) (cs.flatMap quotedUnits)
        (cs.flatMap fun c => units c.toNat)
      simp [hk, hne]

/-- A literal denotes the text that it is written for just if quoting keeps its characters. -/
theorem denotes_quote_iff (text : String) : Denotes (quote text) text ↔ KeptText text := by
  have hread := literal?_quote text []
  rw [List.append_nil] at hread
  rw [Denotes, hread, ← flatMap_quotedUnits_eq_iff]
  simp

end SchemaBindings.Text
