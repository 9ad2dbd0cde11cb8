import SchemaBindings.Document.Json
import SchemaBindings.Proofs.Number.Spelling

namespace SchemaBindings.Document.Json

open SchemaBindings.Number

/-- How characters may be spelled between quotes: as they are, by a letter behind a backslash, by
the number of a unit, or by the numbers of two units. -/
inductive Spelled : List Char → List Char → Prop where
  | nil : Spelled [] []
  | plain {c : Char} {cs s : List Char} (hquote : c ≠ '"') (hback : c ≠ '\\') (hc : 32 ≤ c.toNat)
      (h : Spelled cs s) : Spelled (c :: cs) (c :: s)
  | letter {e c : Char} {cs s : List Char} (he : escaped? e = some c) (h : Spelled cs s) :
      Spelled ('\\' :: e :: cs) (c :: s)
  | unit {a b c d : Char} {n : Nat} {cs s : List Char} (hn : codeUnit? a b c d = some n)
      (hv : n.isValidChar) (h : Spelled cs s) :
      Spelled ('\\' :: 'u' :: a :: b :: c :: d :: cs) (Char.ofNat n :: s)
  | pair {a b c d a' b' c' d' : Char} {n n' : Nat} {cs s : List Char}
      (hn : codeUnit? a b c d = some n) (hhigh : isHighSurrogate n = true)
      (hn' : codeUnit? a' b' c' d' = some n') (hlow : isLowSurrogate n' = true)
      (h : Spelled cs s) :
      Spelled ('\\' :: 'u' :: a :: b :: c :: d :: '\\' :: 'u' :: a' :: b' :: c' :: d' :: cs)
        (Char.ofNat (0x10000 + (n - 0xd800) * 0x400 + (n' - 0xdc00)) :: s)

theorem textFrom_plain {c : Char} (hquote : c ≠ '"') (hback : c ≠ '\\') (hc : 32 ≤ c.toNat)
    (high : Option Nat) (done cs : List Char) :
    textFrom high done (c :: cs) = textFrom none (c :: done) cs := by
  have hzero : c ≠ '\x00' := by
    rintro rfl
    cases hc
  rw [textFrom.eq_def]
  split
  all_goals simp_all

theorem textFrom_letter {e c : Char} (he : escaped? e = some c) (high : Option Nat)
    (done cs : List Char) :
    textFrom high done ('\\' :: e :: cs) = textFrom none (c :: done) cs := by
  unfold escaped? at he
  split at he
  all_goals first | (cases he; rfl) | cases he

theorem textFrom_unit {a b c d : Char} {n : Nat} (hn : codeUnit? a b c d = some n)
    (high : Option Nat) (done cs : List Char) :
    textFrom high done ('\\' :: 'u' :: a :: b :: c :: d :: cs) =
      textFrom (addUnit high done n).1 (addUnit high done n).2 cs := by
  rw [textFrom, hn]
  rfl

theorem not_isHighSurrogate {n : Nat} (hv : n.isValidChar) : isHighSurrogate n = false := by
  have hrange : n < 0xd800 ∨ 0xdfff < n ∧ n < 0x110000 := hv
  simp only [isHighSurrogate, Bool.and_eq_false_iff, decide_eq_false_iff_not]
  omega

/-- A text is read from whatever it is spelled as. -/
theorem textFrom_spelled {cs s : List Char} (h : Spelled cs s) (done rest : List Char) :
    textFrom none done (cs ++ '"' :: rest) = some (String.ofList (done.reverse ++ s), rest) := by
  induction h generalizing done with
  | nil => simp [textFrom]
  | plain hquote hback hc h ih =>
    rw [List.cons_append, textFrom_plain hquote hback hc, ih]
    simp
  | letter he h ih =>
    rw [List.cons_append, List.cons_append, textFrom_letter he, ih]
    simp
  | @unit a b c d n cs s hn hv h ih =>
    have hadd : addUnit none done n = (none, Char.ofNat n :: done) := by
      simp [addUnit, not_isHighSurrogate hv, unitChar, hv]
    simp only [List.cons_append]
    rw [textFrom_unit hn, hadd, ih]
    simp
  | @pair a b c d a' b' c' d' n n' cs s hn hhigh hn' hlow h ih =>
    have hfirst : addUnit none done n = (some n, unitChar n :: done) := by
      simp [addUnit, hhigh]
    have hsecond : addUnit (some n) (unitChar n :: done) n' =
        (none, Char.ofNat (0x10000 + (n - 0xd800) * 0x400 + (n' - 0xdc00)) :: done) := by
      simp [addUnit, hlow]
    simp only [List.cons_append]
    rw [textFrom_unit hn, hfirst, textFrom_unit hn', hsecond, ih]
    simp

theorem text?_spelled {cs : List Char} {s : String} (h : Spelled cs s.toList) (rest : List Char) :
    text? (cs ++ '"' :: rest) = some (s, rest) := by
  rw [text?, textFrom_spelled h]
  simp

/-- How texts and numbers are lettered: the characters between the quotes, and the literal of a
number that is not written as an integer. -/
structure Lettering where
  body : String → List Char
  spelled : ∀ s, Spelled (body s) s.toList
  real : Numeral → List Char
  writes : ∀ n, Spelling.Writes (real n) n.size

namespace Lettering

variable (w : Lettering)

def quoted (s : String) : List Char :=
  '"' :: (w.body s ++ ['"'])

def number (n : Numeral) : List Char :=
  let digits := if n.plain then Nat.toDigits 10 n.coefficient else w.real n
  if n.negative then '-' :: digits else digits

/-- The text of a scalar. There is none for an infinity or a NaN. -/
def scalar : Scalar → List Char
  | .null | .special .. => "null".toList
  | .flag value _ => if value then "true".toList else "false".toList
  | .number n _ => w.number n
  | .text s => w.quoted s

mutual

/-- The text of a tree, without blanks. -/
def write : Tree → List Char
  | .scalar s => w.scalar s
  | .list [] => "[]".toList
  | .list (t :: ts) => '[' :: (write t ++ writeItems ts)
  | .record [] => "\x7b\x7d".toList
  | .record ((name, t) :: ms) => '\x7b' :: (w.quoted name ++ ':' :: (write t ++ writeMembers ms))

/-- What follows the first item of a list. -/
def writeItems : List Tree → List Char
  | [] => [']']
  | t :: ts => ',' :: (write t ++ writeItems ts)

/-- What follows the first member of a record. -/
def writeMembers : List (String × Tree) → List Char
  | [] => ['\x7d']
  | (name, t) :: ms => ',' :: (w.quoted name ++ ':' :: (write t ++ writeMembers ms))

end

/-- What the text of a scalar is read as. -/
def readScalar : Scalar → Scalar
  | .null | .special .. => .null
  | .flag value _ => if value then .flag true "true" else .flag false "false"
  | .number n source => ((readNumeral? (w.number n)).map fun n' =>
      Scalar.number n' (String.ofList (w.number n))).getD (.number n source)
  | .text s => .text s

mutual

/-- What the text of a tree is read as. -/
def reread : Tree → Tree
  | .scalar s => .scalar (w.readScalar s)
  | .list ts => .list (rereadItems ts)
  | .record ms => .record (rereadMembers ms)

def rereadItems : List Tree → List Tree
  | [] => []
  | t :: ts => reread t :: rereadItems ts

def rereadMembers : List (String × Tree) → List (String × Tree)
  | [] => []
  | (name, t) :: ms => (name, reread t) :: rereadMembers ms

end

variable {w}

theorem exists_spelling_number (n : Numeral) :
    ∃ s : Spelling, w.number n = (if n.negative then '-' :: s.chars else s.chars) ∧
      (n.plain = false → s.size = n.size) := by
  unfold number
  cases hplain : n.plain with
  | true =>
    refine ⟨.ofNat n.coefficient, ?_, nofun⟩
    simp [Spelling.chars_ofNat]
  | false =>
    obtain ⟨s, hs, hsize⟩ := w.writes n
    refine ⟨s, ?_, fun _ => hsize⟩
    simp [hs]

theorem isNumberChar_of_isDigit {c : Char} (h : c.isDigit = true) : isNumberChar c = true := by
  simp [isNumberChar, h]

theorem isNumberChar_of_mem_chars {s : Spelling} {c : Char} (h : c ∈ s.chars) :
    isNumberChar c = true := by
  have hrun {r : DigitRun} (h : c ∈ r.chars) : isNumberChar c = true :=
    isNumberChar_of_isDigit (r.digits c h)
  rw [Spelling.chars, List.mem_append, List.mem_append] at h
  rcases h with h | h | h
  · exact hrun h
  · unfold Spelling.pointed at h
    split at h
    · cases h
    · rcases List.mem_cons.1 h with rfl | h
      · rfl
      · exact hrun h
  · unfold Spelling.scaled at h
    split at h
    · cases h
    next e _ =>
      rcases List.mem_cons.1 h with rfl | h
      · rfl
      rcases List.mem_cons.1 h with rfl | h
      · cases e.1 <;> rfl
      · exact hrun h

theorem exists_chars_eq_cons (s : Spelling) :
    ∃ c cs, s.chars = c :: cs ∧ c.isDigit = true := by
  cases hwhole : s.whole.chars with
  | nil => exact absurd hwhole s.whole.ne_nil
  | cons c cs =>
    refine ⟨c, cs ++ (s.pointed ++ s.scaled), ?_, s.whole.digits c (by simp [hwhole])⟩
    rw [Spelling.chars, hwhole, List.cons_append]

/-- A number begins with a minus sign or a digit, and goes on with characters of numbers. -/
theorem number_eq_cons (w : Lettering) (n : Numeral) :
    (∃ c cs, w.number n = c :: cs ∧ (c = '-' ∨ c.isDigit = true)) ∧
      ∀ c ∈ w.number n, isNumberChar c = true := by
  obtain ⟨s, hs, -⟩ := exists_spelling_number (w := w) n
  obtain ⟨d, ds, hchars, hd⟩ := exists_chars_eq_cons s
  rw [hs]
  cases n.negative with
  | true =>
    refine ⟨⟨'-', s.chars, rfl, Or.inl rfl⟩, ?_⟩
    intro c hc
    rcases List.mem_cons.1 hc with rfl | hc
    · rfl
    · exact isNumberChar_of_mem_chars hc
  | false => exact ⟨⟨d, ds, hchars, Or.inr hd⟩, fun c hc => isNumberChar_of_mem_chars hc⟩

/-- Nothing that follows goes on with a number. -/
def Stops (rest : List Char) : Prop :=
  ∀ c ∈ rest.head?, isNumberChar c = false

theorem scalar?_of_number {c : Char} {cs : List Char} (h : c = '-' ∨ c.isDigit = true) :
    scalar? (c :: cs) = (readNumeral? ((c :: cs).takeWhile isNumberChar)).map fun n =>
      (.number n (String.ofList ((c :: cs).takeWhile isNumberChar)),
        (c :: cs).dropWhile isNumberChar) := by
  unfold scalar?
  split
  next heq =>
    cases heq
    rcases h with h | h <;> cases h
  next heq =>
    cases heq
    rcases h with h | h <;> cases h
  next heq =>
    cases heq
    rcases h with h | h <;> cases h
  next heq =>
    cases heq
    rcases h with h | h <;> cases h
  next heq =>
    cases heq
    rw [if_pos h]
  next heq => cases heq

theorem scalar?_number (n : Numeral) (source : String) {rest : List Char} (hr : Stops rest) :
    scalar? (w.number n ++ rest) = some (w.readScalar (.number n source), rest) := by
  obtain ⟨⟨c, cs, hcons, hc⟩, hall⟩ := w.number_eq_cons n
  have htake : (w.number n ++ rest).takeWhile isNumberChar = w.number n ∧
      (w.number n ++ rest).dropWhile isNumberChar = rest := takeWhile_before hall hr
  obtain ⟨s, hs, -⟩ := exists_spelling_number (w := w) n
  obtain ⟨n', hread, -⟩ := s.readNumeral?_chars n.negative
  rw [← hs] at hread
  have hscalar : scalar? (c :: (cs ++ rest)) = _ := scalar?_of_number hc
  rw [← List.cons_append, ← hcons, htake.1, htake.2, hread] at hscalar
  rw [hscalar, readScalar, hread]
  rfl

theorem scalar?_scalar (s : Scalar) {rest : List Char} (hr : Stops rest) :
    scalar? (w.scalar s ++ rest) = some (w.readScalar s, rest) := by
  cases s with
  | null | special => rfl
  | flag value => cases value <;> rfl
  | number n source => exact scalar?_number n source hr
  | text s =>
    have htext := text?_spelled (w.spelled s) rest
    rw [scalar, quoted, List.cons_append, List.append_assoc, List.singleton_append, scalar?, htext]
    rfl

theorem skipBlanks_cons {c : Char} (h : isBlank c = false) (cs : List Char) :
    skipBlanks (c :: cs) = c :: cs :=
  List.dropWhile_cons_of_neg (by simp [h])

theorem skipBlanks_quote (cs : List Char) : skipBlanks ('"' :: cs) = '"' :: cs := rfl

theorem skipBlanks_colon (cs : List Char) : skipBlanks (':' :: cs) = ':' :: cs := rfl

theorem skipBlanks_comma (cs : List Char) : skipBlanks (',' :: cs) = ',' :: cs := rfl

/-- A scalar does not begin like anything else. -/
theorem scalar_eq_cons (w : Lettering) (s : Scalar) :
    ∃ c cs, w.scalar s = c :: cs ∧ isBlank c = false ∧ c ≠ '[' ∧ c ≠ '\x7b' ∧ c ≠ ']' := by
  cases s with
  | null | special => exact ⟨'n', _, rfl, by decide⟩
  | flag value =>
    cases value with
    | true => exact ⟨'t', _, rfl, by decide⟩
    | false => exact ⟨'f', _, rfl, by decide⟩
  | number n source =>
    obtain ⟨⟨c, cs, hcons, hc⟩, -⟩ := w.number_eq_cons n
    refine ⟨c, cs, hcons, ?_⟩
    rcases hc with rfl | hc
    · decide
    · have hblank : isBlank c = false := by
        by_contra h
        simp only [isBlank, Bool.not_eq_false, Bool.or_eq_true, beq_iff_eq] at h
        rcases h with ((rfl | rfl) | rfl) | rfl <;> cases hc
      refine ⟨hblank, ?_, ?_, ?_⟩ <;> (rintro rfl; cases hc)
  | text s => exact ⟨'"', _, rfl, by decide⟩

theorem write_eq_cons (w : Lettering) (t : Tree) :
    ∃ c cs, w.write t = c :: cs ∧ isBlank c = false ∧ c ≠ ']' := by
  cases t with
  | scalar s =>
    obtain ⟨c, cs, hcons, hblank, -, -, hc⟩ := w.scalar_eq_cons s
    exact ⟨c, cs, by rw [write, hcons], hblank, hc⟩
  | list ts => cases ts <;> exact ⟨'[', _, by unfold write; rfl, by decide⟩
  | record ms => cases ms <;> exact ⟨'\x7b', _, by unfold write; rfl, by decide⟩

theorem value?_of_scalar {c : Char} (hblank : isBlank c = false) (hlist : c ≠ '[')
    (hrecord : c ≠ '\x7b') (fuel : Nat) (cs : List Char) :
    value? (fuel + 1) (c :: cs) = (scalar? (c :: cs)).map fun r => (.scalar r.1, r.2) := by
  rw [value?, skipBlanks_cons hblank]
  split
  next heq => exact absurd (List.cons.inj heq).1 hlist
  next heq => exact absurd (List.cons.inj heq).1 hrecord
  next => rfl

theorem value?_of_items {c : Char} (hblank : isBlank c = false) (hc : c ≠ ']') (fuel : Nat)
    (cs : List Char) :
    value? (fuel + 1) ('[' :: c :: cs) =
      (items? fuel (c :: cs)).map fun r => (.list r.1, r.2) := by
  rw [value?, skipBlanks_cons rfl]
  simp only [skipBlanks_cons hblank]
  split
  next heq => exact absurd (List.cons.inj heq).1 hc
  next => rfl

theorem items?_last {fuel : Nat} {cs rest : List Char} {t : Tree}
    (h : value? fuel cs = some (t, ']' :: rest)) : items? (fuel + 1) cs = some ([t], rest) := by
  rw [items?, h]
  rfl

theorem items?_more {fuel : Nat} {cs more rest : List Char} {t : Tree} {ts : List Tree}
    (h : value? fuel cs = some (t, ',' :: more)) (hmore : items? fuel more = some (ts, rest)) :
    items? (fuel + 1) cs = some (t :: ts, rest) := by
  rw [items?, h]
  simp only [Option.bind_eq_bind, Option.bind_some, skipBlanks_comma, hmore]
  rfl

theorem members?_last {fuel : Nat} {name : String} {cs rest : List Char} {t : Tree}
    (h : value? fuel cs = some (t, '\x7d' :: rest)) :
    members? (fuel + 1) (w.quoted name ++ ':' :: cs) = some ([(name, t)], rest) := by
  have htext := text?_spelled (w.spelled name) (':' :: cs)
  rw [quoted, List.cons_append, List.append_assoc, List.singleton_append, members?]
  simp only [skipBlanks_quote, skipBlanks_colon, Option.bind_eq_bind, Option.bind_some, htext, h]
  rfl

theorem members?_more {fuel : Nat} {name : String} {cs more rest : List Char} {t : Tree}
    {ms : List (String × Tree)} (h : value? fuel cs = some (t, ',' :: more))
    (hmore : members? fuel more = some (ms, rest)) :
    members? (fuel + 1) (w.quoted name ++ ':' :: cs) = some ((name, t) :: ms, rest) := by
  have htext := text?_spelled (w.spelled name) (':' :: cs)
  rw [quoted, List.cons_append, List.append_assoc, List.singleton_append, members?]
  simp only [skipBlanks_quote, skipBlanks_colon, skipBlanks_comma, Option.bind_eq_bind,
    Option.bind_some, htext, h, hmore]
  rfl

/-- With so much fuel, all texts that are no longer than it are read back. -/
structure Reads (w : Lettering) (fuel : Nat) : Prop where
  value : ∀ t rest, (w.write t).length ≤ fuel → Stops rest →
    value? fuel (w.write t ++ rest) = some (w.reread t, rest)
  items : ∀ t ts rest, (w.write t ++ w.writeItems ts).length ≤ fuel →
    items? fuel (w.write t ++ (w.writeItems ts ++ rest)) =
      some (w.reread t :: w.rereadItems ts, rest)
  members : ∀ name t ms rest,
    (w.quoted name ++ ':' :: (w.write t ++ w.writeMembers ms)).length ≤ fuel →
    members? fuel (w.quoted name ++ ':' :: (w.write t ++ (w.writeMembers ms ++ rest))) =
      some ((name, w.reread t) :: w.rereadMembers ms, rest)

theorem Reads.value_step {fuel : Nat} (h : Reads w fuel) (t : Tree) (rest : List Char)
    (hf : (w.write t).length ≤ fuel + 1) (hr : Stops rest) :
    value? (fuel + 1) (w.write t ++ rest) = some (w.reread t, rest) := by
  cases t with
  | scalar s =>
    obtain ⟨c, cs, hcons, hblank, hlist, hrecord, -⟩ := w.scalar_eq_cons s
    have hread := scalar?_scalar (w := w) s hr
    rw [write, reread]
    rw [hcons, List.cons_append] at hread ⊢
    rw [value?_of_scalar hblank hlist hrecord, hread]
    rfl
  | list ts =>
    cases ts with
    | nil => rw [write, reread, rereadItems]; rfl
    | cons t ts =>
      obtain ⟨c, cs, hcons, hblank, hc⟩ := w.write_eq_cons t
      have hitems := h.items t ts rest (by simpa [write] using hf)
      rw [write, reread, rereadItems, List.cons_append, List.append_assoc]
      rw [hcons, List.cons_append] at hitems ⊢
      rw [value?_of_items hblank hc, hitems]
      rfl
  | record ms =>
    cases ms with
    | nil => rw [write, reread, rereadMembers]; rfl
    | cons m ms =>
      obtain ⟨name, t⟩ := m
      have hmembers := h.members name t ms rest (by simpa [write] using hf)
      rw [write, reread, rereadMembers]
      simp only [List.cons_append, List.append_assoc]
      have hvalue (cs : List Char) : value? (fuel + 1) ('\x7b' :: (w.quoted name ++ cs)) =
          (members? fuel (w.quoted name ++ cs)).map fun r => (.record r.1, r.2) := rfl
      rw [hvalue, hmembers]
      rfl

theorem stops_writeItems (w : Lettering) (ts : List Tree) (rest : List Char) :
    Stops (w.writeItems ts ++ rest) := by
  cases ts <;> simp [Stops, writeItems] <;> decide

theorem stops_writeMembers (w : Lettering) (ms : List (String × Tree)) (rest : List Char) :
    Stops (w.writeMembers ms ++ rest) := by
  cases ms <;> simp [Stops, writeMembers] <;> decide

theorem Reads.items_step {fuel : Nat} (h : Reads w fuel) (t : Tree) (ts : List Tree)
    (rest : List Char) (hf : (w.write t ++ w.writeItems ts).length ≤ fuel + 1) :
    items? (fuel + 1) (w.write t ++ (w.writeItems ts ++ rest)) =
      some (w.reread t :: w.rereadItems ts, rest) := by
  obtain ⟨c, cs, hcons, -⟩ := w.write_eq_cons t
  have hpos : 0 < (w.write t).length := by simp [hcons]
  rw [List.length_append] at hf
  cases ts with
  | nil =>
    simp only [writeItems, List.length_singleton] at hf
    have hvalue := h.value t _ (by omega) (w.stops_writeItems [] rest)
    rw [rereadItems]
    exact items?_last hvalue
  | cons u us =>
    simp only [writeItems, List.length_cons] at hf
    have hvalue := h.value t _ (by omega) (w.stops_writeItems (u :: us) rest)
    have hitems := h.items u us rest (by omega)
    rw [rereadItems]
    simp only [writeItems, List.cons_append, List.append_assoc] at hvalue ⊢
    exact items?_more hvalue hitems

theorem Reads.members_step {fuel : Nat} (h : Reads w fuel) (name : String) (t : Tree)
    (ms : List (String × Tree)) (rest : List Char)
    (hf : (w.quoted name ++ ':' :: (w.write t ++ w.writeMembers ms)).length ≤ fuel + 1) :
    members? (fuel + 1) (w.quoted name ++ ':' :: (w.write t ++ (w.writeMembers ms ++ rest))) =
      some ((name, w.reread t) :: w.rereadMembers ms, rest) := by
  rw [List.length_append, List.length_cons, List.length_append] at hf
  cases ms with
  | nil =>
    have hvalue := h.value t _ (by omega) (w.stops_writeMembers [] rest)
    rw [rereadMembers]
    exact members?_last hvalue
  | cons m us =>
    obtain ⟨other, u⟩ := m
    simp only [writeMembers, List.length_cons] at hf
    have hvalue := h.value t _ (by omega) (w.stops_writeMembers ((other, u) :: us) rest)
    have hmembers := h.members other u us rest (by omega)
    rw [rereadMembers]
    simp only [writeMembers, List.cons_append, List.append_assoc] at hvalue ⊢
    exact members?_more hvalue hmembers

theorem reads (w : Lettering) (fuel : Nat) : Reads w fuel := by
  induction fuel with
  | zero =>
    have hpos (t : Tree) : (w.write t).length ≠ 0 := by
      obtain ⟨c, cs, hcons, -⟩ := w.write_eq_cons t
      simp [hcons]
    refine ⟨?_, ?_, ?_⟩
    · intro t rest hf
      exact absurd (Nat.le_zero.1 hf) (hpos t)
    · intro t ts rest hf
      rw [List.length_append] at hf
      have := hpos t
      omega
    · intro name t ms rest hf
      simp at hf
  | succ fuel ih => exact ⟨ih.value_step, ih.items_step, ih.members_step⟩

theorem read?_write (w : Lettering) (t : Tree) : read? (w.write t) = some (w.reread t) := by
  have hvalue := (w.reads ((w.write t).length + 1)).value t [] (by omega) nofun
  rw [List.append_nil] at hvalue
  rw [read?, hvalue]
  rfl

theorem rereadItems_eq_map (ts : List Tree) : w.rereadItems ts = ts.map w.reread := by
  induction ts with
  | nil => rw [rereadItems, List.map_nil]
  | cons t ts ih => rw [rereadItems, List.map_cons, ih]

theorem rereadMembers_eq_map (ms : List (String × Tree)) :
    w.rereadMembers ms = ms.map fun m => (m.1, w.reread m.2) := by
  induction ms with
  | nil => rw [rereadMembers, List.map_nil]
  | cons m ms ih =>
    obtain ⟨name, t⟩ := m
    rw [rereadMembers, List.map_cons, ih]

theorem number_ofInt (i : Int) : w.number (.ofInt i) = (Text.signedDecimal i).toList := by
  cases i with
  | ofNat n => simp [number, Numeral.ofInt, Text.signedDecimal, Text.decimal]
  | negSucc n => simp [number, Numeral.ofInt, Text.signedDecimal, Text.decimal]

/-- Integers are read back as they are. -/
theorem reread_ofInt (i : Int) : w.reread (.ofInt i) = .ofInt i := by
  have hread : readNumeral? (w.number (.ofInt i)) = some (.ofInt i) := Spelling.readNumeral?_ofInt i
  rw [Tree.ofInt, reread, readScalar, hread, number_ofInt, String.ofList_toList]
  rfl

theorem reread_ofFlag (b : Bool) : w.reread (.ofFlag b) = .ofFlag b := by
  cases b <;> simp [Tree.ofFlag, reread, readScalar]

/-- Other numbers may be spelled differently, with the same sign and size. -/
theorem reread_number {n : Numeral} (hn : n.plain = false) (source : String) :
    ∃ n' source', w.reread (.scalar (.number n source)) = .scalar (.number n' source') ∧
      n'.negative = n.negative ∧ n'.size = n.size := by
  obtain ⟨s, hs, hsize⟩ := exists_spelling_number (w := w) n
  obtain ⟨n', hread, hsign, hsize'⟩ := s.readNumeral?_chars n.negative
  rw [← hs] at hread
  refine ⟨n', String.ofList (w.number n), ?_, hsign, hsize'.trans (hsize hn)⟩
  rw [reread, readScalar, hread]
  rfl

end Lettering

/-- The letter that stands for a character behind a backslash. -/
def letter? : Char → Option Char
  | '"' => some '"'
  | '\\' => some '\\'
  | '\n' => some 'n'
  | '\r' => some 'r'
  | '\t' => some 't'
  | _ => none

/-- Characters that are written by their numbers: control characters, those that mean something in
markup, and line separators. -/
def isGuarded (c : Char) : Bool :=
  c.toNat < 32 || c == '<' || c == '>' || c == '&' || c.toNat == 0x2028 || c.toNat == 0x2029

def standardChar (c : Char) : List Char :=
  match letter? c with
  | some e => ['\\', e]
  | none => if isGuarded c then '\\' :: 'u' :: (Text.hexPadded 4 c.toNat).toList else [c]

theorem escaped?_letter {c e : Char} (h : letter? c = some e) : escaped? e = some c := by
  unfold letter? at h
  split at h
  all_goals first | (cases h; rfl) | cases h

theorem spelled_guarded {c : Char} (hc : isGuarded c = true) {cs s : List Char}
    (h : Spelled cs s) :
    Spelled ('\\' :: 'u' :: (Text.hexPadded 4 c.toNat).toList ++ cs) (c :: s) := by
  have hsmall : c.toNat < 16 ^ 4 := by
    simp only [isGuarded, Bool.or_eq_true, decide_eq_true_eq, beq_iff_eq] at hc
    rcases hc with ((((hc | rfl) | rfl) | rfl) | hc) | hc
    all_goals first | omega | decide
  have hlength : (Text.hexPadded 4 c.toNat).toList.length = 4 :=
    Text.length_hexPadded ((Nat.length_toDigits_le_iff (by decide) (by decide)).2 hsmall)
  have hread := Text.readDigits?_hexPadded 4 c.toNat
  obtain ⟨p, q, r, t, hdigits⟩ := List.length_eq_four.1 hlength
  rw [hdigits] at hread ⊢
  have hunit := Spelled.unit (n := c.toNat) hread c.valid h
  rw [Char.ofNat_toNat] at hunit
  exact hunit

theorem spelled_standardChar (c : Char) {cs s : List Char} (h : Spelled cs s) :
    Spelled (standardChar c ++ cs) (c :: s) := by
  unfold standardChar
  split
  next e he => exact .letter (escaped?_letter he) h
  next hnone =>
    split_ifs with hc
    · exact spelled_guarded hc h
    · have hquote : c ≠ '"' := by
        rintro rfl
        cases hnone
      have hback : c ≠ '\\' := by
        rintro rfl
        cases hnone
      refine .plain hquote hback ?_ h
      simp only [isGuarded, Bool.or_eq_true, decide_eq_true_eq, not_or] at hc
      omega

theorem spelled_standard (cs : List Char) : Spelled (cs.flatMap standardChar) cs := by
  induction cs with
  | nil => exact .nil
  | cons c cs ih => exact spelled_standardChar c ih

/-- A positive number in the layout that keeps powers of ten from the sixth below one up to the
twentieth positional. -/
def standardReal (n : Numeral) : List Char :=
  if n.coefficient = 0 then ['0']
  else ((⟨-6, 21, 1⟩ : WrittenForm).decimal ⟨n.coefficient, n.exponent⟩).toList

theorem standardReal_writes (n : Numeral) : Spelling.Writes (standardReal n) n.size := by
  unfold standardReal
  split_ifs with hzero
  · refine ⟨.ofNat 0, rfl, ?_⟩
    simp [Spelling.size_ofNat, Numeral.size, hzero]
  · exact WrittenForm.decimal_writes (d := ⟨n.coefficient, n.exponent⟩) _
      (Nat.pos_of_ne_zero hzero)

def Lettering.standard : Lettering where
  body s := s.toList.flatMap standardChar
  spelled s := spelled_standard s.toList
  real := standardReal
  writes := standardReal_writes

end SchemaBindings.Document.Json
