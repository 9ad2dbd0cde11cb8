import SchemaBindings.Proofs.Bindings.BalancedFiles
import SchemaBindings.Proofs.Bindings.MemberNames
import SchemaBindings.Proofs.Number.RoundTrip

namespace SchemaBindings.Bindings

open SchemaBindings.Schema SchemaBindings.Text SchemaBindings.Number SchemaBindings.Number.BinaryFormat

theorem isNameStart_iff {c : Char} :
    isNameStart c = true ↔ c.isUpper = true ∨ c.isLower = true ∨ c = '_' := by
  show (c.isUpper || c.isLower || c == '_') = true ↔ _
  rw [Bool.or_eq_true, Bool.or_eq_true, beq_iff_eq, or_assoc]

theorem isNameStart_capital {c : Char} (h : isNameStart c = true) :
    isNameStart (capital c) = true := by
  rw [isNameStart_iff] at *
  rcases h with h | h | rfl
  · rw [capital_of_isUpper h]
    exact Or.inl h
  · exact Or.inl (isUpper_capital h)
  · exact Or.inr (Or.inr rfl)

theorem isNameChar_capital {c : Char} (h : isNameChar c = true) :
    isNameChar (capital c) = true := by
  by_cases hlower : c.isLower = true
  · have hstart : isNameStart c = true := isNameStart_iff.2 (Or.inr (Or.inl hlower))
    rw [isNameChar, isNameStart_capital hstart, Bool.true_or]
  · rw [capital, if_neg hlower]
    exact h

theorem isNameChar_of_isNameStart {c : Char} (h : isNameStart c = true) : isNameChar c = true := by
  rw [isNameChar, h, Bool.true_or]

theorem isNameChar_upperRest {cs : List Char} (h : ∀ c ∈ cs, isNameChar c = true) :
    ∀ c ∈ upperRest cs, isNameChar c = true := by
  induction cs with
  | nil => exact h
  | cons c cs ih =>
    rw [List.forall_mem_cons] at h
    have hrest := ih h.2
    rw [upperRest]
    split
    · exact List.forall_mem_cons.2 ⟨rfl, List.forall_mem_cons.2 ⟨h.1, hrest⟩⟩
    · exact List.forall_mem_cons.2 ⟨isNameChar_capital h.1, hrest⟩

theorem isIdentifier_iff {name : String} : isIdentifier name = true ↔ ∃ c cs,
    name.toList = c :: cs ∧ isNameStart c = true ∧ ∀ d ∈ cs, isNameChar d = true := by
  unfold isIdentifier
  cases name.toList with
  | nil => simp
  | cons c cs => simp

theorem isIdentifier_upperSnake {name : String} (h : isIdentifier name = true) :
    isIdentifier (upperSnake name) = true := by
  obtain ⟨c, cs, hname, hc, hcs⟩ := isIdentifier_iff.1 h
  rw [isIdentifier_iff]
  refine ⟨capital c, upperRest cs, ?_, isNameStart_capital hc, isNameChar_upperRest hcs⟩
  simp [upperSnake, hname]

theorem isNameChar_digitChar : ∀ d < 16, isNameChar (Nat.digitChar d) = true := by
  decide

/-- An identifier goes on with the digits of an id. -/
theorem isIdentifier_append_hex {name : String} (h : isIdentifier name = true) (n : Nat) :
    isIdentifier (name ++ hex n) = true := by
  obtain ⟨c, cs, hname, hc, hcs⟩ := isIdentifier_iff.1 h
  rw [isIdentifier_iff]
  refine ⟨c, cs ++ Nat.toDigits 16 n, ?_, hc, ?_⟩
  · rw [String.toList_append, hname, hex, String.toList_ofList]
    rfl
  · refine List.forall_mem_append.2 ⟨hcs, fun d hd => ?_⟩
    obtain ⟨k, hk, rfl⟩ := exists_digitChar_of_mem_toDigits (by decide) hd
    exact isNameChar_digitChar k hk

theorem isIdentifier_root (root : Root) : isIdentifier root.text = true := by
  cases root with
  | own => rfl
  | foreign id => exact isIdentifier_append_hex rfl _
  | provided id => exact isIdentifier_append_hex rfl _

theorem QualifiedName.text_eq_intercalate (root : Root) (path : List String) :
    (⟨root, path⟩ : QualifiedName).text = String.intercalate "." (root.text :: path) := by
  induction path using List.reverseRecOn with
  | nil => rfl
  | append_singleton path name ih =>
    rw [← List.cons_append, String.intercalate_append_of_ne_nil (by simp) (by simp), ← ih]
    simp [QualifiedName.text]

/-- The expressions that a literal can be: `undefined`, a truth value, a number, one of the numbers
that have names, a pair of integers, or a constant under its dotted name. -/
inductive IsLiteralText : String → Prop where
  | undefined : IsLiteralText "undefined"
  | true : IsLiteralText "true"
  | false : IsLiteralText "false"
  | nan : IsLiteralText "NaN"
  | infinity : IsLiteralText "Infinity"
  | negativeInfinity : IsLiteralText "-Infinity"
  | number (negative : Bool) (s : Spelling) :
      IsLiteralText (String.ofList (if negative then '-' :: s.chars else s.chars))
  | pair (high : Int) (low : Nat) :
      IsLiteralText ("[" ++ signedDecimal high ++ ", " ++ decimal low ++ "]")
  | constant (names : List String) (hl : 2 ≤ names.length)
      (hn : ∀ name ∈ names, isIdentifier name = true) :
      IsLiteralText (String.intercalate "." names)

theorem integer_isLiteralText (i : Int) : IsLiteralText (Literal.integer i).text := by
  have hchars (n : Nat) : (Spelling.ofNat n).chars = Nat.toDigits 10 n := List.append_nil _
  cases i with
  | ofNat n =>
    have h := IsLiteralText.number Bool.false (.ofNat n)
    rw [hchars] at h
    exact h
  | negSucc n =>
    have h := IsLiteralText.number Bool.true (.ofNat (n + 1))
    rw [hchars] at h
    have htext : (Literal.integer (.negSucc n)).text =
        String.ofList ('-' :: Nat.toDigits 10 (n + 1)) := by
      rw [Literal.text, signedDecimal, decimal, ← String.ofList_append]
      rfl
    rw [htext]
    exact h

theorem realText_of_isFinite {f : BinaryFormat} {pattern : Nat} {x : Double}
    (hx : x.isFinite = true) : realText f pattern x = f.text pattern := by
  have hlt : binary64.magnitude x.pattern < binary64.infinity := of_decide_eq_true hx
  have hnan : x.isNaN = false := decide_eq_false (by omega)
  have hinfinite : x.isInfinite = false := beq_false_of_ne hlt.ne
  simp [realText, hnan, hinfinite]

/-- A number that is in the range of the format that it is written in is a literal. -/
theorem realText_isLiteralText {f : BinaryFormat} (hf : Scanned f) {pattern : Nat} {x : Double}
    (hp : x.isFinite = true → f.magnitude pattern < f.infinity) :
    IsLiteralText (realText f pattern x) := by
  by_cases hx : x.isFinite = true
  · obtain ⟨s, hs, -⟩ := exists_spelling_text hf (hp hx)
    rw [realText_of_isFinite hx, ← String.ofList_toList (s := f.text pattern), hs]
    exact .number _ s
  · have hle : binary64.infinity ≤ binary64.magnitude x.pattern := by
      by_contra hlt
      exact hx (decide_eq_true (by omega))
    unfold realText
    split_ifs with hnan hinfinite hnegative
    · exact .nan
    · exact .negativeInfinity
    · exact .infinity
    · have hne : binary64.magnitude x.pattern ≠ binary64.infinity := fun h =>
        hinfinite (beq_iff_eq.2 h)
      exact absurd (decide_eq_true (by omega)) hnan

/-- A finite number past the range of single precision. -/
def PastSingle (x : Double) : Prop :=
  x.isFinite = true ∧ (2 ^ 25 - 1) * 2 ^ 103 ≤ binary64.value (binary64.magnitude x.pattern)

theorem single_isLiteralText {x : Double} (hx : ¬PastSingle x) :
    IsLiteralText (Literal.single x).text := by
  refine realText_isLiteralText scanned_binary32 fun hfinite => ?_
  obtain ⟨-, hnearest⟩ := Double.magnitude_narrow hfinite
  refine lt_of_le_of_ne hnearest.1 fun hinfinite => hx ⟨hfinite, ?_⟩
  rw [hinfinite] at hnearest
  exact isNearest_infinity_binary32.1 hnearest

theorem single_text_of_pastSingle {x : Double} (hx : PastSingle x) :
    (Literal.single x).text = if x.isNegative then "-Inf" else "+Inf" := by
  obtain ⟨hsign, hnearest⟩ := Double.magnitude_narrow hx.1
  have hinfinity := hnearest.unique (isNearest_infinity_binary32.2 hx.2)
  have hnan : binary32.isNaN x.narrow = Bool.false := decide_eq_false (by omega)
  have hinfinite : binary32.isInfinite x.narrow = Bool.true := beq_iff_eq.2 hinfinity
  rw [Literal.text, realText_of_isFinite hx.1, BinaryFormat.text]
  simp only [hnan, hinfinite, hsign, Bool.false_eq_true, if_false, if_true]

/-- A number begins with a digit behind its sign, a pair with a bracket, and a constant has a dot
in it. -/
theorem IsLiteralText.cases_chars {text : String} (h : IsLiteralText text) :
    text ∈ ["undefined", "true", "false", "NaN", "Infinity", "-Infinity"] ∨
      (∃ c cs, c.isDigit = Bool.true ∧ (text.toList = c :: cs ∨ text.toList = '-' :: c :: cs)) ∨
      '[' ∈ text.toList ∨ '.' ∈ text.toList := by
  cases h with
  | number negative s =>
    obtain ⟨c, cs, hcs⟩ := List.exists_cons_of_ne_nil s.whole.ne_nil
    have hc : c.isDigit = Bool.true := s.whole.digits c (hcs ▸ List.mem_cons_self)
    refine Or.inr (Or.inl ⟨c, cs ++ (s.pointed ++ s.scaled), hc, ?_⟩)
    rw [String.toList_ofList, Spelling.chars, hcs]
    cases negative
    · exact Or.inl rfl
    · exact Or.inr rfl
  | pair high low =>
    refine Or.inr (Or.inr (Or.inl ?_))
    simp [String.toList_append]
  | constant names hl hn =>
    refine Or.inr (Or.inr (Or.inr ?_))
    cases names with
    | nil => simp at hl
    | cons first names =>
      cases names with
      | nil => simp at hl
      | cons second names =>
        rw [String.intercalate_cons_cons]
        simp [String.toList_append]
  | _ => simp

theorem not_isLiteralText_infinite (negative : Bool) :
    ¬IsLiteralText (if negative then "-Inf" else "+Inf") := by
  intro h
  rcases h.cases_chars with h | ⟨c, cs, hc, h⟩ | h | h
  · cases negative <;> simp at h
  · cases negative with
    | false =>
      obtain ⟨rfl, -⟩ : '+' = c ∧ _ := by simpa using h
      cases hc
    | true =>
      obtain ⟨rfl, -⟩ | ⟨rfl, -⟩ : ('-' = c ∧ _) ∨ 'I' = c ∧ _ := by simpa using h
      · cases hc
      · cases hc
  · cases negative <;> simp at h
  · cases negative <;> simp at h

/-- The names that lead to an enum and those of its enumerants are identifiers. -/
def EnumNamed (g : Graph) (id : UInt64) : Prop :=
  ∀ n, g.find? id = some n →
    (∀ top path, g.ScopePath top path n → ∀ name ∈ path, isIdentifier name = true) ∧
      ∀ e ∈ n.enumerants?.getD [], isIdentifier e.name = true

section Enumerant

variable {context : FileContext} {used used' : UsedFiles} {id : UInt64} {ordinal : UInt16} {l : Literal}

/-- What an ordinal is written as: the enumerant at its place, or else the number. -/
def enumerantAt (n : Node) (type : QualifiedName) (ordinal : UInt16) : Literal :=
  match (n.enumerants?.getD [])[ordinal.toNat]? with
  | some e => .enumerant type (upperSnake e.name)
  | none => .integer ordinal.toNat

theorem run_enumLiteral_eq_ok_iff :
    Generation.run (enumLiteral id ordinal) context used = (.ok l, used') ↔
      ∃ n type, context.graph.find? id = some n ∧
        Generation.run (qualifiedName n) context used = (.ok type, used') ∧
        l = enumerantAt n type ordinal := by
  have hat (n : Node) (type : QualifiedName) (u : UsedFiles) :
      Generation.run (match (n.enumerants?.getD [])[ordinal.toNat]? with
        | some e => return .enumerant type (upperSnake e.name)
        | none => return .integer ordinal.toNat) context u = (.ok (enumerantAt n type ordinal), u) := by
    unfold enumerantAt
    cases (n.enumerants?.getD [])[ordinal.toNat]? <;> rfl
  simp only [enumLiteral, Generation.run_bind_eq_ok_iff, run_find_eq_ok_iff]
  constructor
  · rintro ⟨n, _, ⟨hn, rfl⟩, type, u, hq, hl⟩
    cases (hat n type u).symm.trans hl
    exact ⟨n, type, hn, hq, rfl⟩
  · rintro ⟨n, type, hn, hq, rfl⟩
    exact ⟨n, used, ⟨hn, rfl⟩, type, used', hq, hat n type used'⟩

variable {n : Node} {type : QualifiedName}

theorem text_enumerantAt_of_eq_some {e : Member}
    (h : (n.enumerants?.getD [])[ordinal.toNat]? = some e) :
    (enumerantAt n type ordinal).text = type.text ++ "." ++ upperSnake e.name := by
  rw [enumerantAt, h]
  rfl

theorem text_enumerantAt_of_le (h : (n.enumerants?.getD []).length ≤ ordinal.toNat) :
    (enumerantAt n type ordinal).text = decimal ordinal.toNat := by
  rw [enumerantAt, List.getElem?_eq_none h]
  rfl

theorem QualifiedName.text_member (type : QualifiedName) (key : String) :
    type.text ++ "." ++ key = String.intercalate "." (type.root.text :: (type.path ++ [key])) := by
  rw [← QualifiedName.text_eq_intercalate]
  simp [QualifiedName.text]

theorem enumLiteral_isLiteralText (hn : EnumNamed context.graph id)
    (h : Generation.run (enumLiteral id ordinal) context used = (.ok l, used')) :
    IsLiteralText l.text := by
  obtain ⟨n, type, hfind, hq, rfl⟩ := run_enumLiteral_eq_ok_iff.1 h
  obtain ⟨top, hpath, -, -⟩ := run_qualifiedName_eq_ok_iff.1 hq
  obtain ⟨hscopes, henumerants⟩ := hn n hfind
  cases he : (n.enumerants?.getD [])[ordinal.toNat]? with
  | some e =>
    have hkey : isIdentifier (upperSnake e.name) = Bool.true :=
      isIdentifier_upperSnake (henumerants e (List.mem_of_getElem? he))
    rw [text_enumerantAt_of_eq_some he, QualifiedName.text_member]
    refine .constant _ (by simp) (List.forall_mem_cons.2 ⟨isIdentifier_root _, ?_⟩)
    exact List.forall_mem_append.2 ⟨hscopes top _ hpath, List.forall_mem_singleton.2 hkey⟩
  | none =>
    rw [text_enumerantAt_of_le (List.getElem?_eq_none_iff.1 he)]
    exact integer_isLiteralText ordinal.toNat

end Enumerant

section Literals

variable {context : FileContext} {used used' : UsedFiles} {type : TypeRef} {v : Value} {l : Literal}

theorem literal_isLiteralText (hn : type.kind = .enum → EnumNamed context.graph type.typeId)
    (hv : type.kind = .float32 → ¬PastSingle v.float)
    (h : Generation.run (literal type v) context used = (.ok l, used')) : IsLiteralText l.text := by
  unfold literal at h
  cases hk : type.kind with
  | void =>
    simp only [hk] at h
    obtain rfl := Generation.run_pure_eq_ok h
    exact .undefined
  | bool =>
    simp only [hk] at h
    obtain rfl := Generation.run_pure_eq_ok h
    cases hb : v.bool
    · exact .false
    · exact .true
  | int8 | int16 | int32 | uint8 | uint16 | uint32 =>
    simp only [hk] at h
    obtain rfl := Generation.run_pure_eq_ok h
    exact integer_isLiteralText _
  | int64 | uint64 =>
    simp only [hk] at h
    obtain rfl := Generation.run_pure_eq_ok h
    exact .pair _ _
  | float32 =>
    simp only [hk] at h
    obtain rfl := Generation.run_pure_eq_ok h
    exact single_isLiteralText (hv hk)
  | float64 =>
    simp only [hk] at h
    obtain rfl := Generation.run_pure_eq_ok h
    exact realText_isLiteralText scanned_binary64 of_decide_eq_true
  | enum =>
    simp only [hk] at h
    exact enumLiteral_isLiteralText (hn hk) h
  | text | data | list | struct | interface | anyPointer | unlisted =>
    simp [hk] at h

theorem literal_text_of_pastSingle (hk : type.kind = .float32) (hv : PastSingle v.float)
    (h : Generation.run (literal type v) context used = (.ok l, used')) :
    l.text = if v.float.isNegative then "-Inf" else "+Inf" := by
  simp only [literal, hk] at h
  obtain rfl := Generation.run_pure_eq_ok h
  exact single_text_of_pastSingle hv

/-- The literal of an enumerant is its dotted name, whatever the names are. -/
theorem literal_text_of_enum (hk : type.kind = .enum)
    (h : Generation.run (literal type v) context used = (.ok l, used')) :
    ∃ n q, context.graph.find? type.typeId = some n ∧
      Generation.run (qualifiedName n) context used = (.ok q, used') ∧
      (∀ e, (n.enumerants?.getD [])[v.enum.toNat]? = some e →
        l.text = String.intercalate "." (q.root.text :: (q.path ++ [upperSnake e.name]))) ∧
      ((n.enumerants?.getD []).length ≤ v.enum.toNat → l.text = decimal v.enum.toNat) := by
  simp only [literal, hk] at h
  obtain ⟨n, q, hfind, hq, rfl⟩ := run_enumLiteral_eq_ok_iff.1 h
  refine ⟨n, q, hfind, hq, fun e he => ?_, text_enumerantAt_of_le⟩
  rw [text_enumerantAt_of_eq_some he, QualifiedName.text_member]

/-- Whenever a value has a literal, its text is one of the expressions that literals are, except for
a number in single precision that is past its range: that one is written as an infinity with a sign
and three letters. An enumerant has a dotted name, which is an expression if the names are. -/
theorem literal_text_is_expression
    (h : Generation.run (literal type v) context used = (.ok l, used')) :
    ((type.kind = .enum → EnumNamed context.graph type.typeId) →
      (IsLiteralText l.text ↔ ¬(type.kind = .float32 ∧ PastSingle v.float))) ∧
    (type.kind = .float32 ∧ PastSingle v.float →
      l.text = if v.float.isNegative then "-Inf" else "+Inf") ∧
    (type.kind = .enum → ∃ n q, context.graph.find? type.typeId = some n ∧
      Generation.run (qualifiedName n) context used = (.ok q, used') ∧
      (∀ e, (n.enumerants?.getD [])[v.enum.toNat]? = some e →
        l.text = String.intercalate "." (q.root.text :: (q.path ++ [upperSnake e.name]))) ∧
      ((n.enumerants?.getD []).length ≤ v.enum.toNat → l.text = decimal v.enum.toNat)) := by
  refine ⟨fun hn => ⟨?_, fun hv => literal_isLiteralText hn (fun hk hpast => hv ⟨hk, hpast⟩) h⟩,
    fun hv => literal_text_of_pastSingle hv.1 hv.2 h, fun hk => literal_text_of_enum hk h⟩
  rintro hl ⟨hk, hpast⟩
  rw [literal_text_of_pastSingle hk hpast h] at hl
  exact not_isLiteralText_infinite _ hl

end Literals

namespace Palette

def color : Node :=
  { (default : Node) with
    id := 2
    kind := .enumNode
    displayName := "palette.capnp:Color"
    scopeId := 1
    enumerants? := some [⟨"red", 0⟩, ⟨"deepBlue", 1⟩] }

def file : Node :=
  { (default : Node) with
    id := 1
    kind := .fileNode
    displayName := "palette.capnp"
    nested := [⟨"Color", 2⟩] }

def context : FileContext :=
  ⟨⟨[file, color], by decide⟩, ⟨1, "palette.capnp", []⟩⟩

theorem scopePath_color : context.graph.ScopePath file ["Color"] color :=
  .nested ⟨by decide, rfl⟩ rfl (.top rfl)

theorem enumNamed_color : EnumNamed context.graph 2 := by
  intro n hn
  obtain rfl : color = n := Option.some.inj hn
  refine ⟨fun top path hpath => ?_, by decide⟩
  obtain ⟨-, rfl⟩ := scopePath_color.unique hpath
  decide

/-- A number of the size of `10 ^ 39`, as a value in single precision. -/
def huge : Value :=
  { Value.zero .float32 with float := ⟨0x48078287f49c4a1d⟩ }

end Palette

/-- An enumerant with two words in its name. -/
theorem literal_text_is_expression_deepBlue :
    EnumNamed Palette.context.graph 2 ∧
    ∃ l, Generation.run (literal (.plain .enum 2) { Value.zero .enum with enum := 1 })
        Palette.context [] = (.ok l, []) ∧
      l.text = "module.Color.DEEP_BLUE" ∧ IsLiteralText l.text := by
  have hrun : Generation.run (literal (.plain .enum 2) { Value.zero .enum with enum := 1 })
      Palette.context [] = (.ok (.enumerant ⟨.own, ["Color"]⟩ "DEEP_BLUE"), []) := rfl
  refine ⟨Palette.enumNamed_color, _, hrun, rfl, ?_⟩
  refine ((literal_text_is_expression hrun).1 fun _ => Palette.enumNamed_color).2 ?_
  rintro ⟨⟨⟩, -⟩

/-- A finite number is no expression in single precision. -/
theorem huge_single_no_expression :
    Palette.huge.float.isFinite = true ∧
    ∃ l, Generation.run (literal (.plain .float32 0) Palette.huge) Palette.context [] = (.ok l, []) ∧
      l.text = "+Inf" ∧ ¬IsLiteralText l.text := by
  have hpast : PastSingle Palette.huge.float := by
    refine ⟨rfl, ?_⟩
    have hvalue : binary64.value (binary64.magnitude Palette.huge.float.pattern) =
        (0x178287f49c4a1d : Nat) * 2 ^ ((77 : Nat) : Int) := rfl
    rw [hvalue, zpow_natCast]
    norm_num
  have htext := single_text_of_pastSingle hpast
  refine ⟨rfl, _, rfl, htext, ?_⟩
  rw [htext]
  exact not_isLiteralText_infinite false

section Doubles

variable {n : Node} {c : ConstInfo}

theorem run_constExpr_double (hc : n.const? = some c) (hk : c.type.kind = .float64)
    (context : FileContext) (used : UsedFiles) :
    Generation.run (constExpr n) context used =
      (.ok (some (.literal (.double c.value.float))), used) := by
  simp [constExpr, hc, hk, literal]

/-- The literal of a finite constant in double precision is a signed decimal with the sign of the
constant, also of a zero. The constant is the only magnitude that is nearest to it, a half going to
the even one, so reading the literal gives back its bits; no decimal with fewer digits rounds to the
constant, and another constant has another literal. -/
theorem double_literal_reads_back (hc : n.const? = some c) (hk : c.type.kind = .float64)
    (hx : c.value.float.isFinite = true) (context : FileContext) (used : UsedFiles) :
    ∃ e numeral, Generation.run (constExpr n) context used = (.ok (some e), used) ∧
      readNumeral? e.expression.toList = some numeral ∧
      numeral.negative = c.value.float.isNegative ∧
      (∀ m, binary64.IsNearest numeral.size m ↔ m = binary64.magnitude c.value.float.pattern) ∧
      numeral.toDouble = c.value.float ∧
      binary64.FewestDigits numeral.size (binary64.magnitude c.value.float.pattern) ∧
      ∀ n' c' e', n'.const? = some c' → c'.type.kind = .float64 →
        c'.value.float.isFinite = true →
        Generation.run (constExpr n') context used = (.ok (some e'), used) →
        c'.value.float ≠ c.value.float → e'.expression ≠ e.expression := by
  obtain ⟨numeral, hread, hsign, hnearest, hfewest, hdouble⟩ := Double.readNumeral?_text hx
  refine ⟨_, numeral, run_constExpr_double hc hk context used, ?_, hsign, fun m => ?_, hdouble,
    hfewest, ?_⟩
  · change readNumeral? (realText binary64 c.value.float.pattern c.value.float).toList = _
    rw [realText_of_isFinite hx]
    exact hread
  · constructor
    · intro hm
      exact hm.unique hnearest
    · rintro rfl
      exact hnearest
  · intro n' c' e' hc' hk' hx' hrun hne htext
    cases hrun.symm.trans (run_constExpr_double hc' hk' context used)
    change realText binary64 c'.value.float.pattern c'.value.float =
      realText binary64 c.value.float.pattern c.value.float at htext
    rw [realText_of_isFinite hx, realText_of_isFinite hx'] at htext
    exact hne (Double.text_injective hx' hx htext)

end Doubles

namespace Palette

def double (id bits : UInt64) : Node :=
  { (default : Node) with
    id := id
    kind := .constNode
    scopeId := 1
    const? := some ⟨.plain .float64 0, { Value.zero .float64 with float := ⟨bits⟩ }, 0⟩ }

end Palette

/-- The smallest positive number, which has one bit, and the negative zero next to it. -/
theorem double_literal_reads_back_least :
    ∃ e e' numeral, Generation.run (constExpr (Palette.double 3 1)) Palette.context [] =
        (.ok (some e), []) ∧
      Generation.run (constExpr (Palette.double 4 0x8000000000000000)) Palette.context [] =
        (.ok (some e'), []) ∧
      readNumeral? e.expression.toList = some numeral ∧ numeral.negative = false ∧
      numeral.toDouble = ⟨1⟩ ∧ e'.expression ≠ e.expression := by
  obtain ⟨e, numeral, hrun, hread, hsign, -, hdouble, -, hapart⟩ :=
    double_literal_reads_back (n := Palette.double 3 1) rfl rfl rfl Palette.context []
  have hzero := run_constExpr_double (n := Palette.double 4 0x8000000000000000) rfl rfl
    Palette.context []
  exact ⟨e, _, numeral, hrun, hzero, hread, hsign, hdouble,
    hapart (Palette.double 4 0x8000000000000000) _ _ rfl rfl rfl hzero (by decide)⟩

end SchemaBindings.Bindings
