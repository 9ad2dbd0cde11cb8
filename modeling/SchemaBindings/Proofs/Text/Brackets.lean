import Mathlib.Data.List.Basic
import SchemaBindings.Proofs.Text.Digits
import SchemaBindings.Text.Quoted

namespace SchemaBindings.Text

inductive Bracket where
  | round
  | square
  | curly
  deriving DecidableEq, Repr

inductive Quote where
  | single
  | double
  deriving DecidableEq, Repr

/-- What a reader of code is inside of. `slash` is between the two slashes of a comment, and `escape`
behind a backslash in a literal. -/
inductive Mode where
  | code
  | slash
  | comment
  | literal (quote : Quote)
  | escape (quote : Quote)
  deriving DecidableEq, Repr

/-- How far code has been read: the brackets that are open, the last one first. -/
structure Reading where
  mode : Mode
  pending : List Bracket
  deriving DecidableEq, Repr

/-- The characters that end a line of code, and so a comment. -/
def isLineBreak (c : Char) : Bool :=
  c = '\n' || c = '\r' || c = '\u2028' || c = '\u2029'

def Bracket.ofOpening? (c : Char) : Option Bracket :=
  if c = '(' then some round
  else if c = '[' then some square
  else if c = '\x7b' then some curly
  else none

def Bracket.ofClosing? (c : Char) : Option Bracket :=
  if c = ')' then some round
  else if c = ']' then some square
  else if c = '\x7d' then some curly
  else none

def Quote.ofChar? (c : Char) : Option Quote :=
  if c = '\x27' then some single
  else if c = '"' then some double
  else none

namespace Reading

/-- Reads a character of code. A bracket closes the one that was opened last. A slash has to begin a
comment, and there are no literals in backticks. -/
def stepCode (pending : List Bracket) (c : Char) : Option Reading :=
  match Bracket.ofOpening? c, Bracket.ofClosing? c, Quote.ofChar? c with
  | some b, _, _ => some ⟨.code, b :: pending⟩
  | none, some b, _ =>
    match pending with
    | [] => none
    | top :: rest => if top = b then some ⟨.code, rest⟩ else none
  | none, none, some q => some ⟨.literal q, pending⟩
  | none, none, none =>
    if c = '/' then some ⟨.slash, pending⟩
    else if c = '\x60' then none
    else some ⟨.code, pending⟩

/-- Reads a character. A literal ends on the line that it begins on. -/
def step : Reading → Char → Option Reading
  | ⟨.code, pending⟩, c => stepCode pending c
  | ⟨.slash, pending⟩, c => if c = '/' then some ⟨.comment, pending⟩ else none
  | ⟨.comment, pending⟩, c => some ⟨if isLineBreak c then .code else .comment, pending⟩
  | ⟨.literal q, pending⟩, c =>
    if isLineBreak c then none
    else if c = '\\' then some ⟨.escape q, pending⟩
    else if Quote.ofChar? c = some q then some ⟨.code, pending⟩
    else some ⟨.literal q, pending⟩
  | ⟨.escape q, pending⟩, c => if isLineBreak c then none else some ⟨.literal q, pending⟩

def read (r : Reading) : List Char → Option Reading
  | [] => some r
  | c :: cs => (r.step c).bind fun r => r.read cs

theorem read_append (r : Reading) (cs ds : List Char) :
    r.read (cs ++ ds) = (r.read cs).bind fun r => r.read ds := by
  induction cs generalizing r with
  | nil => rfl
  | cons c cs ih => simp only [List.cons_append, read, ih, Option.bind_assoc]

/-- Characters that do not move the reader can be read in any number. -/
theorem read_of_step {r : Reading} {cs : List Char} (h : ∀ c ∈ cs, r.step c = some r) :
    r.read cs = some r := by
  induction cs with
  | nil => rfl
  | cons c cs ih =>
    rw [List.forall_mem_cons] at h
    rw [read, h.1]
    exact ih h.2

end Reading

/-- Outside of string literals and line comments the brackets of the text are balanced and properly
nested, and every literal is closed on the line that it is opened on. -/
def Balanced (text : String) : Prop :=
  (⟨.code, []⟩ : Reading).read text.toList = some ⟨.code, []⟩

instance (text : String) : Decidable (Balanced text) :=
  inferInstanceAs (Decidable (_ = _))

example : Balanced "f([']', \"(\\\"\"]); // )\n" := by decide
example : ¬ Balanced "f(']', [)]" := by decide
example : ¬ Balanced "f('two\nlines')" := by decide

/-- Reading the text leads from one point to another. -/
def Reads (r : Reading) (text : String) (r' : Reading) : Prop :=
  r.read text.toList = some r'

/-- Reading the text opens and closes as much, wherever it stands. -/
def Keeps (mode : Mode) (text : String) : Prop :=
  ∀ pending, Reads ⟨mode, pending⟩ text ⟨mode, pending⟩

/-- The characters that mean something to the reader. -/
def specials : List Char :=
  ['\n', '\r', '\u2028', '\u2029', '(', ')', '[', ']', '\x7b', '\x7d', '\x27', '"', '/', '\\', '\x60']

def isPlain (c : Char) : Bool :=
  !specials.contains c

def Plain (text : String) : Prop :=
  ∀ c ∈ text.toList, isPlain c = true

/-- A class of characters without special ones has plain ones only. -/
theorem isPlain_of {holds : Char → Bool} (h : specials.any holds = false) {c : Char}
    (hc : holds c = true) : isPlain c = true := by
  rw [isPlain, Bool.not_eq_true', Bool.eq_false_iff]
  intro hmem
  exact List.any_eq_false.1 h c (List.contains_iff_mem.1 hmem) hc

namespace Reads

variable {r r' r'' : Reading} {text rest : String} {cs : List Char}

theorem append (h : Reads r text r') (h' : Reads r' rest r'') : Reads r (text ++ rest) r'' := by
  rw [Reads, String.toList_append, Reading.read_append, show r.read text.toList = some r' from h]
  exact h'

/-- A text that is written out is read character by character. -/
theorem last (ht : text = String.ofList cs) (h : r.read cs = some r') : Reads r text r' := by
  rw [Reads, ht, String.toList_ofList, h]

theorem fixed (ht : text = String.ofList cs) (h : r.read cs = some r') (h' : Reads r' rest r'') :
    Reads r (text ++ rest) r'' :=
  (last ht h).append h'

/-- A text that is filled in leaves the reader where it is. -/
theorem filled {mode : Mode} {pending : List Bracket} (h : Keeps mode text)
    (h' : Reads ⟨mode, pending⟩ rest r') : Reads ⟨mode, pending⟩ (text ++ rest) r' :=
  (h pending).append h'

end Reads

/-- What holds of texts and of what stands between them holds of the whole, if it is kept when texts
are put together. -/
theorem holds_intercalate {P : String → Prop} (hempty : P "")
    (happend : ∀ {a b}, P a → P b → P (a ++ b)) {between : String} (hb : P between)
    {texts : List String} (h : ∀ text ∈ texts, P text) : P (between.intercalate texts) := by
  induction texts with
  | nil => exact hempty
  | cons text texts ih =>
    rw [List.forall_mem_cons] at h
    cases texts with
    | nil =>
      rw [String.intercalate_singleton]
      exact h.1
    | cons next texts =>
      rw [String.intercalate_cons_cons]
      exact happend (happend h.1 hb) (ih h.2)

namespace Plain

variable {a b : String}

theorem append (ha : Plain a) (hb : Plain b) : Plain (a ++ b) := by
  intro c hc
  rw [String.toList_append, List.mem_append] at hc
  exact hc.elim (ha c) (hb c)

theorem intercalate {between : String} (hb : Plain between) {texts : List String}
    (h : ∀ text ∈ texts, Plain text) : Plain (between.intercalate texts) :=
  holds_intercalate nofun append hb h

theorem step_eq {c : Char} (h : isPlain c = true) (pending : List Bracket) (q : Quote) :
    Reading.step ⟨.code, pending⟩ c = some ⟨.code, pending⟩ ∧
      Reading.step ⟨.literal q, pending⟩ c = some ⟨.literal q, pending⟩ := by
  simp only [isPlain, specials, Bool.not_eq_true', List.contains_eq_mem, decide_eq_false_iff_not,
    List.mem_cons, List.not_mem_nil, or_false, not_or] at h
  simp [Reading.step, Reading.stepCode, isLineBreak, Bracket.ofOpening?, Bracket.ofClosing?,
    Quote.ofChar?, h]

theorem keeps_code (h : Plain a) : Keeps .code a :=
  fun pending => Reading.read_of_step fun c hc => (step_eq (h c hc) pending .single).1

theorem keeps_literal (h : Plain a) (q : Quote) : Keeps (.literal q) a :=
  fun pending => Reading.read_of_step fun c hc => (step_eq (h c hc) pending q).2

end Plain

namespace Keeps

variable {mode : Mode} {a b : String} {texts : List String}

theorem empty (mode : Mode) : Keeps mode "" :=
  fun _ => .last rfl rfl

theorem append (ha : Keeps mode a) (hb : Keeps mode b) : Keeps mode (a ++ b) :=
  fun pending => (ha pending).append (hb pending)

theorem line (h : Keeps .code a) : Keeps .code (a ++ "\n") :=
  h.append fun _ => .last rfl rfl

theorem join (h : ∀ text ∈ texts, Keeps mode text) : Keeps mode (String.join texts) := by
  induction texts with
  | nil => exact empty mode
  | cons text texts ih =>
    rw [List.forall_mem_cons] at h
    rw [String.join_cons]
    exact h.1.append (ih h.2)

theorem intercalate {between : String} (hb : Keeps mode between)
    (h : ∀ text ∈ texts, Keeps mode text) : Keeps mode (between.intercalate texts) :=
  holds_intercalate (empty mode) append hb h

end Keeps

/-- A comment goes on up to a line break. -/
theorem keeps_comment {text : String} (h : ∀ c ∈ text.toList, isLineBreak c = false) :
    Keeps .comment text := by
  intro pending
  refine Reading.read_of_step fun c hc => ?_
  simp [Reading.step, h c hc]

theorem plain_toDigits {base : Nat} (hl : 1 < base) (hr : base ≤ 16) (n : Nat) :
    ∀ c ∈ Nat.toDigits base n, isPlain c = true := by
  have hdigit : ∀ d < 16, isPlain (Nat.digitChar d) = true := by decide
  intro c hc
  obtain ⟨d, hd, rfl⟩ := exists_digitChar_of_mem_toDigits hl hc
  exact hdigit d (by omega)

theorem plain_ofList {cs : List Char} (h : ∀ c ∈ cs, isPlain c = true) : Plain (String.ofList cs) := by
  intro c hc
  rw [String.toList_ofList] at hc
  exact h c hc

/-- A text that is written out is plain if its characters are. -/
theorem plain_of_eq {text : String} {cs : List Char} (ht : text = String.ofList cs)
    (h : cs.all isPlain = true) : Plain text :=
  ht ▸ plain_ofList (List.all_eq_true.1 h)

theorem plain_empty : Plain "" :=
  plain_of_eq rfl rfl

theorem plain_replicate {c : Char} (h : isPlain c = true) (n : Nat) :
    ∀ d ∈ List.replicate n c, isPlain d = true := by
  intro d hd
  rw [List.eq_of_mem_replicate hd]
  exact h

theorem plain_decimal (n : Nat) : Plain (decimal n) :=
  plain_ofList (plain_toDigits (by decide) (by decide) n)

theorem plain_hex (n : Nat) : Plain (hex n) :=
  plain_ofList (plain_toDigits (by decide) (by decide) n)

theorem plain_hexPadded (width n : Nat) : Plain (hexPadded width n) := by
  apply plain_ofList
  intro c hc
  rcases List.mem_append.1 hc with hc | hc
  · exact plain_replicate rfl _ c hc
  · exact plain_toDigits (by decide) (by decide) n c hc

theorem plain_signedDecimal (i : Int) : Plain (signedDecimal i) := by
  cases i with
  | ofNat n => exact plain_decimal n
  | negSucc n =>
    have hminus : Plain "-" := plain_of_eq rfl rfl
    exact hminus.append (plain_decimal (n + 1))

theorem plain_indent (depth : Nat) : Plain (indent depth) :=
  plain_ofList (plain_replicate rfl _)

set_option maxRecDepth 4000 in
theorem isLineBreak_of_isPrintable {c : Char} (h : isPrintable c = true) : isLineBreak c = false := by
  have hbreaks : ['\n', '\r', '\u2028', '\u2029'].any isPrintable = false := rfl
  apply Bool.eq_false_iff.2
  intro hbreak
  have hmem : c ∈ ['\n', '\r', '\u2028', '\u2029'] := by
    simpa [isLineBreak, or_assoc] using hbreak
  exact List.any_eq_false.1 hbreaks c hmem h

/-- Whatever is quoted stays inside of its quotes. -/
theorem keeps_quotedChar (c : Char) : Keeps (.literal .double) (quotedChar c) := by
  unfold quotedChar
  split
  · exact fun _ => .last rfl rfl
  split
  · exact fun _ => .last rfl rfl
  next hquote hback =>
  split
  next hprintable =>
    intro pending
    have hother : Quote.ofChar? c ≠ some .double := by
      unfold Quote.ofChar?
      split
      · nofun
      · nofun
    refine .last rfl ?_
    simp [Reading.read, Reading.step, isLineBreak_of_isPrintable hprintable, hback, hother]
  split
  iterate 7 exact fun _ => .last rfl rfl
  split
  · exact fun _ => .fixed rfl rfl <| (plain_hexPadded _ _).keeps_literal _ _
  split
  · exact fun _ => .fixed rfl rfl <| (plain_hexPadded _ _).keeps_literal _ _
  · exact fun _ => .fixed rfl rfl <| (plain_hexPadded _ _).keeps_literal _ _

theorem keeps_quote (text : String) : Keeps .code (quote text) := by
  intro pending
  have hchars : Keeps (.literal .double) (String.join (text.toList.map quotedChar)) := by
    apply Keeps.join
    intro part hpart
    obtain ⟨c, -, rfl⟩ := List.mem_map.1 hpart
    exact keeps_quotedChar c
  simp only [quote, String.append_assoc]
  exact .fixed rfl rfl <| .filled hchars <| .last rfl rfl

end SchemaBindings.Text
