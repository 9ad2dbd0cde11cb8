import Mathlib.Data.Int.Bitwise
import SchemaBindings.Bindings.Declaration
import SchemaBindings.Proofs.Layout.SlotOrder

namespace SchemaBindings.Bindings

open SchemaBindings.Layout

/-- The contents of a struct: the bits of its data section and its pointers, absent ones null. -/
structure Storage (P : Type) where
  bit : Nat → Bool
  pointer : Nat → Option P

/-- What a caller hands to an accessor, as far as it reaches the storage: the bits of a scalar, and
what the runtime makes of the pointers when an accessor hands them on. Such calls have no access to
the data section. -/
structure Input (P : Type) where
  bits : Nat → Bool
  pointers : Call → (Nat → Option P) → Nat → Option P

/-- What an accessor returns. A scalar is given by its bits, read as a number. -/
inductive Returned where
  | undefined
  | truth (value : Bool)
  | pattern (value : Nat)
  | object
  deriving DecidableEq, Repr

/-- How a statement ends; `stuck` when it does something the runtime has no meaning for. -/
inductive Outcome (P : Type) where
  | next (storage : Storage P)
  | returned (value : Returned) (storage : Storage P)
  | thrown (message : String) (storage : Storage P)
  | stuck

variable {P : Type}

namespace Storage

def store (s : Storage P) (start width : Nat) (bits : Nat → Bool) : Storage P :=
  { s with bit := fun i => if start ≤ i ∧ i < start + width then bits (i - start) else s.bit i }

def clearPointer (s : Storage P) (index : Nat) : Storage P :=
  { s with pointer := fun i => if i = index then none else s.pointer i }

/-- The bits of a field of the data section, read as a number. -/
def pattern (s : Storage P) (start width : Nat) : Nat :=
  Nat.ofBits fun i : Fin width => s.bit (start + i)

def ZeroAt (s : Storage P) : Cell → Prop
  | .bit i => s.bit i = false
  | .pointer i => s.pointer i = none

def SameAt (s t : Storage P) : Cell → Prop
  | .bit i => s.bit i = t.bit i
  | .pointer i => s.pointer i = t.pointer i

end Storage

/-- The width of the values that a family of data accessors is for. -/
def dataWidth? : String → Option Nat
  | "bool" => some 1
  | "int8" | "uint8" => some 8
  | "int16" | "uint16" => some 16
  | "int32" | "uint32" | "float32" => some 32
  | "int64" | "uint64" | "float64" => some 64
  | _ => none

namespace Scalar

def value : Scalar → Int
  | flag value => if value then 1 else 0
  | number value => value
  | words value => value.high * 2 ^ 32 + value.low

theorem value_words_ofInt (i : Int) : (words (.ofInt i)).value = i := by
  have hmod : 0 ≤ i % (Number.twoPow 32 : Int) := Int.emod_nonneg _ (by decide)
  simp only [value, WordPair.ofInt, Int.toNat_of_nonneg hmod]
  exact Int.ediv_mul_add_emod _ _

/-- The bits of a scalar in a field of the given width, if it has the form that values of this width
are written in. -/
def bits? (width : Nat) (v : Scalar) : Option (Nat → Bool) :=
  let fits := match v with
    | flag _ => width == 1
    | number _ => width != 1 && width != 64
    | words _ => width == 64
  if fits then some v.value.testBit else none

end Scalar

/-- The bits that a data accessor is handed. -/
def Argument.bits? (input : Input P) (width : Nat) : Argument → Option (Nat → Bool)
  | .given _ => some input.bits
  | .scalar v => v.bits? width
  | _ => none

/-- The bits that an access is combined with, all zero for the accessors that take no mask. -/
def maskBits? (masked : Bool) (rest : List Argument) : Option (Nat → Bool) :=
  match masked, rest with
  | false, [] => some fun _ => false
  | true, [.scalar mask] => some mask.value.testBit
  | _, _ => none

/-- What a call returns and what it leaves of the storage. Only a builder's storage can be
written. -/
def Call.run (input : Input P) (s : Storage P) : Call → Option (Returned × Storage P)
  | storage _ (.hasData type) index [] => do
    let width ← dataWidth? type
    return (.truth (s.pattern (index * width) width != 0), s)
  | storage _ (.getData type masked) index rest => do
    let width ← dataWidth? type
    let mask ← maskBits? masked rest
    return (.pattern (Nat.ofBits fun i : Fin width => s.bit (index * width + i) ^^ mask i), s)
  | storage .builder (.setData type masked) index (value :: rest) => do
    let width ← dataWidth? type
    let bits ← value.bits? input width
    let mask ← maskBits? masked rest
    return (.undefined, s.store (index * width) width fun i => bits i ^^ mask i)
  | storage _ .isPointerNull index [] => some (.truth (s.pointer index).isNone, s)
  | storage .builder .clearPointer index [] => some (.undefined, s.clearPointer index)
  | storage .reader .getStruct _ _ => some (.object, s)
  | call@(storage .builder .getStruct _ _) | call@(storage .builder .initStruct _ _) =>
    some (.object, { s with pointer := input.pointers call s.pointer })
  | pointer _ _ .reader _ _ => some (.object, s)
  | call@(pointer _ _ .builder _ _) =>
    some (.object, { s with pointer := input.pointers call s.pointer })
  | _ => none

def Test.run (input : Input P) (s : Storage P) (t : Test) : Option Bool :=
  match t.call.run input s with
  | some (.truth b, _) => some (b ^^ t.negated)
  | _ => none

def Answer.run (input : Input P) (s : Storage P) : Answer → Option (Returned × Storage P)
  | undefined => some (.undefined, s)
  | anyOf tests => do
    let results ← tests.mapM (Test.run input s)
    return (.truth (results.any id), s)
  | result call => call.run input s
  | structView _ _ call => do
    let (_, s) ← call.run input s
    return (.object, s)
  | groupView _ _ => some (.object, s)

/-- The active tag of a union, as the call that reads it gives it. -/
def activeTag? (which? : Option Call) (input : Input P) (s : Storage P) : Option Nat := do
  match (← which?).run input s with
  | some (.pattern tag, _) => some tag
  | _ => none

namespace Statement

/-- Runs a statement; `which?` is the call behind `this.which()`. -/
def run (which? : Option Call) (input : Input P) (s : Storage P) : Statement → Outcome P
  | perform call =>
    match call.run input s with
    | some (_, s) => .next s
    | none => .stuck
  | answer value =>
    match value.run input s with
    | some (v, s) => .returned v s
    | none => .stuck
  | answerFalseUnless tag =>
    match activeTag? which? input s with
    | some active => if active = tag.toNat then .next s else .returned (.truth false) s
    | none => .stuck
  | failUnless tag message =>
    match activeTag? which? input s with
    | some active => if active = tag.toNat then .next s else .thrown message s
    | none => .stuck

def runAll (which? : Option Call) (input : Input P) (s : Storage P) :
    List Statement → Outcome P
  | [] => .next s
  | statement :: rest =>
    match statement.run which? input s with
    | .next s => runAll which? input s rest
    | outcome => outcome

end Statement

namespace Storage

variable {s t u : Storage P} {c : Cell}

theorem SameAt.refl (s : Storage P) (c : Cell) : s.SameAt s c := by
  cases c <;> rfl

theorem SameAt.trans (h : s.SameAt t c) (h' : t.SameAt u c) : s.SameAt u c := by
  cases c with
  | bit i => exact Eq.trans h h'
  | pointer i => exact Eq.trans h h'

theorem SameAt.zeroAt (h : s.SameAt t c) (hz : t.ZeroAt c) : s.ZeroAt c := by
  cases c with
  | bit i => exact Eq.trans h hz
  | pointer i => exact Eq.trans h hz

theorem pattern_eq_zero_iff (s : Storage P) (start width : Nat) :
    s.pattern start width = 0 ↔ ∀ i, start ≤ i → i < start + width → s.bit i = false := by
  have hbit : ∀ i (h : i < width), (s.pattern start width).testBit i = s.bit (start + i) :=
    fun i h => Nat.testBit_ofBits_lt _ i h
  constructor
  · intro hz i hl hr
    have h := hbit (i - start) (by omega)
    rw [hz, Nat.zero_testBit, Nat.add_sub_cancel' hl] at h
    exact h.symm
  · intro hz
    apply Nat.eq_of_testBit_eq
    intro i
    rw [Nat.zero_testBit]
    by_cases h : i < width
    · rw [hbit i h]
      exact hz _ (by omega) (by omega)
    · exact Nat.testBit_ofBits_ge _ i (by omega)

theorem pattern_store (s : Storage P) (start width : Nat) (bits : Nat → Bool) :
    (s.store start width bits).pattern start width = Nat.ofBits fun i : Fin width => bits i := by
  unfold pattern
  congr
  funext i
  have hin : start ≤ start + i ∧ start + i < start + width := by omega
  simp [store, hin]

end Storage

theorem dataWidth?_suffixOf (k : Schema.Kind) (h : sectionOf k = .data) :
    dataWidth? (suffixOf k) = some (bitWidth k) := by
  cases k <;> simp [sectionOf] at h <;> rfl

/-- A blank or a line break. -/
def isGap (c : Char) : Bool :=
  c == ' ' || c == '\n'

/-- Line breaks and the blanks of an indentation. -/
def IsBlank (text : String) : Prop :=
  ∀ c ∈ text.toList, isGap c = true

/-- A text that consists of the given parts in order and of blanks around them. -/
inductive Spaced : List String → String → Prop where
  | nil {blank : String} (h : IsBlank blank) : Spaced [] blank
  | cons {blank part text : String} {parts : List String} (h : IsBlank blank)
      (rest : Spaced parts text) : Spaced (part :: parts) (blank ++ (part ++ text))

/-- A text assigns the accessor `name`, and the given statements are what stands between its
braces. -/
def Defines (text : String) (depth : Nat) (name : String) (statements : List Statement) : Prop :=
  ∃ before parameters code after,
    text = before ++ ("this." ++ name ++ " = function(" ++ parameters ++ ") \x7b" ++ code
      ++ "\x7d;\n") ++ after ∧
    Spaced (statements.map (Statement.text depth)) code

theorem isGap_iff {c : Char} : isGap c = true ↔ c = ' ' ∨ c = '\n' := by
  rw [isGap, Bool.or_eq_true, beq_iff_eq, beq_iff_eq]

theorem IsBlank.append {a b : String} (ha : IsBlank a) (hb : IsBlank b) : IsBlank (a ++ b) := by
  intro c hc
  rw [String.toList_append, List.mem_append] at hc
  exact hc.elim (ha c) (hb c)

theorem isBlank_blanks (count : Nat) : IsBlank (String.ofList (List.replicate count ' ')) := by
  intro c hc
  rw [String.toList_ofList] at hc
  rw [List.eq_of_mem_replicate hc]
  rfl

theorem isBlank_indent (depth : Nat) : IsBlank (Text.indent depth) :=
  isBlank_blanks (2 * depth)

theorem Spaced.lead {blank text : String} {parts : List String} (h : IsBlank blank)
    (hs : Spaced parts text) : Spaced parts (blank ++ text) := by
  cases hs with
  | nil h' => exact .nil (h.append h')
  | cons h' rest =>
    rw [← String.append_assoc]
    exact .cons (h.append h') rest

theorem spaced_join (parts : List String) {before after tail : String} (hb : IsBlank before)
    (ha : IsBlank after) (ht : IsBlank tail) :
    Spaced parts (String.join (parts.map fun s => before ++ (s ++ after)) ++ tail) := by
  induction parts with
  | nil => simpa using Spaced.nil ht
  | cons part parts ih =>
    simp only [List.map_cons, String.join_cons, String.append_assoc]
    exact .cons hb (ih.lead ha)

theorem spaced_intercalate (parts : List String) {between tail : String} (hb : IsBlank between)
    (ht : IsBlank tail) : Spaced parts (between.intercalate parts ++ tail) := by
  have hempty : IsBlank "" := by simp [IsBlank]
  induction parts with
  | nil => simpa using Spaced.nil ht
  | cons part parts ih =>
    cases parts with
    | nil =>
      have hs : Spaced [part] ("" ++ (part ++ tail)) := .cons hempty (.nil ht)
      simpa using hs
    | cons next parts =>
      have hs : Spaced (part :: next :: parts) ("" ++ (part ++ (between ++ _))) :=
        .cons hempty (ih.lead hb)
      simpa [String.append_assoc] using hs

theorem Operation.layout_spaced (operation : Operation) (depth : Nat) (parts : List String) :
    Spaced parts (operation.layout depth parts) := by
  have hempty : IsBlank "" := by simp [IsBlank]
  have hspace : IsBlank " " := isBlank_blanks 1
  have hline : IsBlank "\n" := by simp [IsBlank, isGap]
  cases operation with
  | testSlots slots =>
    simp only [layout, String.append_assoc]
    exact (spaced_intercalate parts hspace (hline.append (isBlank_indent depth))).lead
      (isBlank_indent (depth + 1)) |>.lead hline
  | clearSlots slots type =>
    simp only [layout, String.append_assoc]
    simpa [String.append_assoc] using
      (spaced_join parts (isBlank_indent (depth + 1)) hline (isBlank_indent depth)).lead hline
  | _ => simpa [layout] using (spaced_join parts hempty hspace hempty).lead hspace

namespace FieldBindings

/-- The statements of the accessor that a view offers for a verb. -/
def method? (b : FieldBindings) (view : View) (verb : Verb) : Option (List Statement) :=
  ((b.accessorsOf view).lookup verb).map (b.body view verb)

/-- The accessors of a view are what its text defines. -/
theorem text_defines {b : FieldBindings} {view : View} {verb : Verb} {statements : List Statement}
    (h : b.method? view verb = some statements) (depth : Nat) :
    Defines (b.text view depth) (depth + 1) (verb.text ++ titleCase b.name) statements := by
  obtain ⟨operation, hop, rfl⟩ := Option.map_eq_some_iff.1 h
  obtain ⟨l, r, hl, -⟩ := List.lookup_eq_some_iff.1 hop
  have hne : b.accessors.isEmpty = false := by
    cases ha : b.accessors with
    | nil => cases view <;> simp [accessorsOf, ha] at hl
    | cons => rfl
  let part (a : Verb × Operation) := b.accessorText view depth a.1 a.2
  refine ⟨b.predicateText depth ++ String.join (l.map part) ++ Text.indent depth,
    operation.parameters,
    operation.layout depth ((b.body view verb operation).map (Statement.text (depth + 1))),
    String.join (r.map part), ?_, operation.layout_spaced depth _⟩
  simp [text, hne, hl, part, accessorText, String.append_assoc]

end FieldBindings

end SchemaBindings.Bindings
