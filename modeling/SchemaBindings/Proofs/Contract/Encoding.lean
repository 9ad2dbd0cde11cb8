import Mathlib.Algebra.Ring.Nat
import Mathlib.Data.List.Basic
import SchemaBindings.Contract.Check

namespace SchemaBindings.Contract

open SchemaBindings.Document SchemaBindings.Number

namespace Rule

variable {α : Type} {rules : List (String × Rule)}

theorem admits_record (shape : Shape) (members : List (String × Tree)) :
    (record shape).admits (.record members) = admitsMembers shape.members members := by
  rw [admits]
  rfl

theorem admitsItems_map (item : Rule) (encode : α → Tree) (xs : List α) :
    admitsItems item (xs.map encode) = xs.all fun x => item.admits (encode x) := by
  induction xs with
  | nil => rfl
  | cons x xs ih => rw [List.map_cons, admitsItems, ih, List.all_cons]

theorem admits_list (item : Rule) (encode : α → Tree) (xs : List α) :
    (listOf item).admits (.list (xs.map encode)) = xs.all fun x => item.admits (encode x) := by
  rw [admits]
  exact admitsItems_map item encode xs

theorem admitsMembers_append (first second : List (String × Tree)) :
    admitsMembers rules (first ++ second) =
      (admitsMembers rules first && admitsMembers rules second) := by
  induction first with
  | nil => rfl
  | cons member first ih =>
    obtain ⟨name, tree⟩ := member
    rw [List.cons_append, admitsMembers, admitsMembers, ih, Bool.and_assoc]

theorem admitsMembers_entry {name : String} {rule : Rule} (h : rules.lookup name = some rule)
    (tree : Tree) : admitsMembers rules (entry name tree) = rule.admits tree := by
  simp [entry, admitsMembers, h]

theorem admitsMembers_entryIf {name : String} {rule : Rule} (h : rules.lookup name = some rule)
    (condition : Bool) (tree : Tree) :
    admitsMembers rules (entryIf condition name tree) = (!condition || rule.admits tree) := by
  cases condition with
  | false => rfl
  | true => exact admitsMembers_entry h tree

theorem admitsMembers_entryOf? {name : String} {rule : Rule} (h : rules.lookup name = some rule)
    (encode : α → Tree) (a? : Option α) :
    admitsMembers rules (entryOf? name encode a?) = a?.all fun a => rule.admits (encode a) := by
  cases a? with
  | none => rfl
  | some a => exact admitsMembers_entry h (encode a)

theorem admitsMembers_listEntry {name : String} {item : Rule}
    (h : rules.lookup name = some (listOf item)) (encode : α → Tree) (xs : List α) :
    admitsMembers rules (listEntry name encode xs) = xs.all fun x => item.admits (encode x) := by
  rw [listEntry, admitsMembers_entryIf h, admits_list]
  cases xs <;> simp

theorem admits_listOrNull (item : Rule) (encode : α → Tree) (xs? : Option (List α)) :
    (Rule.listOrNull item).admits (Document.listOrNull encode xs?) =
      (xs?.getD []).all fun x => item.admits (encode x) := by
  cases xs? with
  | none => rfl
  | some xs =>
    rw [Document.listOrNull, admits]
    exact admitsItems_map item encode xs

/-- A list that is absent is none where one is asked for. -/
theorem listOf_admits_listOrNull (item : Rule) (encode : α → Tree) (xs? : Option (List α)) :
    (listOf item).admits (Document.listOrNull encode xs?) =
      xs?.any fun xs => xs.all fun x => item.admits (encode x) := by
  cases xs? with
  | none => rfl
  | some xs => exact admits_list item encode xs

theorem integer_admits_ofInt (least? greatest? : Option Int) (i : Int) :
    (integer least? greatest?).admits (.ofInt i) =
      ((least?.all fun low => low ≤ i) && greatest?.all fun high => i ≤ high) := by
  have hvalue : (Numeral.ofInt i).toInt = i := by
    simp only [Numeral.toInt, Numeral.ofInt, decide_eq_true_eq]
    split_ifs <;> omega
  have hplain : (Numeral.ofInt i).plain = true := rfl
  simp [Tree.ofInt, admits, admitsScalar, hvalue, hplain]

theorem bits_admits_ofNat {width n : Nat} (h : n < 2 ^ width) :
    (bits width).admits (ofNat n) = true := by
  have hpow : twoPow width = 2 ^ width := rfl
  have hbound : (n : Int) < (2 ^ width : Nat) := by exact_mod_cast h
  rw [bits, ofNat, integer_admits_ofInt, hpow]
  simp only [Option.all_some, Bool.and_eq_true, decide_eq_true_eq]
  omega

/-- A member that breaks no rule may be left out too. -/
theorem admitsMembers_optional {name : String} {rule : Rule} {tree : Tree}
    (h : rules.lookup name = some rule) (htree : rule.admits tree = true) (condition : Bool) :
    admitsMembers rules (entryIf condition name tree) = true := by
  rw [admitsMembers_entryIf h, htree, Bool.or_true]

theorem admitsMembers_count {name : String} {width n : Nat}
    (h : rules.lookup name = some (bits width)) (hn : n < 2 ^ width) :
    admitsMembers rules (entry name (ofNat n)) = true := by
  rw [admitsMembers_entry h, bits_admits_ofNat hn]

theorem admitsMembers_countIf {name : String} {width n : Nat}
    (h : rules.lookup name = some (bits width)) (hn : n < 2 ^ width) (condition : Bool) :
    admitsMembers rules (entryIf condition name (ofNat n)) = true :=
  admitsMembers_optional h (bits_admits_ofNat hn) condition

theorem admitsMembers_countOf? {name : String} {width : Nat}
    (h : rules.lookup name = some (bits width)) {count : α → Nat}
    (hcount : ∀ a, count a < 2 ^ width) (a? : Option α) :
    admitsMembers rules (entryOf? name (fun a => ofNat (count a)) a?) = true := by
  rw [admitsMembers_entryOf? h]
  cases a? with
  | none => rfl
  | some a => exact bits_admits_ofNat (hcount a)

theorem flag_admits (b : Bool) : flag.admits (.ofFlag b) = true :=
  rfl

theorem text_admits (s : String) : text.admits (.ofText s) = true :=
  rfl

theorem number_admits (x : Double) : number.admits (ofDouble x) = true :=
  rfl

theorem filledText_admits (s : String) : filledText.admits (.ofText s) = (s != "") :=
  rfl

theorem oneOf_admits (names : List String) (s : String) :
    (oneOf names).admits (.ofText s) = names.contains s :=
  rfl

theorem base64_admits (s : String) : base64.admits (.ofText s) = isBase64 s :=
  rfl

end Rule

section Legible

variable {α : Type}

/-- A text that is left out when it is empty. -/
@[simp]
theorem empty_or_isLegibleText (s : String) :
    (!(s != "") || isLegibleText s) = isLegibleText s := by
  have hempty : isLegibleText "" = true := rfl
  by_cases h : s = ""
  · simp [h, hempty]
  · simp [h]

theorem areLegible_map (encode : α → Tree) (xs : List α) :
    areLegible (xs.map encode) = xs.all fun x => isLegible (encode x) := by
  induction xs with
  | nil => rfl
  | cons x xs ih => rw [List.map_cons, areLegible, ih, List.all_cons]

@[simp]
theorem membersLegible_append (first second : List (String × Tree)) :
    membersLegible (first ++ second) = (membersLegible first && membersLegible second) := by
  induction first with
  | nil => rfl
  | cons member first ih =>
    obtain ⟨name, tree⟩ := member
    rw [List.cons_append, membersLegible, membersLegible, ih, Bool.and_assoc]

@[simp]
theorem isLegible_record (members : List (String × Tree)) :
    isLegible (.record members) = membersLegible members := by
  rw [isLegible]

@[simp]
theorem isLegible_ofText (s : String) : isLegible (.ofText s) = isLegibleText s := by
  rw [Tree.ofText, isLegible]

@[simp]
theorem membersLegible_entry (name : String) (tree : Tree) :
    membersLegible (entry name tree) = isLegible tree := by
  simp [entry, membersLegible]

@[simp]
theorem membersLegible_entryIf (condition : Bool) (name : String) (tree : Tree) :
    membersLegible (entryIf condition name tree) = (!condition || isLegible tree) := by
  cases condition with
  | false => rfl
  | true => exact membersLegible_entry name tree

@[simp]
theorem membersLegible_entryOf? (name : String) (encode : α → Tree) (a? : Option α) :
    membersLegible (entryOf? name encode a?) = a?.toList.all fun a => isLegible (encode a) := by
  cases a? with
  | none => rfl
  | some a => simp [entryOf?, membersLegible]

/-- What holds no text is legible wherever it is present. -/
@[simp]
theorem all_toList_true (a? : Option α) : (a?.toList.all fun _ => true) = true :=
  List.all_eq_true.2 fun _ _ => rfl

@[simp]
theorem membersLegible_listEntry (name : String) (encode : α → Tree) (xs : List α) :
    membersLegible (listEntry name encode xs) = xs.all fun x => isLegible (encode x) := by
  rw [listEntry, membersLegible_entryIf, isLegible, areLegible_map]
  cases xs <;> simp

@[simp]
theorem isLegible_listOrNull (encode : α → Tree) (xs? : Option (List α)) :
    isLegible (Document.listOrNull encode xs?) =
      (xs?.getD []).all fun x => isLegible (encode x) := by
  cases xs? with
  | none => rfl
  | some xs => rw [Document.listOrNull, isLegible, areLegible_map, Option.getD_some]

@[simp]
theorem isLegible_ofInt (i : Int) : isLegible (.ofInt i) = true := by
  rw [Tree.ofInt, isLegible]
  intro s h
  cases h

@[simp]
theorem isLegible_ofNat (n : Nat) : isLegible (ofNat n) = true :=
  isLegible_ofInt n

@[simp]
theorem isLegible_ofFlag (b : Bool) : isLegible (.ofFlag b) = true := by
  rw [Tree.ofFlag, isLegible]
  intro s h
  cases h

@[simp]
theorem isLegible_ofDouble (x : Double) : isLegible (ofDouble x) = true := by
  rw [ofDouble, isLegible]
  intro s h
  cases h

end Legible

end SchemaBindings.Contract
