import Mathlib.Tactic.SplitIfs
import SchemaBindings.Bindings.Name

namespace SchemaBindings.Bindings

/-- A small letter, then letters and digits. -/
def isMemberName (name : String) : Bool :=
  match name.toList with
  | [] => false
  | c :: cs => c.isLower && cs.all Char.isAlphanum

/-- A capital, then letters and digits. -/
def isTypeName (name : String) : Bool :=
  match name.toList with
  | [] => false
  | c :: cs => c.isUpper && cs.all Char.isAlphanum

/-- Names that start with a small letter, of any script, do not. -/
def startsWithCapital (name : String) : Bool :=
  name.toList.head?.any Char.isUpper

/-- A name without a capital behind its first letter. -/
def isOneWord (name : String) : Bool :=
  (name.toList.drop 1).all fun c => !c.isUpper

def inCapitals (name : String) : String :=
  String.ofList (name.toList.map capital)

theorem isMemberName_iff {name : String} : isMemberName name = true ↔ ∃ c cs,
    name = String.ofList (c :: cs) ∧ c.isLower = true ∧ ∀ d ∈ cs, d.isAlphanum = true := by
  unfold isMemberName
  constructor
  · intro h
    split at h
    · cases h
    · next c cs hname =>
      rw [Bool.and_eq_true, List.all_eq_true] at h
      exact ⟨c, cs, by rw [← hname, String.ofList_toList], h⟩
  · rintro ⟨c, cs, rfl, hc, hcs⟩
    simpa [hc] using hcs

theorem isTypeName_iff {name : String} : isTypeName name = true ↔ ∃ c cs,
    name = String.ofList (c :: cs) ∧ c.isUpper = true ∧ ∀ d ∈ cs, d.isAlphanum = true := by
  unfold isTypeName
  constructor
  · intro h
    split at h
    · cases h
    · next c cs hname =>
      rw [Bool.and_eq_true, List.all_eq_true] at h
      exact ⟨c, cs, by rw [← hname, String.ofList_toList], h⟩
  · rintro ⟨c, cs, rfl, hc, hcs⟩
    simpa [hc] using hcs

section Capital

variable {c d : Char}

theorem isLower_iff : c.isLower = true ↔ 97 ≤ c.toNat ∧ c.toNat ≤ 122 := by
  show (decide (97 ≤ c.toNat) && decide (c.toNat ≤ 122)) = true ↔ _
  rw [Bool.and_eq_true, decide_eq_true_eq, decide_eq_true_eq]

theorem isUpper_iff : c.isUpper = true ↔ 65 ≤ c.toNat ∧ c.toNat ≤ 90 := by
  show decide (65 ≤ c.toNat ∧ c.toNat ≤ 90) = true ↔ _
  rw [decide_eq_true_eq]

theorem isAlphanum_iff : c.isAlphanum = true ↔ (97 ≤ c.toNat ∧ c.toNat ≤ 122) ∨
    (65 ≤ c.toNat ∧ c.toNat ≤ 90) ∨ (48 ≤ c.toNat ∧ c.toNat ≤ 57) := by
  show (c.isUpper || c.isLower || c.isDigit) = true ↔ _
  rw [Bool.or_eq_true, Bool.or_eq_true, isLower_iff, isUpper_iff, Char.isDigit_iff_toNat, or_assoc,
    or_left_comm]
  rfl

theorem toNat_capital (c : Char) :
    (capital c).toNat = if 97 ≤ c.toNat ∧ c.toNat ≤ 122 then c.toNat - 32 else c.toNat := by
  unfold capital
  by_cases h : c.isLower = true
  · have hbounds := isLower_iff.1 h
    have hvalid : (c.toNat - 32).isValidChar := Or.inl (by omega)
    rw [if_pos h, if_pos hbounds, Char.ofNat, dif_pos hvalid]
    rfl
  · rw [if_neg h, if_neg (mt isLower_iff.2 h)]

theorem capital_of_isUpper (h : c.isUpper = true) : capital c = c := by
  have hbounds := isUpper_iff.1 h
  apply Char.toNat_inj.1
  rw [toNat_capital, if_neg (by omega)]

theorem isLower_capital (c : Char) : (capital c).isLower = false := by
  rw [Bool.eq_false_iff, ne_eq, isLower_iff, toNat_capital]
  split_ifs with h <;> omega

theorem isUpper_capital (h : c.isLower = true) : (capital c).isUpper = true := by
  have hbounds := isLower_iff.1 h
  rw [isUpper_iff, toNat_capital, if_pos hbounds]
  omega

theorem capital_capital (c : Char) : capital (capital c) = capital c := by
  rw [capital.eq_1 (capital c), isLower_capital]
  rfl

theorem capital_ne_underscore (h : c.isAlphanum = true) : capital c ≠ '_' := by
  have hbounds := isAlphanum_iff.1 h
  intro hc
  have hnat : (capital c).toNat = 95 := by rw [hc]; rfl
  rw [toNat_capital] at hnat
  split_ifs at hnat with hlower <;> omega

/-- Capitals are told apart by the letters that they are made of, unless these were some already. -/
theorem capital_injective (hc : c.isUpper = false) (hd : d.isUpper = false)
    (h : capital c = capital d) : c = d := by
  rw [Bool.eq_false_iff, ne_eq, isUpper_iff] at hc hd
  have hnat := congrArg Char.toNat h
  rw [toNat_capital, toNat_capital] at hnat
  apply Char.toNat_inj.1
  split_ifs at hnat <;> omega

end Capital

section UpperRest

variable {cs ds : List Char}

/-- An underscore or a capital tells how a letter came about, so nothing is lost. -/
theorem upperRest_injective (hcs : ∀ c ∈ cs, c.isAlphanum = true)
    (hds : ∀ d ∈ ds, d.isAlphanum = true) (h : upperRest cs = upperRest ds) : cs = ds := by
  induction cs generalizing ds with
  | nil =>
    cases ds with
    | nil => rfl
    | cons d ds =>
      rw [upperRest, upperRest] at h
      split_ifs at h
  | cons c cs ih =>
    cases ds with
    | nil =>
      rw [upperRest, upperRest] at h
      split_ifs at h
    | cons d ds =>
      rw [List.forall_mem_cons] at hcs hds
      rw [upperRest, upperRest] at h
      split_ifs at h with hc hd hd
      · simp only [List.cons.injEq, true_and] at h
        rw [h.1, ih hcs.2 hds.2 h.2]
      · exact absurd (List.cons.inj h).1.symm (capital_ne_underscore hds.1)
      · exact absurd (List.cons.inj h).1 (capital_ne_underscore hcs.1)
      · obtain ⟨hhead, htail⟩ := List.cons.inj h
        rw [Bool.not_eq_true] at hc hd
        rw [capital_injective hc hd hhead, ih hcs.2 hds.2 htail]

theorem upperRest_eq_map (h : ∀ c ∈ cs, c.isUpper = false) :
    upperRest cs = cs.map capital := by
  induction cs with
  | nil => rfl
  | cons c cs ih =>
    rw [List.forall_mem_cons] at h
    rw [upperRest, h.1, ih h.2]
    rfl

theorem underscore_mem_upperRest {c : Char} (hc : c ∈ cs) (h : c.isUpper = true) :
    '_' ∈ upperRest cs := by
  induction cs with
  | nil => cases hc
  | cons d cs ih =>
    rw [upperRest]
    rcases List.mem_cons.1 hc with rfl | hc
    · rw [if_pos h]
      exact List.mem_cons_self
    · split_ifs
      · exact List.mem_cons_self
      · exact List.mem_cons_of_mem _ (ih hc)

theorem isLower_upperRest (cs : List Char) : ∀ c ∈ upperRest cs, c.isLower = false := by
  induction cs with
  | nil =>
    intro c hc
    cases hc
  | cons d cs ih =>
    intro c hc
    rw [upperRest] at hc
    split_ifs at hc with hd
    · rcases List.mem_cons.1 hc with rfl | hc
      · rfl
      · rcases List.mem_cons.1 hc with rfl | hc
        · rw [← capital_of_isUpper hd]
          exact isLower_capital _
        · exact ih c hc
    · rcases List.mem_cons.1 hc with rfl | hc
      · exact isLower_capital d
      · exact ih c hc

end UpperRest

section Names

variable {name other : String}

theorem upperSnake_ofList_cons (c : Char) (cs : List Char) :
    upperSnake (String.ofList (c :: cs)) = String.ofList (capital c :: upperRest cs) := by
  simp [upperSnake]

theorem titleCase_ofList_cons (c : Char) (cs : List Char) :
    titleCase (String.ofList (c :: cs)) = String.ofList (capital c :: cs) := by
  simp [titleCase]

theorem isTypeName_titleCase (h : isMemberName name = true) : isTypeName (titleCase name) = true := by
  obtain ⟨c, cs, rfl, hc, hcs⟩ := isMemberName_iff.1 h
  rw [titleCase_ofList_cons]
  exact isTypeName_iff.2 ⟨_, _, rfl, isUpper_capital hc, hcs⟩

theorem upperSnake_titleCase (h : isMemberName name = true) :
    upperSnake (titleCase name) = upperSnake name := by
  obtain ⟨c, cs, rfl, -, -⟩ := isMemberName_iff.1 h
  rw [titleCase_ofList_cons, upperSnake_ofList_cons, upperSnake_ofList_cons, capital_capital]

theorem titleCase_inj_of_no_capital (hn : startsWithCapital name = false)
    (ho : startsWithCapital other = false) : titleCase name = titleCase other ↔ name = other := by
  refine ⟨?_, congrArg titleCase⟩
  obtain ⟨cs, rfl⟩ : ∃ cs, name = String.ofList cs := ⟨name.toList, String.ofList_toList.symm⟩
  obtain ⟨ds, rfl⟩ : ∃ ds, other = String.ofList ds := ⟨other.toList, String.ofList_toList.symm⟩
  intro h
  cases cs with
  | nil =>
    cases ds with
    | nil => rfl
    | cons d ds =>
      rw [titleCase_ofList_cons] at h
      cases String.ofList_injective (h : String.ofList [] = _)
  | cons c cs =>
    cases ds with
    | nil =>
      rw [titleCase_ofList_cons] at h
      cases String.ofList_injective (h : _ = String.ofList [])
    | cons d ds =>
      have hc : c.isUpper = false := by simpa [startsWithCapital] using hn
      have hd : d.isUpper = false := by simpa [startsWithCapital] using ho
      rw [titleCase_ofList_cons, titleCase_ofList_cons, String.ofList_inj, List.cons.injEq] at h
      rw [capital_injective hc hd h.1, h.2]

theorem startsWithCapital_of_isMemberName (h : isMemberName name = true) :
    startsWithCapital name = false := by
  obtain ⟨c, cs, rfl, hc, -⟩ := isMemberName_iff.1 h
  have hbounds := isLower_iff.1 hc
  have hupper : c.isUpper = false := by
    rw [Bool.eq_false_iff, ne_eq, isUpper_iff]
    omega
  simpa [startsWithCapital] using hupper

theorem titleCase_inj (hn : isMemberName name = true) (ho : isMemberName other = true) :
    titleCase name = titleCase other ↔ name = other :=
  titleCase_inj_of_no_capital (startsWithCapital_of_isMemberName hn)
    (startsWithCapital_of_isMemberName ho)

theorem upperSnake_inj_of_isTypeName (hn : isTypeName name = true) (ho : isTypeName other = true) :
    upperSnake name = upperSnake other ↔ name = other := by
  refine ⟨?_, congrArg upperSnake⟩
  obtain ⟨c, cs, rfl, hc, hcs⟩ := isTypeName_iff.1 hn
  obtain ⟨d, ds, rfl, hd, hds⟩ := isTypeName_iff.1 ho
  intro h
  rw [upperSnake_ofList_cons, upperSnake_ofList_cons, String.ofList_inj, List.cons.injEq,
    capital_of_isUpper hc, capital_of_isUpper hd] at h
  rw [h.1, upperRest_injective hcs hds h.2]

/-- The capitals of members are those of the types with the same words. -/
theorem upperSnake_inj (hn : isMemberName name = true) (ho : isMemberName other = true) :
    upperSnake name = upperSnake other ↔ name = other := by
  rw [← upperSnake_titleCase hn, ← upperSnake_titleCase ho,
    upperSnake_inj_of_isTypeName (isTypeName_titleCase hn) (isTypeName_titleCase ho),
    titleCase_inj hn ho]

theorem isLower_upperSnake (name : String) :
    ∀ c ∈ (upperSnake name).toList, c.isLower = false := by
  unfold upperSnake
  intro c hc
  split at hc
  · cases hc
  · next d ds _ =>
    rw [String.toList_ofList] at hc
    rcases List.mem_cons.1 hc with rfl | hc
    · exact isLower_capital d
    · exact isLower_upperRest ds c hc

/-- A name without underscores is a constant's only if the constant has one word. -/
theorem eq_upperSnake_iff (hn : isTypeName name = true) (ho : isTypeName other = true) :
    name = upperSnake other ↔ isOneWord other = true ∧ name = inCapitals other := by
  obtain ⟨c, cs, rfl, hc, hcs⟩ := isTypeName_iff.1 hn
  obtain ⟨d, ds, rfl, hd, hds⟩ := isTypeName_iff.1 ho
  simp only [upperSnake_ofList_cons, isOneWord, inCapitals, String.toList_ofList, List.drop_one,
    List.tail_cons, List.map_cons, String.ofList_inj, List.cons.injEq]
  constructor
  · rintro ⟨hhead, htail⟩
    have hone : ∀ e ∈ ds, e.isUpper = false := by
      intro e he
      rw [Bool.eq_false_iff]
      intro hupper
      have hword := hcs '_' (htail ▸ underscore_mem_upperRest he hupper)
      cases hword
    rw [← upperRest_eq_map hone]
    refine ⟨?_, hhead, htail⟩
    rw [List.all_eq_true]
    intro e he
    rw [hone e he]
    rfl
  · rintro ⟨hone, hhead, htail⟩
    refine ⟨hhead, ?_⟩
    rw [htail, upperRest_eq_map]
    intro e he
    rw [← Bool.not_eq_true']
    exact List.all_eq_true.1 hone e he

end Names

end SchemaBindings.Bindings
