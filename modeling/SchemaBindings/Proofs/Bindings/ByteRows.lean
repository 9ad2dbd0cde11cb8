import Mathlib.Algebra.Ring.Nat
import SchemaBindings.Proofs.Bindings.Execution
import SchemaBindings.Proofs.Outcome
import SchemaBindings.Proofs.Text.Digits

namespace SchemaBindings.Bindings

open SchemaBindings.Text SchemaBindings.Outcome

/-- Takes blanks and line breaks off both ends. -/
def trimGaps (cs : List Char) : List Char :=
  ((cs.dropWhile isGap).reverse.dropWhile isGap).reverse

/-- The byte that decimal digits denote, with blanks and line breaks around them. -/
def readByte? (cs : List Char) : Option UInt8 :=
  (readDigits? 10 (trimGaps cs)).bind fun n => if n < 256 then some (UInt8.ofNat n) else none

/-- The bytes that stand between the commas of a text; the empty text holds none. -/
def readBytes? (text : String) : Option (List UInt8) :=
  if text = "" then some [] else (text.toList.splitOn ',').mapM readByte?

section Gaps

variable {gap cs : List Char}

theorem dropWhile_isGap (h : ∀ c ∈ cs, isGap c = false) : cs.dropWhile isGap = cs := by
  cases cs with
  | nil => rfl
  | cons c cs => rw [List.dropWhile_cons, h c List.mem_cons_self]; rfl

theorem trimGaps_append (hgap : ∀ c ∈ gap, isGap c = true) (h : ∀ c ∈ cs, isGap c = false) :
    trimGaps (gap ++ cs) = cs := by
  have hreverse : ∀ c ∈ cs.reverse, isGap c = false := fun c hc => h c (List.mem_reverse.1 hc)
  rw [trimGaps, List.dropWhile_append_of_pos hgap, dropWhile_isGap h, dropWhile_isGap hreverse,
    List.reverse_reverse]

end Gaps

/-- A number right-aligned in columns. -/
def RightAligned (columns n : Nat) (cell : String) : Prop :=
  cell.length = columns ∧
    ∃ blanks, cell = String.ofList (List.replicate blanks ' ') ++ decimal n

/-- A piece of text that says a byte: its digits, behind blanks and line breaks. -/
def SaysByte (b : UInt8) (piece : String) : Prop :=
  ∃ gap, IsBlank gap ∧ piece = gap ++ decimal b.toNat

theorem isDigit_of_mem_decimal {n : Nat} {c : Char} (h : c ∈ (decimal n).toList) :
    c.isDigit = true := by
  rw [decimal, String.toList_ofList] at h
  exact isDigit_of_mem_toDigits h

theorem isGap_of_isDigit {c : Char} (h : c.isDigit = true) : isGap c = false := by
  rw [Bool.eq_false_iff, ne_eq, isGap_iff]
  rintro (rfl | rfl) <;> cases h

namespace SaysByte

variable {b : UInt8} {piece : String}

theorem readByte? (h : SaysByte b piece) : readByte? piece.toList = some b := by
  obtain ⟨gap, hgap, rfl⟩ := h
  have htrim : trimGaps (gap ++ decimal b.toNat).toList = (decimal b.toNat).toList := by
    rw [String.toList_append]
    exact trimGaps_append hgap fun c hc => isGap_of_isDigit (isDigit_of_mem_decimal hc)
  have hread : readDigits? 10 (decimal b.toNat).toList = some b.toNat := by
    rw [decimal, String.toList_ofList]
    exact readDigits?_toDigits (by decide) (by decide) b.toNat
  rw [Bindings.readByte?, htrim, hread, Option.bind_some, if_pos b.toNat_lt, UInt8.ofNat_toNat]

theorem comma_not_mem (h : SaysByte b piece) : ',' ∉ piece.toList := by
  obtain ⟨gap, hgap, rfl⟩ := h
  rw [String.toList_append, List.mem_append]
  rintro (hc | hc)
  · cases hgap ',' hc
  · cases isDigit_of_mem_decimal hc

theorem ne_empty (h : SaysByte b piece) : piece ≠ "" := by
  obtain ⟨gap, -, rfl⟩ := h
  intro hempty
  have hdecimal := (String.append_eq_empty_iff.1 hempty).2
  exact Nat.toDigits_ne_nil (String.ofList_injective (hdecimal : _ = String.ofList []))

end SaysByte

theorem mapM_readByte? {bytes : List UInt8} {pieces : List String}
    (h : List.Forall₂ SaysByte bytes pieces) :
    (pieces.map String.toList).mapM readByte? = some bytes := by
  induction h with
  | nil => rfl
  | cons hb _ ih =>
    rw [List.map_cons, List.mapM_cons, hb.readByte?, ih]
    rfl

/-- Bytes are read back from pieces between commas. -/
theorem readBytes?_intercalate {bytes : List UInt8} {pieces : List String}
    (h : List.Forall₂ SaysByte bytes pieces) :
    readBytes? (",".intercalate pieces) = some bytes := by
  cases hpieces : pieces with
  | nil =>
    rw [hpieces] at h
    cases h
    rfl
  | cons piece rest =>
    have hne : ",".intercalate pieces ≠ "" := by
      rw [hpieces] at h ⊢
      cases h with
      | @cons b _ _ _ hb _ =>
        obtain hrest | hrest := eq_or_ne rest []
        · rw [hrest, String.intercalate_singleton]
          exact hb.ne_empty
        · rw [String.intercalate_cons_of_ne_nil hrest]
          intro hempty
          rw [String.append_eq_empty_iff, String.append_eq_empty_iff] at hempty
          exact hb.ne_empty hempty.1.1
    have hsplit : (",".intercalate pieces).toList.splitOn ',' = pieces.map String.toList := by
      rw [String.toList_intercalate]
      apply List.splitOn_intercalate
      · intro cs hcs
        obtain ⟨piece, hpiece, rfl⟩ := List.mem_map.1 hcs
        obtain ⟨b, -, hb⟩ := exists_of_forall₂_right h hpiece
        exact hb.comma_not_mem
      · rw [hpieces]
        exact List.cons_ne_nil _ _
    rw [← hpieces, readBytes?, if_neg hne, hsplit]
    exact mapM_readByte? h

/-- A byte right-aligned in four columns. -/
def byteCell (b : UInt8) : String :=
  String.ofList (List.replicate (4 - (Nat.toDigits 10 b.toNat).length) ' ') ++ decimal b.toNat

/-- Bytes on a line, with commas between them. -/
def rowText (row : List UInt8) : String :=
  ",".intercalate (row.map byteCell)

theorem rightAligned_byteCell (b : UInt8) : RightAligned 4 b.toNat (byteCell b) := by
  have hdigits : (Nat.toDigits 10 b.toNat).length ≤ 4 := by
    rw [Nat.length_toDigits_le_iff (by decide) (by decide)]
    have hb := b.toNat_lt
    omega
  refine ⟨?_, _, rfl⟩
  rw [byteCell, String.length_append, decimal, String.length_ofList, String.length_ofList,
    List.length_replicate]
  omega

theorem saysByte_byteCell {gap : String} (h : IsBlank gap) (b : UInt8) :
    SaysByte b (gap ++ byteCell b) := by
  exact ⟨gap ++ String.ofList (List.replicate (4 - (Nat.toDigits 10 b.toNat).length) ' '),
    h.append (isBlank_blanks _), by rw [byteCell, String.append_assoc]⟩

section Rows

variable (depth : Nat)

theorem bytesFrom_cons (column : Nat) (b : UInt8) (bs : List UInt8) :
    bytesFrom depth column (b :: bs) =
      (if column = 8 then "\n" ++ indent depth else "") ++ byteCell b
        ++ (if bs.isEmpty then "" else ",")
        ++ bytesFrom depth (if column = 8 then 1 else column + 1) bs := by
  rw [bytesFrom, byteCell]
  simp only [String.append_assoc]

/-- Whatever column a byte stands in, a piece between commas says it. -/
theorem bytesFrom_eq_intercalate (column : Nat) (bytes : List UInt8) :
    ∃ pieces, bytesFrom depth column bytes = ",".intercalate pieces ∧
      List.Forall₂ SaysByte bytes pieces := by
  have hgap (column : Nat) : IsBlank (if column = 8 then "\n" ++ indent depth else "") := by
    have hline : IsBlank "\n" := by simp [IsBlank, isGap]
    split_ifs
    · exact hline.append (isBlank_indent depth)
    · simp [IsBlank]
  induction bytes generalizing column with
  | nil => exact ⟨[], rfl, .nil⟩
  | cons b bs ih =>
    rw [bytesFrom_cons]
    obtain ⟨pieces, htext, hpieces⟩ := ih (if column = 8 then 1 else column + 1)
    refine ⟨_ :: pieces, ?_, .cons (saysByte_byteCell (hgap column) b) hpieces⟩
    rw [htext]
    cases hpieces with
    | nil =>
      rw [List.isEmpty_nil, if_pos rfl, String.intercalate_nil, String.append_empty,
        String.append_empty, String.intercalate_singleton]
    | cons _ _ =>
      rw [List.isEmpty_cons, if_neg Bool.false_ne_true, String.intercalate_cons_cons]

/-- A full row is followed by a line break and an indentation. -/
theorem bytesFrom_eight {bytes : List UInt8} (h : bytes ≠ []) :
    bytesFrom depth 8 bytes = "\n" ++ indent depth ++ bytesText bytes depth := by
  cases bytes with
  | nil => exact absurd rfl h
  | cons b bs =>
    have hzero : ¬(0 : Nat) = 8 := by decide
    rw [bytesText, bytesFrom_cons, bytesFrom_cons, if_pos rfl, if_pos rfl, if_neg hzero,
      if_neg hzero, String.empty_append]
    simp only [String.append_assoc]

/-- Bytes for which there is room stay on the line. -/
theorem bytesFrom_append {column : Nat} {row rest : List UInt8} (hne : row ≠ [])
    (h : column + row.length ≤ 8) :
    bytesFrom depth column (row ++ rest) =
      rowText row ++
        if rest.isEmpty then "" else "," ++ bytesFrom depth (column + row.length) rest := by
  induction row generalizing column with
  | nil => exact absurd rfl hne
  | cons b row ih =>
    rw [List.length_cons] at h
    have hcolumn : column ≠ 8 := by omega
    rw [List.cons_append, bytesFrom_cons, if_neg hcolumn, if_neg hcolumn, String.empty_append]
    cases row with
    | nil =>
      rw [List.nil_append, rowText, List.map_singleton, String.intercalate_singleton]
      cases rest with
      | nil => simp [bytesFrom]
      | cons b' rest => simp [String.append_assoc]
    | cons b' row =>
      have hlength : column + (b :: b' :: row).length = column + 1 + (b' :: row).length := by
        simp only [List.length_cons]
        omega
      rw [ih (List.cons_ne_nil _ _) (by omega), hlength, List.cons_append, List.isEmpty_cons,
        if_neg Bool.false_ne_true, rowText, rowText, List.map_cons, List.map_cons, List.map_cons,
        String.intercalate_cons_cons]
      simp only [String.append_assoc]

/-- Eight bytes make a row if there are more of them. -/
theorem bytesText_append {row rest : List UInt8} (hrow : row.length = 8) (hrest : rest ≠ []) :
    bytesText (row ++ rest) depth =
      rowText row ++ (",\n" ++ indent depth) ++ bytesText rest depth := by
  have hne : row ≠ [] := by
    rintro rfl
    cases hrow
  have hbreak : ",\n" = "," ++ "\n" := rfl
  rw [bytesText, bytesFrom_append depth hne (by omega), hrow, if_neg (by simpa using hrest),
    Nat.zero_add, bytesFrom_eight depth hrest, hbreak]
  simp only [String.append_assoc]

theorem bytesText_of_length_le {row : List UInt8} (hne : row ≠ []) (h : row.length ≤ 8) :
    bytesText row depth = rowText row := by
  have hrow : bytesFrom depth 0 (row ++ []) = _ := bytesFrom_append depth hne (by omega)
  rwa [List.append_nil, List.isEmpty_nil, if_pos rfl, String.append_empty] at hrow

/-- Rows are full up to the last, which is not empty. -/
structure RowsOf (rows : List (List UInt8)) (bytes : List UInt8) : Prop where
  flatten : rows.flatten = bytes
  ne_nil : ∀ row ∈ rows, row ≠ []
  length_le : ∀ row ∈ rows, row.length ≤ 8
  full : ∀ row ∈ rows.dropLast, row.length = 8

theorem RowsOf.cons {row rest : List UInt8} {rows : List (List UInt8)} (h : RowsOf rows rest)
    (hrow : row.length = 8) : RowsOf (row :: rows) (row ++ rest) where
  flatten := by rw [List.flatten_cons, h.flatten]
  ne_nil := by
    refine List.forall_mem_cons.2 ⟨?_, h.ne_nil⟩
    rintro rfl
    cases hrow
  length_le := List.forall_mem_cons.2 ⟨hrow.le, h.length_le⟩
  full := by
    intro row' hrow'
    cases rows with
    | nil => cases hrow'
    | cons next rows =>
      rw [List.dropLast_cons_cons] at hrow'
      rcases List.mem_cons.1 hrow' with rfl | hrow'
      · exact hrow
      · exact h.full row' hrow'

/-- The text of bytes is that of their rows, each on a line of its own. -/
theorem exists_rows (bytes : List UInt8) :
    ∃ rows, RowsOf rows bytes ∧
      bytesText bytes depth = (",\n" ++ indent depth).intercalate (rows.map rowText) := by
  -- a row is cut off as long as more than eight bytes are left
  induction hn : bytes.length using Nat.strongRecOn generalizing bytes with
  | ind n ih =>
    obtain rfl | hne := eq_or_ne bytes []
    · exact ⟨[], ⟨rfl, nofun, nofun, nofun⟩, rfl⟩
    obtain hle | hlt := le_or_gt bytes.length 8
    · refine ⟨[bytes], ⟨List.flatten_singleton, ?_, ?_, nofun⟩, ?_⟩
      · exact List.forall_mem_singleton.2 hne
      · exact List.forall_mem_singleton.2 hle
      · rw [List.map_singleton, String.intercalate_singleton]
        exact bytesText_of_length_le depth hne hle
    · have hrow : (bytes.take 8).length = 8 := List.length_take_of_le hlt.le
      have hlength : (bytes.drop 8).length = bytes.length - 8 := List.length_drop
      have hrest : bytes.drop 8 ≠ [] := by
        rw [← List.length_pos_iff]
        omega
      obtain ⟨rows, hrows, htext⟩ := ih _ (by omega) (bytes.drop 8) rfl
      have hne' : rows.map rowText ≠ [] := by
        intro hnil
        rw [List.map_eq_nil_iff] at hnil
        exact hrest (by rw [← hrows.flatten, hnil]; rfl)
      have hall := hrows.cons hrow
      rw [List.take_append_drop] at hall
      refine ⟨bytes.take 8 :: rows, hall, ?_⟩
      calc bytesText bytes depth
          = bytesText (bytes.take 8 ++ bytes.drop 8) depth := by rw [List.take_append_drop]
        _ = rowText (bytes.take 8) ++ (",\n" ++ indent depth) ++ bytesText (bytes.drop 8) depth :=
          bytesText_append depth hrow hrest
        _ = _ := by rw [htext, List.map_cons, String.intercalate_cons_of_ne_nil hne']

end Rows

/-- The bytes can be read back from their text by cutting it at the commas. They stand in rows of
eight: a line break and an indentation follow the comma of a full row if there are more bytes, a
comma follows every other byte but the last, and each byte takes four columns. -/
theorem byte_rows_read_back (bytes : List UInt8) (depth : Nat) :
    readBytes? (bytesText bytes depth) = some bytes ∧
    (bytesText bytes depth = "" ↔ bytes = []) ∧
    (∀ b, RightAligned 4 b.toNat (byteCell b)) ∧
    ∃ rows : List (List UInt8), rows.flatten = bytes ∧
      (∀ row ∈ rows.dropLast, row.length = 8) ∧ (∀ row ∈ rows, row ≠ [] ∧ row.length ≤ 8) ∧
      bytesText bytes depth =
        (",\n" ++ String.ofList (List.replicate (2 * depth) ' ')).intercalate
          (rows.map fun row => ",".intercalate (row.map byteCell)) := by
  have hread : readBytes? (bytesText bytes depth) = some bytes := by
    obtain ⟨pieces, htext, hpieces⟩ := bytesFrom_eq_intercalate depth 0 bytes
    rw [bytesText, htext]
    exact readBytes?_intercalate hpieces
  refine ⟨hread, ⟨?_, ?_⟩, rightAligned_byteCell, ?_⟩
  · intro hempty
    rw [hempty] at hread
    exact (Option.some.inj hread).symm
  · rintro rfl
    rfl
  · obtain ⟨rows, hrows, htext⟩ := exists_rows depth bytes
    exact ⟨rows, hrows.flatten, hrows.full,
      fun row h => ⟨hrows.ne_nil row h, hrows.length_le row h⟩, htext⟩

/-- Nine bytes take two rows. -/
example : bytesText [0, 1, 2, 3, 4, 5, 6, 7, 255] 1 =
    "   0,   1,   2,   3,   4,   5,   6,   7,\n   255" := by
  decide

end SchemaBindings.Bindings
