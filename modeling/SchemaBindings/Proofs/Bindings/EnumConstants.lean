import SchemaBindings.Proofs.Bindings.LiteralText
import SchemaBindings.Proofs.Bindings.ObjectKeys
import SchemaBindings.Proofs.Bindings.ScalarText
import SchemaBindings.Proofs.Text.ObjectLines

namespace SchemaBindings.Bindings

open SchemaBindings.Schema SchemaBindings.Text SchemaBindings.Number

theorem isUnescaped_of_isAlphanum {c : Char} (h : c.isAlphanum = true) : isUnescaped c = true := by
  have hbounds := isAlphanum_iff.1 h
  have hprintable : isPrintable c = true := by
    refine List.any_eq_true.2 ⟨(0x20, 0x7e), List.mem_cons_self, ?_⟩
    simp only [Bool.and_eq_true, decide_eq_true_eq]
    omega
  have hquote : c ≠ '"' := by
    rintro rfl
    cases h
  have hslash : c ≠ '\\' := by
    rintro rfl
    cases h
  simp [isUnescaped, hquote, hslash, hprintable]

/-- Letters and digits need no escapes. -/
theorem toList_quote {name : String} (h : ∀ c ∈ name.toList, c.isAlphanum = true) :
    (quote name).toList = '"' :: (name.toList ++ ['"']) := by
  rw [quote_of_isUnescaped fun c hc => isUnescaped_of_isAlphanum (h c hc), String.toList_append,
    String.toList_append]
  rfl

theorem toList_lines (depth : Nat) (texts : List String) :
    (StructBody.lines depth texts).toList =
      (texts.map fun t => List.replicate (2 * depth) ' ' ++ t.toList).flatMap (· ++ ['\n']) := by
  unfold StructBody.lines
  induction texts with
  | nil => rfl
  | cons t texts ih =>
    rw [List.map_cons, String.join_cons, String.toList_append, ih, List.map_cons, List.flatMap_cons]
    simp [String.toList_append, indent]

theorem isAlphanum_of_mem {name : String} (h : isMemberName name = true) :
    ∀ c ∈ name.toList, c.isAlphanum = true := by
  obtain ⟨c, cs, rfl, hc, hcs⟩ := isMemberName_iff.1 h
  rw [String.toList_ofList]
  exact List.forall_mem_cons.2 ⟨isAlphanum_iff.2 (Or.inl (isLower_iff.1 hc)), hcs⟩

theorem isNameChar_of_isAlphanum {c : Char} (h : c.isAlphanum = true) : isNameChar c = true := by
  have hclass : c.isAlpha = true ∨ c.isDigit = true := Bool.or_eq_true_iff.1 h
  rw [isNameChar, isNameStart, Bool.or_eq_true, Bool.or_eq_true]
  exact hclass.imp_left Or.inl

theorem isIdentifier_of_isMemberName {name : String} (h : isMemberName name = true) :
    isIdentifier name = true := by
  obtain ⟨c, cs, rfl, hc, hcs⟩ := isMemberName_iff.1 h
  rw [isIdentifier_iff]
  exact ⟨c, cs, String.toList_ofList, isNameStart_iff.2 (Or.inr (Or.inl hc)),
    fun d hd => isNameChar_of_isAlphanum (hcs d hd)⟩

theorem isNameChar_of_mem {name : String} (h : isIdentifier name = true) :
    ∀ c ∈ name.toList, isNameChar c = true := by
  obtain ⟨c, cs, hname, hc, hcs⟩ := isIdentifier_iff.1 h
  rw [hname]
  exact List.forall_mem_cons.2 ⟨isNameChar_of_isNameStart hc, hcs⟩

/-- No character of a name is one of those that lines and members are told apart by. -/
theorem ne_of_isNameChar {c : Char} (h : isNameChar c = true) :
    c ≠ ' ' ∧ c ≠ ':' ∧ c ≠ '\n' ∧ c ≠ ',' := by
  refine ⟨?_, ?_, ?_, ?_⟩ <;> rintro rfl <;> cases h

/-- The list of names between its brackets. -/
def namesValue (names : List String) : List Char :=
  '[' :: ((quotedNames names).toList ++ [']'])

variable {names : List String}

theorem toList_quotedNames (h : ∀ name ∈ names, isMemberName name = true) :
    (quotedNames names).toList =
      [',', ' '].intercalate (names.map fun name => '"' :: (name.toList ++ ['"'])) := by
  rw [quotedNames, String.toList_intercalate, List.map_map]
  congr 1
  exact List.map_congr_left fun name hn => toList_quote (isAlphanum_of_mem (h name hn))

theorem readQuotedList?_namesValue (h : ∀ name ∈ names, isMemberName name = true) :
    readQuotedList? (namesValue names) = some names := by
  have hcomma : ∀ name ∈ names.map String.toList, ',' ∉ name := by
    refine List.forall_mem_map.2 fun name hn hc => ?_
    exact (ne_of_isNameChar (isNameChar_of_isAlphanum (isAlphanum_of_mem (h name hn) _ hc))).2.2.2 rfl
  have hread := readQuotedList?_quoted (names.map String.toList) hcomma
  rw [List.map_map, List.map_map] at hread
  rw [namesValue, toList_quotedNames h]
  exact hread.trans (congrArg some ((List.map_congr_left fun _ _ => String.ofList_toList).trans
    (List.map_id names)))

theorem lineBreak_not_mem_namesValue (h : ∀ name ∈ names, isMemberName name = true) :
    '\n' ∉ namesValue names := by
  have hquoted : '\n' ∉ (quotedNames names).toList := by
    refine holds_intercalate (P := fun text => '\n' ∉ text.toList) (by simp) ?_ (by simp) ?_
    · intro a b ha hb
      simp [ha, hb]
    · refine List.forall_mem_map.2 fun name hn => ?_
      have hword := isAlphanum_of_mem (h name hn)
      have hname : '\n' ∉ name.toList := fun hc =>
        (ne_of_isNameChar (isNameChar_of_isAlphanum (hword _ hc))).2.2.1 rfl
      simp [toList_quote hword, hname]
  simp [namesValue, hquoted]

/-- A member as it stands on its line. -/
def memberLine (m : String × List Char) : List Char :=
  m.1.toList ++ ':' :: ' ' :: (m.2 ++ [','])

/-- Members on lines of their own are read back. -/
theorem objectMembers_lines (depth : Nat) {texts : List String} {members : List (String × List Char)}
    (ht : texts.map String.toList = members.map memberLine)
    (hkeys : ∀ m ∈ members, ∀ c ∈ m.1.toList, isNameChar c = true)
    (hvalues : ∀ m ∈ members, '\n' ∉ m.2) :
    objectMembers (StructBody.lines depth texts) = members := by
  have hlines : (texts.map fun t => List.replicate (2 * depth) ' ' ++ t.toList) =
      members.map fun m => List.replicate (2 * depth) ' ' ++ memberLine m := by
    have hmap := congrArg (List.map (List.replicate (2 * depth) ' ' ++ ·)) ht
    rwa [List.map_map, List.map_map] at hmap
  have hbreak : ∀ m ∈ members, '\n' ∉ List.replicate (2 * depth) ' ' ++ memberLine m := by
    intro m hm
    have hkey : '\n' ∉ m.1.toList := fun hc => (ne_of_isNameChar (hkeys m hm _ hc)).2.2.1 rfl
    simp [memberLine, hkey, hvalues m hm]
  have hread : ∀ m ∈ members,
      readMember? (List.replicate (2 * depth) ' ' ++ memberLine m) = some m := by
    intro m hm
    refine readMember?_line (2 * depth) m.2 fun c hc => ?_
    have hne := ne_of_isNameChar (hkeys m hm c hc)
    exact ⟨hne.1, hne.2.1⟩
  have hmembers : (members.map fun m => List.replicate (2 * depth) ' ' ++ memberLine m).filterMap
      readMember? = members.map id := by
    rw [List.filterMap_map, List.filterMap_eq_map_iff_forall_eq_some]
    exact hread
  rw [objectMembers, toList_lines, hlines, splitOn_lines _ (List.forall_mem_map.2 hbreak),
    List.filterMap_append, hmembers, List.map_id]
  exact List.append_nil _

/-- The object of an enum has its ordinals under the constants of the enumerants, and the list of
their names. -/
theorem objectMembers_enumMembers (depth : Nat) (h : ∀ name ∈ names, isMemberName name = true) :
    objectMembers (enumMembers depth names) =
      (names.zipIdx.map fun e => (upperSnake e.1, Nat.toDigits 10 e.2))
        ++ [("VALUE_NAMES", namesValue names)] := by
  refine objectMembers_lines depth ?_ ?_ ?_
  · rw [List.map_append, List.map_append, List.map_map, List.map_map]
    congr 1
    · refine List.map_congr_left fun e _ => ?_
      simp [memberLine, decimal, String.toList_append]
    · simp [memberLine, namesValue, String.toList_append]
  · rw [List.forall_mem_append, List.forall_mem_map]
    refine ⟨fun e he => ?_, List.forall_mem_singleton.2 ?_⟩
    · have hmember := h e.1 (List.fst_mem_of_mem_zipIdx he)
      exact isNameChar_of_mem (isIdentifier_upperSnake (isIdentifier_of_isMemberName hmember))
    · exact isNameChar_of_mem (show isIdentifier "VALUE_NAMES" = true from rfl)
  · rw [List.forall_mem_append, List.forall_mem_map]
    refine ⟨fun e _ hc => ?_, List.forall_mem_singleton.2 ?_⟩
    · have hdigit := isDigit_of_mem_toDigits hc
      cases hdigit
    · exact lineBreak_not_mem_namesValue h

theorem readDigits?_namesValue (names : List String) : readDigits? 10 (namesValue names) = none :=
  rfl

theorem readQuotedList?_toDigits (n : Nat) : readQuotedList? (Nat.toDigits 10 n) = none := by
  cases h : Nat.toDigits 10 n with
  | nil => rfl
  | cons c cs =>
    have hc : c.isDigit = true := isDigit_of_mem_toDigits (h ▸ List.mem_cons_self)
    unfold readQuotedList?
    split
    next heq =>
      cases heq
      cases hc
    next => rfl

/-- The ordinals of an enum are under the constants of its enumerants. -/
theorem ordinalEntries_enumMembers (depth : Nat) (h : ∀ name ∈ names, isMemberName name = true) :
    ordinalEntries (enumMembers depth names) = names.zipIdx.map fun e => (upperSnake e.1, e.2) := by
  rw [ordinalEntries, objectMembers_enumMembers depth h, List.filterMap_append, List.filterMap_map]
  have hread : ((fun m : String × List Char => (readDigits? 10 m.2).map fun n => (m.1, n)) ∘
      fun e : String × Nat => (upperSnake e.1, Nat.toDigits 10 e.2)) =
      some ∘ fun e => (upperSnake e.1, e.2) := by
    funext e
    simp [readDigits?_toDigits]
  rw [hread, List.filterMap_eq_map]
  simp [readDigits?_namesValue]

/-- The list of names is the one value of its kind, also where an enumerant has its key. -/
theorem listsUnder_enumMembers (depth : Nat) (h : ∀ name ∈ names, isMemberName name = true) :
    listsUnder "VALUE_NAMES" (enumMembers depth names) = [names] := by
  rw [listsUnder, objectMembers_enumMembers depth h, List.filterMap_append, List.filterMap_map]
  have hordinals : ((fun m : String × List Char =>
      if m.1 = "VALUE_NAMES" then readQuotedList? m.2 else none) ∘
      fun e : String × Nat => (upperSnake e.1, Nat.toDigits 10 e.2)) = fun _ => none := by
    funext e
    simp [readQuotedList?_toDigits]
  rw [hordinals, List.filterMap_none]
  simp [readQuotedList?_namesValue h]

/-- A key that is in a table once leads to one entry. -/
theorem filter_key_eq_singleton {α β : Type} [BEq α] [LawfulBEq α] {table : List (α × β)} {e : α × β}
    (hn : (table.map Prod.fst).Nodup) (he : e ∈ table) :
    table.filter (fun e' => e'.1 == e.1) = [e] := by
  induction table with
  | nil => cases he
  | cons e' table ih =>
    rw [List.map_cons, List.nodup_cons] at hn
    rcases List.mem_cons.1 he with rfl | he
    · have hrest : table.filter (fun e' => e'.1 == e.1) = [] := by
        refine List.filter_eq_nil_iff.2 fun e' he' heq => hn.1 ?_
        rw [← eq_of_beq heq]
        exact List.mem_map_of_mem he'
      rw [List.filter_cons_of_pos (by simp), hrest]
    · have hne : (e'.1 == e.1) = false := by
        refine beq_false_of_ne fun heq => hn.1 ?_
        rw [heq]
        exact List.mem_map_of_mem he
      rw [List.filter_cons_of_neg (by simp [hne])]
      exact ih hn.2 he

/-- Different enumerants have different constants, so each constant stands for one ordinal. -/
theorem filter_ordinalEntries (depth : Nat) (h : ∀ name ∈ names, isMemberName name = true)
    (hn : names.Nodup) {ordinal : Nat} {name : String} (ho : names[ordinal]? = some name) :
    (ordinalEntries (enumMembers depth names)).filter (fun e => e.1 == upperSnake name) =
      [(upperSnake name, ordinal)] := by
  have hkeys : ((names.zipIdx.map fun e => (upperSnake e.1, e.2)).map Prod.fst).Nodup := by
    have hfst : (names.zipIdx.map fun e => (upperSnake e.1, e.2)).map Prod.fst =
        names.map upperSnake := by
      calc (names.zipIdx.map fun e => (upperSnake e.1, e.2)).map Prod.fst
          = (names.zipIdx.map Prod.fst).map upperSnake := by rw [List.map_map, List.map_map]; rfl
        _ = names.map upperSnake := by rw [List.zipIdx_map_fst]
    rw [hfst]
    exact hn.map_on fun name hname other hother heq =>
      (upperSnake_inj (h name hname) (h other hother)).1 heq
  have hmem : (upperSnake name, ordinal) ∈ names.zipIdx.map fun e => (upperSnake e.1, e.2) :=
    List.mem_map.2 ⟨(name, ordinal), List.mem_zipIdx_iff_getElem?.2 ho, rfl⟩
  rw [ordinalEntries_enumMembers depth h]
  exact filter_key_eq_singleton hkeys hmem

def enumerantNames (n : Node) : List String :=
  (n.enumerants?.getD []).map Member.name

variable {context : FileContext} {path name : String} {n : Node} {d : Declaration}

theorem DeclaredAs.text_enum (h : DeclaredAs context path name n d) (hk : n.kind = .enumNode)
    (hne : enumerantNames n ≠ []) :
    d.text = d.place.object (enumMembers (d.place.depth + 2) (enumerantNames n)) := by
  obtain ⟨depth, body, nested, groups, rfl, -, -, u, u', hbody⟩ := h.parts
  cases hbody with
  | enum =>
    unfold enumerantNames at *
    cases hes : n.enumerants? with
    | none => simp [hes] at hne
    | some es => rfl
  | struct hk' | constant hk' | scope hk' => cases hk.symm.trans hk'
  | nothing hk' => simp [hk] at hk'

theorem text_enumerantAt_of_name {type : QualifiedName} {ordinal : UInt16}
    (h : (enumerantNames n)[ordinal.toNat]? = some name) :
    (enumerantAt n type ordinal).text = type.text ++ "." ++ upperSnake name := by
  rw [enumerantNames, List.getElem?_map, Option.map_eq_some_iff] at h
  obtain ⟨e, he, rfl⟩ := h
  exact text_enumerantAt_of_eq_some he

/-- The text denotes the number in two halves, of which the lower has no sign and fits a word. -/
def DenotesInWords (text : String) (i : Int) : Prop :=
  ∃ p : WordPair, Scalar.read? text = some (.words p) ∧ 0 ≤ (p.low : Int) ∧ (p.low : Int) < 2 ^ 32 ∧
    p.high * 2 ^ 32 + p.low = i

theorem denotesInWords_ofInt (i : Int) : DenotesInWords (Literal.words (.ofInt i)).text i := by
  refine ⟨.ofInt i, Scalar.read?_text (.words (.ofInt i)), Int.natCast_nonneg _, ?_,
    Scalar.value_words_ofInt i⟩
  have hpos : 0 ≤ i % (twoPow 32 : Int) := Int.emod_nonneg _ (by decide)
  have hlt : i % (twoPow 32 : Int) < (twoPow 32 : Int) := Int.emod_lt_of_pos _ (by decide)
  simp only [WordPair.ofInt, Int.toNat_of_nonneg hpos]
  exact hlt

/-- The kinds of truth values and integers. -/
def discreteKinds : List Kind :=
  [.bool, .int8, .int16, .int32, .uint8, .uint16, .uint32, .int64, .uint64]

/-- The text denotes the value of a truth value or an integer. -/
def DenotesValue (kind : Kind) (v : Value) (text : String) : Prop :=
  match kind with
  | .bool => Scalar.read? text = some (.flag v.bool)
  | .int8 | .int16 | .int32 => Scalar.read? text = some (.number v.int.toInt)
  | .uint8 | .uint16 | .uint32 => Scalar.read? text = some (.number v.uint.toNat)
  | .int64 => DenotesInWords text v.int.toInt
  | .uint64 => DenotesInWords text v.uint.toNat
  | _ => False

theorem literal_denotesValue {type : TypeRef} (v : Value) (hk : type.kind ∈ discreteKinds)
    (context : FileContext) (used : UsedFiles) :
    ∃ l, Generation.run (literal type v) context used = (.ok l, used) ∧
      DenotesValue type.kind v l.text := by
  unfold literal
  cases hkind : type.kind with
  | bool => exact ⟨_, rfl, Scalar.read?_text (.flag v.bool)⟩
  | int8 | int16 | int32 => exact ⟨_, rfl, Scalar.read?_text (.number v.int.toInt)⟩
  | uint8 | uint16 | uint32 => exact ⟨_, rfl, Scalar.read?_text (.number v.uint.toNat)⟩
  | int64 => exact ⟨_, rfl, denotesInWords_ofInt v.int.toInt⟩
  | uint64 => exact ⟨_, rfl, denotesInWords_ofInt v.uint.toNat⟩
  | _ => simp [discreteKinds, hkind] at hk

/-- An enumerant is written as a constant of its enum, which the object of the enum has exactly once
among its ordinals, with the ordinal, and the list of names has the enumerant at its place; an
ordinal without an enumerant is written as a number. The literals of truth values and integers are
read back as their values, those of 64 bits from their two halves. -/
theorem literals_denote_values (context : FileContext) (used : UsedFiles) :
    (∀ id n type used' (ordinal : UInt16), context.graph.find? id = some n → n.kind = .enumNode →
      Generation.run (qualifiedName n) context used = (.ok type, used') →
      (enumerantNames n).Nodup → (∀ name ∈ enumerantNames n, isMemberName name = true) →
      ∃ l, Generation.run (enumLiteral id ordinal) context used = (.ok l, used') ∧
        (∀ name, (enumerantNames n)[ordinal.toNat]? = some name →
          ∃ key, l.text = type.text ++ "." ++ key ∧
            (∀ depth,
              (ordinalEntries (enumMembers depth (enumerantNames n))).filter (fun e => e.1 == key) =
                [(key, ordinal.toNat)] ∧
              ∃ table, listsUnder "VALUE_NAMES" (enumMembers depth (enumerantNames n)) = [table] ∧
                table[ordinal.toNat]? = some name) ∧
            ∀ context' path own d, DeclaredAs context' path own n d →
              d.text = d.place.object (enumMembers (d.place.depth + 2) (enumerantNames n))) ∧
        ((enumerantNames n).length ≤ ordinal.toNat → l.text = decimal ordinal.toNat)) ∧
    ∀ (type : TypeRef) (v : Value), type.kind ∈ discreteKinds →
      ∃ l, Generation.run (literal type v) context used = (.ok l, used) ∧
        DenotesValue type.kind v l.text := by
  refine ⟨?_, fun type v hk => literal_denotesValue v hk context used⟩
  intro id n type used' ordinal hfind hk hq hnodup hmember
  refine ⟨enumerantAt n type ordinal, run_enumLiteral_eq_ok_iff.2 ⟨n, type, hfind, hq, rfl⟩,
    fun name hname => ?_, fun hle => text_enumerantAt_of_le (by simpa [enumerantNames] using hle)⟩
  refine ⟨upperSnake name, text_enumerantAt_of_name hname, fun depth => ⟨?_, ?_⟩, ?_⟩
  · exact filter_ordinalEntries depth hmember hnodup hname
  · exact ⟨_, listsUnder_enumMembers depth hmember, hname⟩
  · intro context' path own d hd
    exact hd.text_enum hk (List.ne_nil_of_mem (List.mem_of_getElem? hname))

/-- The second color of a palette, an ordinal past its colors, and a negative number of 64 bits. -/
theorem literals_denote_values_palette :
    (∃ l key, Generation.run (enumLiteral 2 1) Palette.context [] = (.ok l, []) ∧
      l.text = "module.Color.DEEP_BLUE" ∧ l.text = "module.Color" ++ "." ++ key ∧
      (ordinalEntries (enumMembers 3 ["red", "deepBlue"])).filter (fun e => e.1 == key) =
        [(key, 1)]) ∧
    (∃ l, Generation.run (enumLiteral 2 7) Palette.context [] = (.ok l, []) ∧ l.text = decimal 7) ∧
    ∃ l, Generation.run (literal (.plain .int64 0) { Value.zero .int64 with int := -5 })
        Palette.context [] = (.ok l, []) ∧ DenotesInWords l.text (-5) := by
  obtain ⟨henum, hscalar⟩ := literals_denote_values Palette.context []
  have hcolor := fun ordinal => henum 2 Palette.color ⟨.own, ["Color"]⟩ [] ordinal rfl rfl rfl
    (by decide) (by decide)
  refine ⟨?_, ?_, hscalar (.plain .int64 0) _ (by decide)⟩
  · obtain ⟨l, hrun, hin, -⟩ := hcolor 1
    obtain ⟨key, htext, hentries, -⟩ := hin "deepBlue" rfl
    refine ⟨l, key, hrun, ?_, htext, (hentries 3).1⟩
    cases hrun
    rfl
  · obtain ⟨l, hrun, -, hout⟩ := hcolor 7
    exact ⟨l, hrun, hout (by decide)⟩

end SchemaBindings.Bindings
