import SchemaBindings.Proofs.Text.Digits
import SchemaBindings.Text.Quoted

namespace SchemaBindings.Text

/-- The key and the value of a member that stands on a line: the value goes up to a comma. -/
def readMember? (line : List Char) : Option (String × List Char) :=
  let member := line.dropWhile (· == ' ')
  match member.dropWhile (· != ':') with
  | ':' :: ' ' :: value =>
    if value.getLast? = some ',' then
      some (String.ofList (member.takeWhile (· != ':')), value.dropLast)
    else none
  | _ => none

/-- The members of an object, in order. -/
def objectMembers (text : String) : List (String × List Char) :=
  (text.toList.splitOn '\n').filterMap readMember?

/-- The members whose values are numbers. -/
def ordinalEntries (text : String) : List (String × Nat) :=
  (objectMembers text).filterMap fun m => (readDigits? 10 m.2).map fun n => (m.1, n)

/-- The text between double quotes, if there is nothing to escape in it. -/
def readQuoted? (cs : List Char) : Option String :=
  match cs.dropWhile (· == ' ') with
  | '"' :: r => if r.getLast? = some '"' then some (String.ofList r.dropLast) else none
  | _ => none

/-- The quoted texts between square brackets. -/
def readQuotedList? : List Char → Option (List String)
  | '[' :: cs =>
    if cs.getLast? = some ']' then some ((cs.dropLast.splitOn ',').filterMap readQuoted?) else none
  | _ => none

/-- The lists of texts that members with a key have for values. -/
def listsUnder (key text : String) : List (List String) :=
  (objectMembers text).filterMap fun m => if m.1 = key then readQuotedList? m.2 else none

/-- Lines that end with a line break are told apart by it. -/
theorem splitOn_lines (lines : List (List Char)) (h : ∀ line ∈ lines, '\n' ∉ line) :
    (lines.flatMap (· ++ ['\n'])).splitOn '\n' = lines ++ [[]] := by
  have hflat : lines.flatMap (· ++ ['\n']) = ['\n'].intercalate (lines ++ [[]]) := by
    clear h
    induction lines with
    | nil => rfl
    | cons line lines ih =>
      cases lines with
      | nil => simp [List.intercalate]
      | cons line' lines =>
        rw [List.flatMap_cons, ih]
        simp [List.intercalate, List.intersperse]
  rw [hflat, List.splitOn_intercalate]
  · exact List.forall_mem_append.2 ⟨h, by simp⟩
  · simp

/-- A member is read from its line, if its key has neither blank nor colon in it. -/
theorem readMember?_line (depth : Nat) {key : String} (value : List Char)
    (hkey : ∀ c ∈ key.toList, c ≠ ' ' ∧ c ≠ ':') :
    readMember? (List.replicate depth ' ' ++ (key.toList ++ ':' :: ' ' :: (value ++ [','])))
      = some (key, value) := by
  have hblank : ∀ c ∈ List.replicate depth ' ', (c == ' ') = true := by
    intro c hc
    rw [List.eq_of_mem_replicate hc]
    rfl
  have hcolon : ∀ c ∈ key.toList, (c != ':') = true := fun c hc => bne_iff_ne.2 (hkey c hc).2
  have hmember : (key.toList ++ ':' :: ' ' :: (value ++ [','])).dropWhile (· == ' ')
      = key.toList ++ ':' :: ' ' :: (value ++ [',']) := by
    cases hcs : key.toList with
    | nil => rfl
    | cons c cs =>
      have hc : (c == ' ') = false := beq_false_of_ne (hkey c (hcs ▸ List.mem_cons_self)).1
      rw [List.cons_append, List.dropWhile_cons_of_neg (by simp [hc])]
  unfold readMember?
  rw [List.dropWhile_append_of_pos hblank, hmember]
  dsimp only
  rw [List.dropWhile_append_of_pos hcolon, List.takeWhile_append_of_pos hcolon]
  simp

/-- The characters that stand for themselves between double quotes. -/
def isUnescaped (c : Char) : Bool :=
  c != '"' && c != '\\' && isPrintable c

theorem isUnescaped_of_eq {text : String} {cs : List Char} (ht : text = String.ofList cs)
    (h : cs.all isUnescaped = true) : ∀ c ∈ text.toList, isUnescaped c = true := by
  rw [ht, String.toList_ofList]
  exact List.all_eq_true.1 h

theorem quotedChar_of_isUnescaped {c : Char} (h : isUnescaped c = true) :
    quotedChar c = String.singleton c := by
  simp only [isUnescaped, Bool.and_eq_true, bne_iff_ne] at h
  rw [quotedChar, if_neg h.1.1, if_neg h.1.2, if_pos h.2]

theorem quote_of_isUnescaped {text : String} (h : ∀ c ∈ text.toList, isUnescaped c = true) :
    quote text = "\"" ++ text ++ "\"" := by
  have hchars : text.toList.map quotedChar = text.toList.map String.singleton :=
    List.map_congr_left fun c hc => quotedChar_of_isUnescaped (h c hc)
  have hjoin (cs : List Char) : (String.join (cs.map String.singleton)).toList = cs := by
    induction cs with
    | nil => rfl
    | cons c cs ih =>
      rw [List.map_cons, String.join_cons, String.toList_append, ih, String.toList_singleton,
        List.singleton_append]
  rw [quote, hchars, String.toList_inj.1 (hjoin text.toList)]

theorem readQuoted?_quoted (blanks : Nat) (name : List Char) :
    readQuoted? (List.replicate blanks ' ' ++ '"' :: (name ++ ['"'])) = some (String.ofList name) := by
  have hblank : ∀ c ∈ List.replicate blanks ' ', (c == ' ') = true := by
    intro c hc
    rw [List.eq_of_mem_replicate hc]
    rfl
  unfold readQuoted?
  rw [List.dropWhile_append_of_pos hblank]
  simp

/-- A blank behind each separator belongs to the piece that follows. -/
theorem intercalate_blank (x : Char) (piece : List Char) (pieces : List (List Char)) :
    [x, ' '].intercalate (piece :: pieces) = [x].intercalate (piece :: pieces.map (' ' :: ·)) := by
  induction pieces generalizing piece with
  | nil => rfl
  | cons next pieces ih =>
    rw [List.intercalate_cons_cons, ih, List.map_cons, List.intercalate_cons_cons]
    cases pieces <;> simp [List.intercalate]

/-- A list of quoted texts is read back, if they have no comma in them. -/
theorem readQuotedList?_quoted (names : List (List Char)) (h : ∀ name ∈ names, ',' ∉ name) :
    readQuotedList? ('[' :: ([',', ' '].intercalate (names.map fun name => '"' :: (name ++ ['"']))
      ++ [']'])) = some (names.map String.ofList) := by
  have hlist : ∀ cs, readQuotedList? ('[' :: (cs ++ [']'])) =
      some ((cs.splitOn ',').filterMap readQuoted?) := by
    intro cs
    simp [readQuotedList?]
  rw [hlist]
  cases names with
  | nil => rfl
  | cons name names =>
    have hfirst : readQuoted? ('"' :: (name ++ ['"'])) = some (String.ofList name) :=
      readQuoted?_quoted 0 name
    have hrest : (readQuoted? ∘ fun name => ' ' :: '"' :: (name ++ ['"'])) = some ∘ String.ofList :=
      funext (readQuoted?_quoted 1)
    rw [List.forall_mem_cons] at h
    rw [List.map_cons, intercalate_blank, List.splitOn_intercalate]
    · rw [List.filterMap_cons_some hfirst, List.map_map, List.filterMap_map, List.map_cons,
        ← List.filterMap_eq_map, ← hrest]
      rfl
    · rw [List.forall_mem_cons, List.map_map, List.forall_mem_map]
      refine ⟨by simpa using h.1, fun name hn => ?_⟩
      simpa using h.2 name hn
    · simp

end SchemaBindings.Text
