import SchemaBindings.Proofs.Bindings.LiteralText

namespace SchemaBindings.Bindings

open SchemaBindings.Schema SchemaBindings.Layout SchemaBindings.Text

/-- What a search for words is inside of: nothing that it looks at, the name of a member behind its
dot, a word, or a string literal. -/
inductive Scan where
  | code
  | member
  | word (chars : List Char)
  | literal (quote : Char)
  | escaped (quote : Char)
  deriving DecidableEq, Repr

namespace Scan

/-- Where a character leads that is no part of a name. -/
def apart (c : Char) : Scan :=
  if c = '.' then member
  else if c = '"' ∨ c = '\x27' then literal c
  else code

def step : Scan → Char → Scan
  | code, c => if isNameChar c then word [c] else apart c
  | member, c => if isNameChar c then member else apart c
  | word cs, c => if isNameChar c then word (cs ++ [c]) else apart c
  | literal q, c => if c = q then code else if c = '\\' then escaped q else literal q
  | escaped q, _ => literal q

/-- The word that ends in front of a character. -/
def ended : Scan → Char → List (List Char)
  | word cs, c => if isNameChar c then [] else [cs]
  | _, _ => []

/-- The word that the search is inside of. -/
def pending : Scan → List (List Char)
  | word cs => [cs]
  | _ => []

def run (s : Scan) (cs : List Char) : Scan :=
  cs.foldl step s

/-- The words that end among the characters. -/
def words : Scan → List Char → List (List Char)
  | _, [] => []
  | s, c :: cs => s.ended c ++ words (s.step c) cs

theorem run_append (s : Scan) (cs ds : List Char) : s.run (cs ++ ds) = (s.run cs).run ds :=
  List.foldl_append

theorem words_append (s : Scan) (cs ds : List Char) :
    s.words (cs ++ ds) = s.words cs ++ (s.run cs).words ds := by
  induction cs generalizing s with
  | nil => rfl
  | cons c cs ih => rw [List.cons_append, words, ih, words, List.append_assoc]; rfl

theorem run_member {cs : List Char} (h : ∀ c ∈ cs, isNameChar c = true) :
    member.run cs = member ∧ member.words cs = [] := by
  induction cs with
  | nil => exact ⟨rfl, rfl⟩
  | cons c cs ih =>
    rw [List.forall_mem_cons] at h
    have hstep : member.step c = member := if_pos h.1
    rw [run, List.foldl_cons, words, hstep]
    exact ih h.2

theorem run_word (w : List Char) {cs : List Char} (h : ∀ c ∈ cs, isNameChar c = true) :
    (word w).run cs = word (w ++ cs) ∧ (word w).words cs = [] := by
  induction cs generalizing w with
  | nil => exact ⟨congrArg word (List.append_nil w).symm, rfl⟩
  | cons c cs ih =>
    rw [List.forall_mem_cons] at h
    have hstep : (word w).step c = word (w ++ [c]) := if_pos h.1
    have hended : (word w).ended c = [] := if_pos h.1
    rw [run, List.foldl_cons, words, hstep, hended, List.append_cons w c cs]
    exact ih (w ++ [c]) h.2

theorem run_blank {cs : List Char} (h : ∀ c ∈ cs, isGap c = true) :
    code.run cs = code ∧ code.words cs = [] := by
  induction cs with
  | nil => exact ⟨rfl, rfl⟩
  | cons c cs ih =>
    rw [List.forall_mem_cons] at h
    have hstep : code.step c = code := by rcases isGap_iff.1 h.1 with rfl | rfl <;> rfl
    rw [run, List.foldl_cons, words, hstep]
    exact ih h.2

theorem run_literal {q : Char} {cs : List Char} (h : ∀ c ∈ cs, c ≠ q ∧ c ≠ '\\') :
    (literal q).run cs = literal q ∧ (literal q).words cs = [] := by
  induction cs with
  | nil => exact ⟨rfl, rfl⟩
  | cons c cs ih =>
    rw [List.forall_mem_cons] at h
    have hstep : (literal q).step c = literal q := by rw [step, if_neg h.1.1, if_neg h.1.2]
    rw [run, List.foldl_cons, words, hstep]
    exact ih h.2

end Scan

/-- The words of code that name something by themselves: neither members, which are named behind a
dot, nor what string literals are made of. Keywords and numbers are among them. -/
def freeNames (text : String) : List String :=
  (Scan.code.words text.toList ++ (Scan.code.run text.toList).pending).map String.ofList

example : freeNames "return x.y(\"z\", _w);" = ["return", "x", "_w"] := by decide

namespace View

/-- The characters of the variable that holds the view's storage. -/
def storageWord : View → List Char
  | reader => ['_', 'r', 'e', 'a', 'd', 'e', 'r']
  | builder => ['_', 'b', 'u', 'i', 'l', 'd', 'e', 'r']

theorem storage_eq (view : View) : view.storage = String.ofList view.storageWord := by
  cases view <;> rfl

theorem toList_storage (view : View) : view.storage.toList = view.storageWord := by
  rw [storage_eq, String.toList_ofList]

theorem storageWord_injective {view other : View} (h : view.storageWord = other.storageWord) :
    view = other := by
  cases view <;> cases other <;> first | rfl | cases h

/-- The word is not the storage of another view. -/
def Allows (view : View) (word : List Char) : Prop :=
  ∀ other : View, word = other.storageWord → other = view

theorem allows_storageWord (view : View) : view.Allows view.storageWord :=
  fun _ h => storageWord_injective h.symm

theorem allows_of_head {c : Char} (hc : c ≠ '_') (view : View) (cs : List Char) :
    view.Allows (c :: cs) := by
  intro other h
  cases other <;> exact absurd (List.cons.inj h).1 hc

end View

/-- Reading the text leads from one point to another, and no word that ends on the way is the storage
of another view. -/
structure Scans (view : View) (s : Scan) (text : String) (t : Scan) : Prop where
  run : s.run text.toList = t
  words : ∀ word ∈ s.words text.toList, view.Allows word

/-- Where a text can end: outside of literals, and not in the storage of another view. -/
def Scan.Rests (view : View) : Scan → Prop
  | code | member => True
  | word cs => view.Allows cs
  | literal _ | escaped _ => False

/-- The text does not go on with a name that stands before it. -/
def Opens (text : String) : Prop :=
  ∃ c cs, text.toList = c :: cs ∧ isNameChar c = false

def IsWord (text : String) : Prop :=
  ∀ c ∈ text.toList, isNameChar c = true

/-- Once a word has ended, it does not matter what stood before. -/
theorem Scan.Rests.step_eq {view : View} {t : Scan} (h : t.Rests view) {c : Char}
    (hc : isNameChar c = false) :
    t.step c = code.step c ∧ ∀ word ∈ t.ended c, view.Allows word := by
  cases t with
  | code => exact ⟨rfl, nofun⟩
  | member => exact ⟨by simp [step, hc], nofun⟩
  | word cs =>
    refine ⟨by simp [step, hc], ?_⟩
    simp only [ended, hc, Bool.false_eq_true, if_false, List.forall_mem_singleton]
    exact h
  | literal q => exact h.elim
  | escaped q => exact h.elim

theorem Opens.append {a : String} (h : Opens a) (b : String) : Opens (a ++ b) := by
  obtain ⟨c, cs, hcs, hc⟩ := h
  exact ⟨c, cs ++ b.toList, by rw [String.toList_append, hcs, List.cons_append], hc⟩

theorem opens_of_eq {text : String} {c : Char} {cs : List Char} (ht : text = String.ofList (c :: cs))
    (hc : isNameChar c = false) : Opens text :=
  ⟨c, cs, by rw [ht, String.toList_ofList], hc⟩

theorem IsWord.append {a b : String} (ha : IsWord a) (hb : IsWord b) : IsWord (a ++ b) := by
  intro c hc
  rw [String.toList_append, List.mem_append] at hc
  exact hc.elim (ha c) (hb c)

theorem isWord_of_eq {text : String} {cs : List Char} (ht : text = String.ofList cs)
    (h : cs.all isNameChar = true) : IsWord text := by
  intro c hc
  rw [ht, String.toList_ofList] at hc
  exact List.all_eq_true.1 h c hc

/-- Reads a text that is written out, and does not come to an end if some view's storage is among its
words. -/
def Scan.read? (s : Scan) (cs : List Char) : Option Scan :=
  if (s.words cs).all fun word => word != View.reader.storageWord && word != View.builder.storageWord
  then some (s.run cs) else none

namespace Scans

variable {view : View} {s t u : Scan} {a b text : String} {cs : List Char}

theorem append (ha : Scans view s a t) (hb : Scans view t b u) : Scans view s (a ++ b) u := by
  constructor
  · rw [String.toList_append, Scan.run_append, ha.run, hb.run]
  · rw [String.toList_append, Scan.words_append, ha.run]
    exact List.forall_mem_append.2 ⟨ha.words, hb.words⟩

theorem last (ht : text = String.ofList cs) (h : s.read? cs = some t) : Scans view s text t := by
  rw [Scan.read?, Option.ite_none_right_eq_some, Option.some.injEq] at h
  subst ht
  constructor
  · rw [String.toList_ofList, h.2]
  · rw [String.toList_ofList]
    intro word hword other heq
    have hne := List.all_eq_true.1 h.1 word hword
    cases other <;> simp [heq] at hne

theorem fixed (ht : text = String.ofList cs) (h : s.read? cs = some t) (hb : Scans view t b u) :
    Scans view s (text ++ b) u :=
  (last ht h).append hb

/-- Behind a dot a name can be of any length. -/
theorem member (h : IsWord a) : Scans view .member a .member := by
  obtain ⟨hrun, hwords⟩ := Scan.run_member h
  exact ⟨hrun, hwords ▸ nofun⟩

theorem word (w : List Char) (h : IsWord a) :
    Scans view (.word w) a (.word (w ++ a.toList)) := by
  obtain ⟨hrun, hwords⟩ := Scan.run_word w h
  exact ⟨hrun, hwords ▸ nofun⟩

theorem literal {q : Char} (h : ∀ c ∈ a.toList, c ≠ q ∧ c ≠ '\\') :
    Scans view (.literal q) a (.literal q) := by
  obtain ⟨hrun, hwords⟩ := Scan.run_literal h
  exact ⟨hrun, hwords ▸ nofun⟩

end Scans

namespace View

/-- A part of the view's code, such as an expression. -/
def Term (view : View) (text : String) : Prop :=
  ∃ t, Scans view .code text t ∧ t.Rests view

/-- Code of the view that ends between two words. -/
abbrev Code (view : View) (text : String) : Prop :=
  Scans view .code text .code

variable {view : View} {a b text : String} {cs : List Char} {t : Scan}

theorem Code.term (h : view.Code text) : view.Term text :=
  ⟨_, h, trivial⟩

theorem code_of_isBlank (h : IsBlank text) : view.Code text := by
  obtain ⟨hrun, hwords⟩ := Scan.run_blank h
  exact ⟨hrun, hwords ▸ nofun⟩

theorem Code.append_term (ha : view.Code a) (hb : view.Term b) : view.Term (a ++ b) := by
  obtain ⟨t, ht, hrests⟩ := hb
  exact ⟨t, ha.append ht, hrests⟩

/-- What follows a term is read as if it stood alone. -/
theorem Term.scans (ha : view.Term a) (ho : Opens b) (hb : Scans view .code b t) :
    Scans view .code (a ++ b) t := by
  obtain ⟨s, hs, hrests⟩ := ha
  obtain ⟨c, cs, hcs, hc⟩ := ho
  -- the first character of `b` ends the word that `a` may have left open
  obtain ⟨hstep, hended⟩ := hrests.step_eq hc
  refine hs.append ⟨?_, ?_⟩
  · rw [← hb.run, hcs, Scan.run, Scan.run, List.foldl_cons, List.foldl_cons, hstep]
  · have hwords := hb.words
    rw [hcs, Scan.words] at hwords
    rw [hcs, Scan.words, hstep]
    exact List.forall_mem_append.2 ⟨hended, fun word hw => hwords word (List.mem_append_right _ hw)⟩

theorem Term.append (ha : view.Term a) (ho : Opens b) (hb : view.Term b) : view.Term (a ++ b) := by
  obtain ⟨t, ht, hrests⟩ := hb
  exact ⟨t, ha.scans ho ht, hrests⟩

theorem Term.member (ha : view.Term a) (hb : IsWord b) : view.Term (a ++ "." ++ b) := by
  rw [String.append_assoc]
  exact ha.append ((opens_of_eq rfl rfl).append b) ⟨.member, .fixed rfl rfl (.member hb), trivial⟩

theorem term_of_eq (ht : text = String.ofList cs) (h : Scan.code.read? cs = some t)
    (hrests : t.Rests view) : view.Term text :=
  ⟨t, .last ht h, hrests⟩

/-- A word that stands alone. -/
theorem term_of_isWord {c : Char} (h : IsWord text) (ht : text.toList = c :: cs)
    (hallows : view.Allows text.toList) : view.Term text := by
  unfold IsWord at h
  rw [ht, List.forall_mem_cons] at h
  have hstep : Scan.code.step c = .word [c] := if_pos h.1
  obtain ⟨hrun, hwords⟩ := Scan.run_word [c] h.2
  refine ⟨.word text.toList, ⟨?_, ?_⟩, hallows⟩
  · rw [ht, Scan.run, List.foldl_cons, hstep]
    exact hrun
  · rw [ht, Scan.words, hstep, hwords]
    exact nofun

theorem Code.join {texts : List String} (h : ∀ text ∈ texts, view.Code text) :
    view.Code (String.join texts) := by
  induction texts with
  | nil => exact .last rfl rfl
  | cons text texts ih =>
    rw [List.forall_mem_cons] at h
    rw [String.join_cons]
    exact h.1.append (ih h.2)

theorem code_of_spaced {parts : List String} (hs : Spaced parts text)
    (h : ∀ part ∈ parts, view.Code part) : view.Code text := by
  induction hs with
  | nil hblank => exact code_of_isBlank hblank
  | cons hblank _ ih =>
    rw [List.forall_mem_cons] at h
    exact (code_of_isBlank hblank).append (h.1.append (ih h.2))

theorem Term.intercalate {between : String} (ho : Opens between) (hb : view.Code between)
    {texts : List String} (h : ∀ text ∈ texts, view.Term text) :
    view.Term (between.intercalate texts) := by
  induction texts with
  | nil => exact term_of_eq rfl rfl trivial
  | cons text texts ih =>
    rw [List.forall_mem_cons] at h
    cases texts with
    | nil =>
      rw [String.intercalate_singleton]
      exact h.1
    | cons next texts =>
      rw [String.intercalate_cons_cons, String.append_assoc]
      exact h.1.append (ho.append _) (hb.append_term (ih h.2))

/-- The storage of a view is the only one that stands free in its code. -/
theorem Term.freeNames (h : view.Term text) :
    ∀ name ∈ freeNames text, ∀ other : View, name = other.storage → other = view := by
  obtain ⟨t, ht, hrests⟩ := h
  have hpending : ∀ word ∈ t.pending, view.Allows word := by
    cases t with
    | word cs => exact List.forall_mem_singleton.2 hrests
    | _ => exact nofun
  intro name hname other heq
  obtain ⟨word, hword, rfl⟩ := List.mem_map.1 hname
  rw [ht.run] at hword
  refine List.forall_mem_append.2 ⟨ht.words, hpending⟩ word hword other ?_
  rw [← String.toList_ofList (l := word), heq, toList_storage]

end View

end SchemaBindings.Bindings
